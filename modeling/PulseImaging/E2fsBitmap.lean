import PulseImaging.ImageE2fs

/-! The loops of `list_desc` as one loop over the sectors that are in use, and the bitmap they
leave. -/

namespace PulseImaging

def setAll (limit : Nat) : List Nat → List Byte → Fate (List Byte) := Fate.loop (e2fsSetbit limit)

theorem setAll_spec {limit : Nat} (ss : List Nat) (p : List Byte) (hp : p.length = limit)
    (h : ∀ s ∈ ss, s < 8 * limit) : ∃ p', setAll limit ss p = .done p' ∧ Marks p p' (· ∈ ss) := by
  induction ss generalizing p with
  | nil => exact ⟨p, rfl, Marks.refl p (fun s hs => by simp at hs)⟩
  | cons s ss ih =>
    have hs : s < 8 * limit := h s List.mem_cons_self
    obtain ⟨b, hb, hmark⟩ := setbit_marks p 0 s (by omega)
    obtain ⟨p', he, hmarks⟩ := ih b (hmark.1.trans hp) (fun t ht => h t (List.mem_cons_of_mem _ ht))
    refine ⟨p', ?_, (hmark.trans hmarks).congr (fun t => by simp)⟩
    rw [setAll, Fate.loop, e2fsSetbit, Fate.orExit_pos (by omega), hb]
    exact he

theorem setAll_exit {limit : Nat} (ss : List Nat) (p : List Byte) (hp : p.length = limit)
    (h : ¬ ∀ s ∈ ss, s < 8 * limit) : setAll limit ss p = .exit := by
  induction ss generalizing p with
  | nil => simp at h
  | cons s ss ih =>
    rw [setAll, Fate.loop, e2fsSetbit]
    by_cases hs : s < limit * 8
    · have hss : ¬ ∀ t ∈ ss, t < 8 * limit := fun hss => h (fun t ht => by
        rcases List.mem_cons.mp ht with rfl | ht
        · omega
        · exact hss t ht)
      obtain ⟨b, hb, hmark⟩ := setbit_marks p 0 s (by omega)
      rw [Fate.orExit_pos hs, hb]
      exact ih b (hmark.1.trans hp) hss
    · rw [Fate.orExit_neg hs]
      rfl

theorem setAll_append (limit : Nat) (ss ts : List Nat) (p : List Byte) :
    setAll limit (ss ++ ts) p = (setAll limit ss p).bind (setAll limit ts) := Fate.loop_append _ _ _ _

/-! ### The loops -/

theorem setBlock_eq (sectPerBlock limit ptr : Nat) (p : List Byte) :
    setBlock sectPerBlock limit ptr p = setAll limit (List.range' ptr sectPerBlock) p := by
  rw [setBlock, setAll, List.range'_eq_map_range, Fate.loop_map]

theorem countLoop_eq {α : Type} (limit : Nat) (l : List α) (ptr : Nat) (p : List Byte) :
    Fate.loop (fun (st : Nat × List Byte) _ => (e2fsSetbit limit st.2 st.1).bind
      (fun p => .done (st.1 + 1, p))) l (ptr, p) =
      (setAll limit (List.range' ptr l.length) p).bind (fun p => .done (ptr + l.length, p)) := by
  induction l generalizing ptr p with
  | nil => rfl
  | cons a l ih =>
    rw [Fate.loop, List.length_cons, List.range'_succ, setAll, Fate.loop, Fate.bind_assoc,
      Fate.bind_assoc]
    refine congrArg _ (funext fun p => ?_)
    rw [Fate.bind_done, ih, ← Nat.add_assoc, Nat.add_right_comm]
    rfl

theorem reservedBlocks_eq (sectPerBlock limit n ptr : Nat) (p : List Byte) :
    reservedBlocks sectPerBlock limit n (ptr, p) =
      (setAll limit (List.range' ptr (sectPerBlock * n)) p).bind
        (fun p => .done (ptr + sectPerBlock * n, p)) := by
  have hloop {α : Type} (l : List α) : ∀ ptr p, Fate.loop (fun (st : Nat × List Byte) _ =>
      Fate.loop (fun (st : Nat × List Byte) _ => (e2fsSetbit limit st.2 st.1).bind
      (fun p => .done (st.1 + 1, p))) (List.range sectPerBlock) st) l (ptr, p) =
      (setAll limit (List.range' ptr (sectPerBlock * l.length)) p).bind
        (fun p => .done (ptr + sectPerBlock * l.length, p)) := by
    induction l with
    | nil => exact fun _ _ => rfl
    | cons a l ih =>
      intro ptr p
      have hsucc : sectPerBlock * (l.length + 1) = sectPerBlock + sectPerBlock * l.length := by
        rw [Nat.mul_succ, Nat.add_comm]
      rw [Fate.loop, countLoop_eq, List.length_range, Fate.bind_assoc, List.length_cons, hsucc,
        ← List.range'_append_1, setAll_append, Fate.bind_assoc]
      refine congrArg _ (funext fun p => ?_)
      rw [Fate.bind_done, ih, Nat.add_assoc]
  rw [reservedBlocks, hloop, List.length_range]

/-- The sectors of the blocks in use among `n` blocks from `c` on. -/
def usedSectors (alloc : Nat → Bool) (sectPerBlock c n : Nat) : List Nat :=
  (List.range' c n).flatMap (fun b => if alloc b then List.range' (sectPerBlock * b) sectPerBlock else [])

theorem usedSectors_add (alloc : Nat → Bool) (sectPerBlock c m n : Nat) :
    usedSectors alloc sectPerBlock c (m + n) =
      usedSectors alloc sectPerBlock c m ++ usedSectors alloc sectPerBlock (c + m) n := by
  rw [usedSectors, ← List.range'_append_1, List.flatMap_append, usedSectors, usedSectors]

theorem usedSectors_succ (alloc : Nat → Bool) (sectPerBlock c n : Nat) :
    usedSectors alloc sectPerBlock c (n + 1) =
      (if alloc c then List.range' (sectPerBlock * c) sectPerBlock
        else []) ++ usedSectors alloc sectPerBlock (c + 1) n := by
  rw [usedSectors, List.range'_succ, List.flatMap_cons, usedSectors]

theorem mem_usedSectors {alloc : Nat → Bool} {sectPerBlock c n s : Nat} (hpos : 0 < sectPerBlock) :
    s ∈ usedSectors alloc sectPerBlock c n ↔ c ≤ s / sectPerBlock ∧ s / sectPerBlock < c + n ∧
      alloc (s / sectPerBlock) = true := by
  have hblock {b : Nat} : s ∈ List.range' (sectPerBlock * b) sectPerBlock ↔ s / sectPerBlock = b := by
    rw [List.mem_range'_1, Nat.div_eq_iff hpos, Nat.mul_comm]
    omega
  simp only [usedSectors, List.mem_flatMap, List.mem_range'_1]
  constructor
  · rintro ⟨b, hb, hs⟩
    split at hs
    · rename_i ha
      rw [hblock.mp hs]
      exact ⟨hb.1, hb.2, ha⟩
    · simp at hs
  · rintro ⟨h1, h2, ha⟩
    exact ⟨s / sectPerBlock, ⟨h1, h2⟩, by rw [if_pos ha]; exact hblock.mpr rfl⟩

theorem parseBlocks_eq {alloc : Nat → Bool} {buf : List Byte} (sectPerBlock limit first c : Nat)
    {n : Nat} (hbuf : first + n ≤ 8 * buf.length)
    (hbits : ∀ k < n, bitSet buf (first + k) = alloc (c + k)) (p : List Byte) :
    Fate.loop (fun (st : Nat × List Byte) j =>
        (Fate.ofAccess (testBit buf j)).bind (fun inUse =>
          (if inUse then setBlock sectPerBlock limit st.1 st.2 else .done st.2).bind (fun p =>
            .done (st.1 + sectPerBlock, p)))) (List.range' first n) (sectPerBlock * c, p) =
      (setAll limit (usedSectors alloc sectPerBlock c n) p).bind
        (fun p => .done (sectPerBlock * (c + n), p)) := by
  induction n generalizing first c p with
  | zero => rfl
  | succ n ih =>
    have hfirst : testBit buf first = some (alloc c) := by
      have hbit : bitSet buf first = alloc c := hbits 0 (by omega)
      rw [testBit_done (by omega), hbit]
    have hrest := ih (first + 1) (c + 1) (by omega) (fun k hk => by
      rw [Nat.add_right_comm, Nat.add_right_comm c]
      exact hbits (k + 1) (by omega))
    have hblock : (if alloc c then setBlock sectPerBlock limit (sectPerBlock * c) p else .done p) =
        setAll limit (if alloc c then List.range' (sectPerBlock * c) sectPerBlock else []) p := by
      cases alloc c
      · rfl
      · exact setBlock_eq _ _ _ _
    rw [List.range'_succ, Fate.loop, hfirst, Fate.ofAccess_some, Fate.bind_done, hblock,
      usedSectors_succ, setAll_append, Fate.bind_assoc, Fate.bind_assoc]
    refine congrArg _ (funext fun p => ?_)
    rw [Fate.bind_done, show sectPerBlock * c + sectPerBlock =
      sectPerBlock * (c + 1) by rw [Nat.mul_succ], hrest, Nat.add_right_comm, Nat.add_assoc]

/-! ### The groups -/

/-- Block sizes are multiples of 512, the blocks of a group fill whole bytes. -/
structure Ext2Geometry (fs : Ext2Filsys) : Prop where
  blockSize_pos : 0 < fs.blockSize
  blockSize_mod : fs.blockSize % 512 = 0
  blocksPerGroup_pos : 0 < fs.blocksPerGroup
  blocksPerGroup_mod : fs.blocksPerGroup % 8 = 0
  blocksPerGroup_lt : fs.blocksPerGroup < 2 ^ 32
  firstDataBlock_le : fs.firstDataBlock ≤ 1
  blocksCount_lt : fs.blocksCount < 2 ^ 32

/-- What the library is documented to answer, `alloc` being the block allocation map. -/
structure LibExt2fs (fs : Ext2Filsys) (alloc : Nat → Bool) : Prop where
  groupDescCount : fs.groupDescCount =
    (fs.blocksCount - fs.firstDataBlock + (fs.blocksPerGroup - 1)) / fs.blocksPerGroup
  groupFirstBlock : ∀ i < fs.groupDescCount, fs.groupFirstBlock i = fs.firstDataBlock + i * fs.blocksPerGroup
  groupLastBlock : ∀ i < fs.groupDescCount, fs.groupLastBlock i =
    if i + 1 = fs.groupDescCount then fs.blocksCount - 1
    else fs.firstDataBlock + (i + 1) * fs.blocksPerGroup - 1
  getBlockBitmapRange : ∀ start num, num % 8 = 0 → ∃ buf, fs.getBlockBitmapRange start num = some buf ∧
    8 * buf.length = num ∧ ∀ k < num, bitSet buf k = alloc (start + k)

variable {fs : Ext2Filsys} {alloc : Nat → Bool}

/-- Where group `i` begins, it ends within the volume. -/
theorem LibExt2fs.group_bounds (hlib : LibExt2fs fs alloc) (hfs : Ext2Geometry fs) {i : Nat}
    (hi : i < fs.groupDescCount) :
    fs.firstDataBlock + i * fs.blocksPerGroup < fs.blocksCount ∧
      (i + 1 < fs.groupDescCount → fs.firstDataBlock + (i + 1) * fs.blocksPerGroup < fs.blocksCount) ∧
      (i + 1 = fs.groupDescCount → fs.blocksCount ≤ fs.firstDataBlock + (i + 1) *
        fs.blocksPerGroup) := by
  have hpos := hfs.blocksPerGroup_pos
  have hlt {k : Nat} (hk : k < fs.groupDescCount) : fs.firstDataBlock + k * fs.blocksPerGroup <
      fs.blocksCount := by
    rw [hlib.groupDescCount, Nat.lt_div_iff_mul_lt hpos] at hk
    omega
  refine ⟨hlt hi, hlt, fun he => ?_⟩
  have hge : ¬ i + 1 < fs.groupDescCount := by omega
  rw [hlib.groupDescCount, Nat.lt_div_iff_mul_lt hpos] at hge
  omega

def groupBlocks (fs : Ext2Filsys) (i : Nat) : Nat :=
  min fs.blocksPerGroup (fs.blocksCount - (fs.firstDataBlock + i * fs.blocksPerGroup))

theorem descGroup_eq (hlib : LibExt2fs fs alloc) (hfs : Ext2Geometry fs)
    {i sectPerBlock limit : Nat} (hi : i < fs.groupDescCount) (p : List Byte) :
    descGroup fs sectPerBlock limit
        ⟨sectPerBlock * (fs.firstDataBlock + i * fs.blocksPerGroup),
          fs.firstDataBlock + i * fs.blocksPerGroup, p⟩ i =
      (setAll limit (usedSectors alloc sectPerBlock (fs.firstDataBlock + i * fs.blocksPerGroup)
        (groupBlocks fs i)) p).bind
        (fun p => .done ⟨sectPerBlock * (fs.firstDataBlock + i * fs.blocksPerGroup +
          groupBlocks fs i) +
            sectPerBlock * ((2 ^ 33 + fs.blocksPerGroup - groupBlocks fs i) % 2 ^ 32) % 2 ^ 32,
          (fs.firstDataBlock + i * fs.blocksPerGroup + fs.blocksPerGroup) % 2 ^ 32, p⟩) := by
  obtain ⟨hstart, hnext, hend⟩ := hlib.group_bounds hfs hi
  have hsucc : (i + 1) * fs.blocksPerGroup = i * fs.blocksPerGroup + fs.blocksPerGroup :=
    Nat.succ_mul _ _
  obtain ⟨c, hc⟩ : ∃ c, c = fs.firstDataBlock + i * fs.blocksPerGroup := ⟨_, rfl⟩
  obtain ⟨n, hn⟩ : ∃ n, n = groupBlocks fs i := ⟨_, rfl⟩
  have hn' : n = min fs.blocksPerGroup (fs.blocksCount - c) := by rw [hn, hc, groupBlocks]
  have hlen : fs.blocksPerGroup / 8 * 8 = fs.blocksPerGroup :=
    Nat.div_mul_cancel (Nat.dvd_of_mod_eq_zero hfs.blocksPerGroup_mod)
  have hfirst : fs.groupFirstBlock i = c := by rw [hlib.groupFirstBlock i hi, hc]
  have hpos := hfs.blocksPerGroup_pos
  have hlast : fs.groupLastBlock i = c + n - 1 := by
    rw [hlib.groupLastBlock i hi]
    split
    · have := hend ‹_›
      omega
    · have := hnext (by omega)
      omega
  have hcount := hfs.blocksCount_lt
  have hsmall := hfs.blocksPerGroup_lt
  obtain ⟨buf, hbuf, hlength, hbits⟩ :=
    hlib.getBlockBitmapRange c fs.blocksPerGroup hfs.blocksPerGroup_mod
  have hloop := parseBlocks_eq sectPerBlock limit 0 c
    (show 0 + n ≤ 8 * buf.length by omega) (fun k hk => by rw [Nat.zero_add]; exact hbits k (by omega)) p
  rw [← hc, ← hn, descGroup]
  simp only [hlen, hbuf, hfirst, hlast]
  rw [Fate.orExit_pos (le_refl c), Fate.orExit_pos (by omega), Fate.orExit_pos (by omega),
    Nat.sub_self, Nat.mul_zero,
    Nat.zero_mod, Nat.add_zero, parseBlocks, show c + n - 1 - c + 1 - 0 = n by omega, hloop,
    Fate.bind_assoc]
  refine congrArg _ (funext fun p => ?_)
  rw [Fate.bind_done, show 1 + (c + n - 1 - c) = n by omega]

/-- The groups before the last one: the pointer keeps up with the number of the block. -/
theorem groups_eq (hlib : LibExt2fs fs alloc) (hfs : Ext2Geometry fs) {m sectPerBlock limit : Nat}
    (hm : m + 1 ≤ fs.groupDescCount) (p : List Byte) :
    Fate.loop (descGroup fs sectPerBlock limit) (List.range m) ⟨sectPerBlock * fs.firstDataBlock,
      fs.firstDataBlock, p⟩ =
      (setAll limit (usedSectors alloc sectPerBlock fs.firstDataBlock (m * fs.blocksPerGroup)) p).bind
        (fun p => .done ⟨sectPerBlock * (fs.firstDataBlock + m * fs.blocksPerGroup),
          fs.firstDataBlock + m * fs.blocksPerGroup, p⟩) := by
  induction m with
  | zero => simp [Fate.loop, usedSectors, setAll]
  | succ m ih =>
    have hsucc : (m + 1) * fs.blocksPerGroup = m * fs.blocksPerGroup + fs.blocksPerGroup :=
      Nat.succ_mul _ _
    have hnext := (hlib.group_bounds hfs (show m < fs.groupDescCount by omega)).2.1 (by omega)
    have hblocks : groupBlocks fs m = fs.blocksPerGroup := by
      rw [groupBlocks]
      omega
    have hcount := hfs.blocksCount_lt
    have hrest : (2 ^ 33 + fs.blocksPerGroup - fs.blocksPerGroup) % 2 ^ 32 = 0 := by omega
    have hitr : (fs.firstDataBlock + m * fs.blocksPerGroup + fs.blocksPerGroup) % 2 ^ 32 =
        fs.firstDataBlock + m * fs.blocksPerGroup + fs.blocksPerGroup := Nat.mod_eq_of_lt (by omega)
    rw [List.range_succ, Fate.loop_append, ih (by omega), Fate.bind_assoc, hsucc, usedSectors_add,
      setAll_append, Fate.bind_assoc]
    refine congrArg _ (funext fun p => ?_)
    rw [Fate.bind_done, Fate.loop, descGroup_eq hlib hfs (by omega), hblocks, hrest, hitr,
      Fate.bind_assoc, Nat.mul_zero, Nat.zero_mod, Nat.add_zero, Nat.add_assoc]
    rfl

theorem groups_all (hlib : LibExt2fs fs alloc) (hfs : Ext2Geometry fs) (sectPerBlock limit : Nat)
    (p : List Byte) :
    (Fate.loop (descGroup fs sectPerBlock limit) (List.range fs.groupDescCount)
        ⟨sectPerBlock * fs.firstDataBlock, fs.firstDataBlock, p⟩).bind (fun st => .done st.bitmap) =
      setAll limit (usedSectors alloc sectPerBlock fs.firstDataBlock
        (fs.blocksCount - fs.firstDataBlock)) p := by
  have hpos := hfs.blocksPerGroup_pos
  have hret (x : Fate (List Byte)) : x.bind (fun p => .done p) = x := by cases x <;> rfl
  cases hgroups : fs.groupDescCount with
  | zero =>
    have hzero : fs.blocksCount - fs.firstDataBlock = 0 := by
      have hdiv := hlib.groupDescCount
      rw [hgroups, eq_comm, Nat.div_eq_zero_iff] at hdiv
      omega
    rw [hzero]
    rfl
  | succ m =>
    have hm : m < fs.groupDescCount := by omega
    have hbounds := hlib.group_bounds hfs hm
    have hend := hbounds.2.2 hgroups.symm
    have hsucc : (m + 1) * fs.blocksPerGroup = m * fs.blocksPerGroup + fs.blocksPerGroup :=
      Nat.succ_mul _ _
    have hsplit : fs.blocksCount - fs.firstDataBlock = m * fs.blocksPerGroup + groupBlocks fs m := by
      rw [groupBlocks]
      omega
    rw [List.range_succ, Fate.loop_append, groups_eq hlib hfs (by omega), hsplit, usedSectors_add,
      setAll_append, Fate.bind_assoc, Fate.bind_assoc]
    refine congrArg _ (funext fun p => ?_)
    rw [Fate.bind_done, Fate.loop, descGroup_eq hlib hfs hm, Fate.bind_assoc, Fate.bind_assoc]
    exact hret _

/-! ### The bitmap -/

def Ext2Filsys.sectPerBlock (fs : Ext2Filsys) : Nat := fs.blockSize / 512

/-- `p->bitmaplg` is a `long`. -/
def Ext2Filsys.bitmaplg (fs : Ext2Filsys) : Nat := (fs.blocksCount * fs.sectPerBlock + 7) / 8 % 2 ^ 32

/-- All sectors that are set. -/
def e2fsSectors (fs : Ext2Filsys) (alloc : Nat → Bool) : List Nat :=
  List.range' 0 (fs.sectPerBlock * fs.firstDataBlock) ++
    usedSectors alloc fs.sectPerBlock fs.firstDataBlock (fs.blocksCount - fs.firstDataBlock)

theorem Ext2Geometry.sectPerBlock_pos (hfs : Ext2Geometry fs) : 0 < fs.sectPerBlock := by
  have := hfs.blockSize_pos
  have := hfs.blockSize_mod
  rw [Ext2Filsys.sectPerBlock]
  omega

theorem listDesc_eq (hlib : LibExt2fs fs alloc) (hfs : Ext2Geometry fs) (memory : Nat) :
    listDesc memory fs =
      .orExit (fs.blocksPerGroup / 8 ≤ memory) (.orExit (0 < fs.bitmaplg)
        (.orExit (fs.bitmaplg ≤ memory)
        (setAll fs.bitmaplg (e2fsSectors fs alloc) (List.replicate fs.bitmaplg 0)))) := by
  have hloops : (reservedBlocks fs.sectPerBlock fs.bitmaplg fs.firstDataBlock
      (0, List.replicate fs.bitmaplg 0)).bind
      (fun x => (Fate.loop (descGroup fs fs.sectPerBlock fs.bitmaplg) (List.range fs.groupDescCount)
        ⟨x.1, fs.firstDataBlock, x.2⟩).bind (fun st => .done st.bitmap)) =
      setAll fs.bitmaplg (e2fsSectors fs alloc) (List.replicate fs.bitmaplg 0) := by
    rw [reservedBlocks_eq, Fate.bind_assoc, e2fsSectors, setAll_append]
    refine congrArg _ (funext fun p => ?_)
    rw [Fate.bind_done, Nat.zero_add]
    exact groups_all hlib hfs _ _ p
  rw [listDesc, Fate.orExit_pos hfs.blockSize_pos.ne', Fate.orExit_pos hfs.blockSize_mod,
    Fate.orExit_pos hfs.blocksPerGroup_pos.ne', Fate.orExit_pos hfs.blocksPerGroup_mod, ← hloops]
  rfl

/-- A sector of a reserved block, or of one that is in use. -/
def E2fsMarked (fs : Ext2Filsys) (alloc : Nat → Bool) (s : Nat) : Prop :=
  s / fs.sectPerBlock < fs.firstDataBlock ∨ s / fs.sectPerBlock < fs.blocksCount ∧ alloc (s / fs.sectPerBlock) = true

theorem mem_e2fsSectors (hfs : Ext2Geometry fs) (s : Nat) :
    s ∈ e2fsSectors fs alloc ↔ E2fsMarked fs alloc s := by
  have hpos := hfs.sectPerBlock_pos
  have hreserved : s ∈ List.range' 0 (fs.sectPerBlock * fs.firstDataBlock) ↔
      s / fs.sectPerBlock < fs.firstDataBlock := by
    rw [List.mem_range'_1, Nat.div_lt_iff_lt_mul hpos, Nat.mul_comm]
    omega
  rw [e2fsSectors, List.mem_append, hreserved, mem_usedSectors hpos, E2fsMarked]
  constructor
  · rintro (h | ⟨h1, h2, ha⟩)
    · exact Or.inl h
    · exact Or.inr ⟨by omega, ha⟩
  · rintro (h | ⟨h, ha⟩)
    · exact Or.inl h
    · by_cases h1 : s / fs.sectPerBlock < fs.firstDataBlock
      · exact Or.inl h1
      · exact Or.inr ⟨by omega, by omega, ha⟩

/-- The marked sectors and no other, none at or beyond the end of the volume. -/
def E2fsExact (fs : Ext2Filsys) (alloc : Nat → Bool) (bitmap : List Byte) : Prop :=
  (∀ s, bitSet bitmap s = true ↔ E2fsMarked fs alloc s) ∧
    ∀ s, fs.blocksCount * fs.sectPerBlock ≤ s → bitSet bitmap s = false

theorem E2fsMarked.lt (hfs : Ext2Geometry fs) (hcount : 0 < fs.blocksCount) {s : Nat}
    (h : E2fsMarked fs alloc s) :
    s < fs.blocksCount * fs.sectPerBlock := by
  have := hfs.firstDataBlock_le
  rw [← Nat.div_lt_iff_lt_mul hfs.sectPerBlock_pos]
  rcases h with h | h <;> omega

theorem blocksCount_pos (h : 0 < fs.bitmaplg) : 0 < fs.blocksCount := by
  by_contra hzero
  have : fs.blocksCount = 0 := by omega
  simp [Ext2Filsys.bitmaplg, this] at h

/-- All assertions hold and the bitmap is exact when its length does not wrap, and only then. -/
theorem e2fs_bitmap_exact_iff (hlib : LibExt2fs fs alloc) (hfs : Ext2Geometry fs) (memory : Nat) :
    (∃ bitmap, listDesc memory fs = .done bitmap ∧ E2fsExact fs alloc bitmap) ↔
      (fs.blocksPerGroup / 8 ≤ memory ∧ fs.bitmaplg ≤ memory) ∧
        0 < fs.bitmaplg ∧ ∀ s, E2fsMarked fs alloc s → s < 8 * fs.bitmaplg := by
  rw [listDesc_eq hlib hfs]
  have hmem (s : Nat) : s ∈ e2fsSectors fs alloc ↔ E2fsMarked fs alloc s := mem_e2fsSectors hfs s
  constructor
  · rintro ⟨bitmap, he, -⟩
    simp only [Fate.orExit_eq_done] at he
    obtain ⟨h1, h2, h3, he⟩ := he
    refine ⟨⟨h1, h3⟩, h2, fun s hs => ?_⟩
    by_contra hout
    have hexit := setAll_exit (e2fsSectors fs alloc) (List.replicate fs.bitmaplg 0)
      List.length_replicate (fun hall => hout (hall s ((hmem s).mpr hs)))
    simp [hexit] at he
  · rintro ⟨⟨h1, h3⟩, h2, hin⟩
    obtain ⟨bitmap, he, hmarks⟩ := setAll_spec (e2fsSectors fs alloc) (List.replicate fs.bitmaplg 0)
      List.length_replicate (fun s hs => hin s ((hmem s).mp hs))
    have hbits (s : Nat) : bitSet bitmap s = true ↔ E2fsMarked fs alloc s :=
      (hmarks.of_zeros.2 s).trans (hmem s)
    refine ⟨bitmap, by rw [Fate.orExit_pos h1, Fate.orExit_pos h2, Fate.orExit_pos h3, he], hbits,
      fun s hs => ?_⟩
    rw [Bool.eq_false_iff]
    intro hset
    have := E2fsMarked.lt hfs (blocksCount_pos h2) ((hbits s).mp hset)
    omega

/-! ### Two volumes -/

def packByte (f : Nat → Bool) : Byte :=
  (List.range 8).foldl (fun b j => if f j then b ||| masks.getD j 0 else b) 0

theorem packByte_bit (f : Nat → Bool) {j : Nat} (hj : j < 8) :
    (packByte f &&& masks.getD j 0 != 0) = f j := by
  have hpack : ∀ a₀ a₁ a₂ a₃ a₄ a₅ a₆ a₇ : Bool, ∀ j < 8,
      (packByte (fun i => [a₀, a₁, a₂, a₃, a₄, a₅, a₆, a₇].getD i false) &&& masks.getD j 0 != 0) =
        [a₀, a₁, a₂, a₃, a₄, a₅, a₆, a₇].getD j false := by decide +kernel
  have h := hpack (f 0) (f 1) (f 2) (f 3) (f 4) (f 5) (f 6) (f 7) j hj
  interval_cases j <;> exact h

/-- The library on a volume with the allocation map `alloc`. -/
def libFilsys (alloc : Nat → Bool) (blockSize blocksPerGroup firstDataBlock blocksCount : Nat) : Ext2Filsys where
  blockSize := blockSize
  blocksPerGroup := blocksPerGroup
  firstDataBlock := firstDataBlock
  blocksCount := blocksCount
  groupDescCount := (blocksCount - firstDataBlock + (blocksPerGroup - 1)) / blocksPerGroup
  groupFirstBlock i := firstDataBlock + i * blocksPerGroup
  groupLastBlock i :=
    if i + 1 = (blocksCount - firstDataBlock + (blocksPerGroup - 1)) / blocksPerGroup then blocksCount - 1
    else firstDataBlock + (i + 1) * blocksPerGroup - 1
  getBlockBitmapRange start num := some ((List.range (num / 8)).map (fun i => packByte (fun j => alloc (start + 8 * i + j))))

theorem libFilsys_lib (alloc : Nat → Bool)
    (blockSize blocksPerGroup firstDataBlock blocksCount : Nat) :
    LibExt2fs (libFilsys alloc blockSize blocksPerGroup firstDataBlock blocksCount) alloc := by
  refine ⟨rfl, fun _ _ => rfl, fun _ _ => rfl, fun start num hnum => ⟨_, rfl, ?_, fun k hk => ?_⟩⟩
  · rw [List.length_map, List.length_range]
    omega
  · have hs : k >>> 3 = k / 8 := Nat.shiftRight_eq_div_pow k 3
    have hm : k &&& 7 = k % 8 := Nat.and_two_pow_sub_one_eq_mod k 3
    rw [bitSet, List.getD_eq_getElem?_getD, ← testBit_eq, testBit, hs, hm, List.getElem?_map,
      List.getElem?_range (by omega), Option.map_some, Option.map_some, Option.getD_some,
      packByte_bit _ (by omega), show start + 8 * (k / 8) + k % 8 = start + k by omega]

/-- The blocks in use in a volume of 40 blocks, of which the first one is not counted in the groups. -/
def usedBlocks (b : Nat) : Bool := b ∈ [1, 2, 5, 17, 20, 33, 39]

/-- Three groups, of 16, 16 and 7 blocks. -/
theorem e2fs_bitmap_exact_used : ∃ bitmap, listDesc 1000 (libFilsys usedBlocks 1024 16 1 40) = .done bitmap ∧
    E2fsExact (libFilsys usedBlocks 1024 16 1 40) usedBlocks bitmap := by
  have hfs : Ext2Geometry (libFilsys usedBlocks 1024 16 1 40) :=
    ⟨by decide, by decide, by decide, by decide, by decide, by decide, by decide⟩
  refine (e2fs_bitmap_exact_iff (libFilsys_lib usedBlocks 1024 16 1 40) hfs 1000).mpr
    ⟨by decide, by decide, fun s hs => ?_⟩
  exact hs.lt hfs (by decide)

/-- With 2^31 blocks of 8192 bytes the length of the bitmap wraps to zero. -/
theorem large_e2fs_not_exact :
    ¬ ∀ (fs : Ext2Filsys) (alloc : Nat → Bool), LibExt2fs fs alloc → Ext2Geometry fs →
      ∃ memory bitmap, listDesc memory fs = .done bitmap ∧ E2fsExact fs alloc bitmap := by
  intro hclaim
  have hlib := libFilsys_lib (fun _ => false) 8192 65536 0 (2 ^ 31)
  have hfs : Ext2Geometry (libFilsys (fun _ => false) 8192 65536 0 (2 ^ 31)) :=
    ⟨by decide, by decide, by decide, by decide, by decide, by decide, by decide⟩
  obtain ⟨memory, bitmap, he, -⟩ := hclaim _ _ hlib hfs
  rw [listDesc_eq hlib hfs] at he
  simp only [Fate.orExit_eq_done] at he
  exact absurd he.2.1 (by decide)

end PulseImaging
