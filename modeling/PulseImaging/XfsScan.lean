import PulseImaging.BitmapMarks
import PulseImaging.ImageXfs
import PulseImaging.Traversal

/-! The scan of `image_xfs`: which blocks it clears, when it ends and when it stays inside the
bitmap. -/

namespace PulseImaging

/-! ### The blocks of a scan -/

def histBlocks (vol : XfsVolume) (agno agblockno len : Nat) : List Nat :=
  (List.range len).map (fun i => agno * vol.sbAgblocks + agblockno + i)

theorem mem_histBlocks {vol : XfsVolume} {agno agblockno len k : Nat} :
    k ∈ histBlocks vol agno agblockno len ↔
      agno * vol.sbAgblocks + agblockno ≤ k ∧ k < agno * vol.sbAgblocks + agblockno + len := by
  rw [histBlocks, List.mem_map]
  constructor
  · rintro ⟨i, hi, rfl⟩
    rw [List.mem_range] at hi
    omega
  · rintro ⟨hle, hlt⟩
    exact ⟨k - (agno * vol.sbAgblocks + agblockno), List.mem_range.mpr (by omega), by omega⟩

theorem histBlocks_inside {vol : XfsVolume} {agno agblockno len n : Nat} :
    (∀ k ∈ histBlocks vol agno agblockno len, k < n) ↔ len = 0 ∨
      agno * vol.sbAgblocks + agblockno + len ≤ n := by
  simp only [mem_histBlocks]
  constructor
  · intro h
    rcases Nat.eq_zero_or_pos len with hlen | hlen
    · exact .inl hlen
    · have := h (agno * vol.sbAgblocks + agblockno + len - 1) (by omega)
      omega
  · intro h k hk
    omega

theorem addtohist_takes (vol : XfsVolume) (agno agblockno len : Nat) :
    Fate.Takes XfsParams.clear (fun p => .done (addtohist vol p agno agblockno len))
      (.done (histBlocks vol agno agblockno len)) :=
  Fate.Takes.list _ _

def freelistBlocks (vol : XfsVolume) (agno last : Nat) (agfl : List Byte) : Nat → Nat → Fate (List Nat)
  | 0, _ => .more
  | fuel + 1, i =>
    (ntohAt 4 agfl (4 * i)).bind (fun blockno =>
      if i = last then .done (histBlocks vol agno blockno 1)
      else (freelistBlocks vol agno last agfl fuel (if i + 1 = xfsAgflSize then 0 else i + 1)).bind (fun ks =>
        .done (histBlocks vol agno blockno 1 ++ ks)))

theorem freelistLoop_takes (vol : XfsVolume) (agno last : Nat) (agfl : List Byte) (fuel i : Nat) :
    Fate.Takes XfsParams.clear (freelistLoop vol agno last agfl fuel i)
      (freelistBlocks vol agno last agfl fuel i) := by
  induction fuel generalizing i with
  | zero => exact fun _ => rfl
  | succ fuel ih =>
    refine Fate.Takes.bind _ (fun blockno => ?_)
    by_cases hi : i = last
    · simp only [if_pos hi]
      exact addtohist_takes vol agno blockno 1
    · simp only [if_neg hi]
      exact (addtohist_takes vol agno blockno 1).append (ih _)

def blockWidth (vol : XfsVolume) (agno b : Nat) : Fate Nat := bbNumrecs (readBlock vol agno b)

def leafBlocks (vol : XfsVolume) (agno b : Nat) : Fate (List Nat) :=
  let ablock := readBlock vol agno b
  (blockWidth vol agno b).bind (fun n => Fate.collect (fun i =>
    (ntohAt 4 ablock (16 + 8 * i)).bind (fun startblock =>
      (ntohAt 4 ablock (16 + 8 * i + 4)).bind (fun blockcount =>
        .done (histBlocks vol agno startblock blockcount)))) (List.range n))

def blockPtr (vol : XfsVolume) (agno b i : Nat) : Fate Nat :=
  ntohAt 4 (readBlock vol agno b) (16 + xfsMxr * 8 + 4 * i)

def treeBlocks (vol : XfsVolume) (agno : Nat) : Nat → Nat → Fate (List Nat) :=
  Fate.walk (leafBlocks vol agno) (blockWidth vol agno) (blockPtr vol agno)

theorem scanfuncBno_takes (vol : XfsVolume) (agno level b : Nat) :
    Fate.Takes XfsParams.clear (scanfuncBno vol agno level (readBlock vol agno b))
      (treeBlocks vol agno level b) := by
  induction level generalizing b with
  | zero =>
    exact Fate.Takes.bind _ (fun n => Fate.Takes.loop (fun i => Fate.Takes.bind _ (fun startblock =>
      Fate.Takes.bind _ (fun blockcount => addtohist_takes vol agno startblock blockcount))) _)
  | succ level ih =>
    exact Fate.Takes.bind _ (fun n => Fate.Takes.loop
      (fun i => Fate.Takes.bind _ (fun root => ih root)) _)

def XfsAgf.level (agf : XfsAgf) : Nat := (agf.levels + (2 ^ 32 - 1)) % 2 ^ 32

def agBlocks (fuel : Nat) (vol : XfsVolume) (i : Nat) : Fate (List Nat) :=
  (ntohAt 4 (agfBytes vol i) 0).bind (fun magicnum => .orExit (magicnum = xfsAgfMagic)
    ((readAgf vol i).bind (fun agf =>
      (if agf.flcount = 0 then .done []
        else freelistBlocks vol agf.seqno agf.fllast (readAgfl vol agf.seqno) fuel agf.flfirst).bind (fun ks =>
          (treeBlocks vol agf.seqno agf.level agf.root).bind (fun ls => .done (ks ++ ls))))))

theorem agLoop_takes (fuel : Nat) (vol : XfsVolume) :
    Fate.Takes XfsParams.clear (agLoop fuel vol)
      (Fate.collect (agBlocks fuel vol) (List.range vol.sbAgcount)) := by
  refine Fate.Takes.loop (fun i => Fate.Takes.bind _ (fun magicnum => Fate.Takes.orExit _
    (Fate.Takes.bind _ (fun agf => Fate.Takes.append ?_ ?_)))) _
  · intro p
    rw [scanFreelist]
    split
    · rfl
    · exact freelistLoop_takes _ _ _ _ _ _ p
  · intro p
    rw [scanSbtree, ← XfsAgf.level]
    exact scanfuncBno_takes vol _ _ _ p

/-! ### The bitmap after a scan -/

theorem clears_written (ks : List Nat) (p : XfsParams) :
    (ks.foldl XfsParams.clear p).written = p.written ++ ks := by
  induction ks generalizing p with
  | nil => simp
  | cons k ks ih => simp [ih, XfsParams.clear]

theorem clears_length (ks : List Nat) (p : XfsParams) :
    (ks.foldl XfsParams.clear p).bitmap.length = p.bitmap.length := by
  induction ks generalizing p with
  | nil => rfl
  | cons k ks ih => simp [ih, XfsParams.clear]

theorem clears_getElem? (ks : List Nat) (p : XfsParams) {b : Nat} (hb : b < p.bitmap.length) :
    (ks.foldl XfsParams.clear p).bitmap[b]? = if b ∈ ks then some 0 else p.bitmap[b]? := by
  induction ks generalizing p with
  | nil => simp
  | cons k ks ih =>
    rw [List.foldl_cons, ih _ (by simpa [XfsParams.clear] using hb)]
    by_cases hk : k = b
    · subst hk
      simp [XfsParams.clear, hb]
    · simp [XfsParams.clear, List.getElem?_set_ne hk, Ne.symm hk]

/-- A scan ends when its blocks can be collected, and it clears them. -/
theorem agLoop_eq_done {fuel : Nat} {vol : XfsVolume} {p : XfsParams} :
    agLoop fuel vol (fullBitmap vol) = .done p ↔
      ∃ ks, Fate.collect (agBlocks fuel vol) (List.range vol.sbAgcount) = .done ks ∧
        p = ks.foldl XfsParams.clear (fullBitmap vol) := by
  rw [agLoop_takes, Fate.bind_eq_done]
  simp only [Fate.done.injEq, eq_comm]

/-! ### The free list -/

theorem ntohAt_done {n off : Nat} {buf : List Byte} (h : off + n ≤ buf.length) :
    ntohAt n buf off = .done (beAt n buf off) := by
  rw [ntohAt, if_pos h, Fate.ofAccess_some]

theorem ntohAt_eq_done {n off a : Nat} {buf : List Byte} (h : ntohAt n buf off = .done a) :
    off + n ≤ buf.length ∧ a = beAt n buf off := by
  by_cases hin : off + n ≤ buf.length
  · rw [ntohAt_done hin] at h
    exact ⟨hin, (Fate.done.inj h).symm⟩
  · rw [ntohAt, if_neg hin] at h
    cases h

/-- The slots from `first` to `last`, round the end of the array. -/
def ActiveSlot (first last s : Nat) : Prop :=
  s < xfsAgflSize ∧ (if first ≤ last then first ≤ s ∧ s ≤ last else first ≤ s ∨ s ≤ last)

theorem activeSlot_next {i last : Nat} (hi : i < xfsAgflSize) (hlast : last < xfsAgflSize)
    (hne : i ≠ last) (s : Nat) :
    ActiveSlot i last s ↔ s = i ∨ ActiveSlot (if i + 1 = xfsAgflSize then 0 else i + 1) last s := by
  rw [show xfsAgflSize = 128 from rfl] at *
  unfold ActiveSlot
  rw [show xfsAgflSize = 128 from rfl]
  split_ifs <;> omega

theorem activeSlot_last {last : Nat} (hlast : last < xfsAgflSize) (s : Nat) :
    ActiveSlot last last s ↔ s = last := by
  rw [ActiveSlot, if_pos (le_refl last)]
  omega

/-- A walk that ends went from slot to slot of the array. -/
theorem freelistBlocks_eq_done {vol : XfsVolume} {agno last fuel i : Nat} {agfl : List Byte}
    {ks : List Nat} (hagfl : agfl.length ≤ 512)
    (hdone : freelistBlocks vol agno last agfl fuel i = .done ks) :
    i < xfsAgflSize ∧ last < xfsAgflSize ∧ (∀ s, ActiveSlot i last s → 4 * s + 4 ≤ agfl.length) ∧
      ∀ k, k ∈ ks ↔ ∃ s, ActiveSlot i last s ∧ k = agno * vol.sbAgblocks + beAt 4 agfl (4 * s) := by
  induction fuel generalizing i ks with
  | zero => cases hdone
  | succ fuel ih =>
    obtain ⟨blockno, hread, h⟩ := Fate.bind_eq_done.mp hdone
    obtain ⟨hin, rfl⟩ := ntohAt_eq_done hread
    have hi : i < xfsAgflSize := by
      rw [show xfsAgflSize = 128 from rfl]
      omega
    have hone (k : Nat) : k ∈ histBlocks vol agno (beAt 4 agfl (4 * i)) 1 ↔
        k = agno * vol.sbAgblocks + beAt 4 agfl (4 * i) := by
      rw [mem_histBlocks]
      omega
    by_cases hne : i = last
    · subst hne
      rw [if_pos rfl] at h
      obtain rfl := Fate.done.inj h
      exact ⟨hi, hi, fun s hs => (activeSlot_last hi s).mp hs ▸ hin,
        fun k => by simp [hone, activeSlot_last hi]⟩
    · rw [if_neg hne] at h
      obtain ⟨ls, hls, h⟩ := Fate.bind_eq_done.mp h
      obtain rfl := Fate.done.inj h
      obtain ⟨-, hlast, hread, hmem⟩ := ih hls
      refine ⟨hi, hlast, fun s hs => ?_, fun k => ?_⟩
      · rcases (activeSlot_next hi hlast hne s).mp hs with rfl | hs
        · exact hin
        · exact hread s hs
      · rw [List.mem_append, hone, hmem]
        constructor
        · rintro (rfl | ⟨s, hs, rfl⟩)
          · exact ⟨i, (activeSlot_next hi hlast hne i).mpr (.inl rfl), rfl⟩
          · exact ⟨s, (activeSlot_next hi hlast hne s).mpr (.inr hs), rfl⟩
        · rintro ⟨s, hs, rfl⟩
          rcases (activeSlot_next hi hlast hne s).mp hs with rfl | hs
          · exact .inl rfl
          · exact .inr ⟨s, hs, rfl⟩

/-- The distance to the last slot becomes smaller. -/
theorem freelistBlocks_done (vol : XfsVolume) (agno : Nat) {last fuel i : Nat} {agfl : List Byte}
    (hi : i < xfsAgflSize) (hlast : last < xfsAgflSize)
    (hread : ∀ s, ActiveSlot i last s → 4 * s + 4 ≤ agfl.length)
    (hfuel : (last + xfsAgflSize - i) % xfsAgflSize < fuel) :
    ∃ ks, freelistBlocks vol agno last agfl fuel i = .done ks := by
  induction fuel generalizing i with
  | zero => omega
  | succ fuel ih =>
    by_cases hne : i = last
    · subst hne
      rw [freelistBlocks, ntohAt_done (hread i ((activeSlot_last hi i).mpr rfl)), Fate.bind_done]
      exact ⟨_, if_pos rfl⟩
    · have hslot := activeSlot_next hi hlast hne
      rw [freelistBlocks, ntohAt_done (hread i ((hslot i).mpr (.inl rfl))), Fate.bind_done]
      obtain ⟨next, hnext⟩ : ∃ next, next = if i + 1 = xfsAgflSize then 0 else i + 1 := ⟨_, rfl⟩
      rw [← hnext] at hslot
      rw [show xfsAgflSize = 128 from rfl] at hi hlast hfuel hnext ih
      obtain ⟨ks, hks⟩ := @ih next (by split at hnext <;> omega)
        (fun s hs => hread s ((hslot s).mpr (.inr hs)))
        (by split at hnext <;> omega)
      rw [if_neg hne, show xfsAgflSize = 128 from rfl, ← hnext, hks]
      exact ⟨_, rfl⟩

theorem readdata_length_le (vol : XfsVolume) (offset size : Nat) :
    (readdata vol offset size).length ≤ size := by
  rw [readdata]
  split
  · rw [slice_length]
    exact Nat.min_le_left _ _
  · exact Nat.zero_le _

/-! ### The tree -/

def numrecs (vol : XfsVolume) (agno b : Nat) : Nat := beAt 2 (readBlock vol agno b) 6

def recStart (vol : XfsVolume) (agno b i : Nat) : Nat := beAt 4 (readBlock vol agno b) (16 + 8 * i)

def recCount (vol : XfsVolume) (agno b i : Nat) : Nat := beAt 4 (readBlock vol agno b) (16 + 8 * i + 4)

/-- Where the records, or the pointers, of a block end. -/
def recordsEnd (level n : Nat) : Nat := if level = 0 then 16 + 8 * n else 16 + xfsMxr * 8 + 4 * n

/-- The count and the records or pointers of a block were read with it. -/
structure BlockFits (vol : XfsVolume) (agno level b : Nat) : Prop where
  header : 8 ≤ (readBlock vol agno b).length
  records : numrecs vol agno b ≠ 0 → recordsEnd level (numrecs vol agno b) ≤ (readBlock vol agno b).length

theorem blockWidth_eq_done {vol : XfsVolume} {agno b n : Nat} :
    blockWidth vol agno b = .done n ↔ 8 ≤ (readBlock vol agno b).length ∧ n = numrecs vol agno b := by
  constructor
  · intro h
    obtain ⟨hin, rfl⟩ := ntohAt_eq_done h
    exact ⟨hin, rfl⟩
  · rintro ⟨hin, rfl⟩
    exact ntohAt_done hin

theorem leafBlocks_done_iff {vol : XfsVolume} {agno b : Nat} :
    (∃ ks, leafBlocks vol agno b = .done ks) ↔ BlockFits vol agno 0 b := by
  constructor
  · rintro ⟨ks, hks⟩
    obtain ⟨n, hn, hks⟩ := Fate.bind_eq_done.mp hks
    obtain ⟨hin, rfl⟩ := blockWidth_eq_done.mp hn
    refine ⟨hin, fun hne => ?_⟩
    obtain ⟨ls, hls⟩ := Fate.collect_done_iff.mp ⟨ks, hks⟩ (numrecs vol agno b - 1)
      (List.mem_range.mpr (by omega))
    obtain ⟨start, -, hls⟩ := Fate.bind_eq_done.mp hls
    obtain ⟨count, hcount, -⟩ := Fate.bind_eq_done.mp hls
    have hlast := (ntohAt_eq_done hcount).1
    rw [recordsEnd, if_pos rfl]
    omega
  · intro h
    rw [leafBlocks, blockWidth_eq_done.mpr ⟨h.header, rfl⟩, Fate.bind_done, Fate.collect_done_iff]
    intro i hi
    have hi := List.mem_range.mp hi
    have hend := h.records (by omega)
    rw [recordsEnd, if_pos rfl] at hend
    rw [ntohAt_done (by omega), Fate.bind_done, ntohAt_done (by omega), Fate.bind_done]
    exact ⟨_, rfl⟩

theorem mem_leafBlocks {vol : XfsVolume} {agno b : Nat} {ks : List Nat}
    (h : leafBlocks vol agno b = .done ks) (k : Nat) :
    k ∈ ks ↔ ∃ i < numrecs vol agno b, k ∈ histBlocks vol agno (recStart vol agno b i)
      (recCount vol agno b i) := by
  have hfits := leafBlocks_done_iff.mp ⟨ks, h⟩
  rw [leafBlocks, blockWidth_eq_done.mpr ⟨hfits.header, rfl⟩, Fate.bind_done] at h
  have hrec (i : Nat) (hi : i < numrecs vol agno b) :
      ((ntohAt 4 (readBlock vol agno b) (16 + 8 * i)).bind
      (fun startblock => (ntohAt 4 (readBlock vol agno b) (16 + 8 * i + 4)).bind (fun blockcount =>
        Fate.done (histBlocks vol agno startblock blockcount)))) =
      .done (histBlocks vol agno (recStart vol agno b i) (recCount vol agno b i)) := by
    have hend := hfits.records (by omega)
    rw [recordsEnd, if_pos rfl] at hend
    rw [ntohAt_done (by omega), Fate.bind_done, ntohAt_done (by omega), Fate.bind_done,
      recStart, recCount]
  rw [(Fate.collect_eq_done h).2]
  constructor
  · rintro ⟨i, hi, ls, hls, hk⟩
    have hi := List.mem_range.mp hi
    rw [hrec i hi] at hls
    obtain rfl := Fate.done.inj hls
    exact ⟨i, hi, hk⟩
  · rintro ⟨i, hi, hk⟩
    exact ⟨i, List.mem_range.mpr hi, _, hrec i hi, hk⟩

theorem passes_iff_fits {vol : XfsVolume} {agno : Nat} (level b : Nat) :
    Passes (leafBlocks vol agno) (blockWidth vol agno) (blockPtr vol agno) level b ↔
      BlockFits vol agno level b := by
  cases level with
  | zero => exact leafBlocks_done_iff
  | succ level =>
    constructor
    · rintro ⟨n, hn, hkids⟩
      obtain ⟨hin, rfl⟩ := blockWidth_eq_done.mp hn
      refine ⟨hin, fun hne => ?_⟩
      obtain ⟨c, hc⟩ := hkids (numrecs vol agno b - 1) (by omega)
      have hlast := (ntohAt_eq_done hc).1
      rw [recordsEnd, if_neg (Nat.succ_ne_zero level)]
      omega
    · intro h
      refine ⟨_, blockWidth_eq_done.mpr ⟨h.header, rfl⟩, fun k hk => ⟨_, ntohAt_done ?_⟩⟩
      have hend := h.records (by omega)
      rw [recordsEnd, if_neg (Nat.succ_ne_zero level)] at hend
      omega

def TreeBlock (vol : XfsVolume) (agno level root : Nat) : Nat → Nat → Prop :=
  Under (blockWidth vol agno) (blockPtr vol agno) level root

theorem treeBlocks_done_iff {vol : XfsVolume} {agno level root : Nat} :
    (∃ ks, treeBlocks vol agno level root = .done ks) ↔
      ∀ l b, TreeBlock vol agno level root l b → BlockFits vol agno l b := by
  rw [treeBlocks, Fate.walk_done_iff]
  simp only [passes_iff_fits, TreeBlock]

theorem mem_treeBlocks {vol : XfsVolume} {agno level root : Nat} {ks : List Nat}
    (h : treeBlocks vol agno level root = .done ks) (k : Nat) :
    k ∈ ks ↔ ∃ b, TreeBlock vol agno level root 0 b ∧ ∃ i < numrecs vol agno b,
      k ∈ histBlocks vol agno (recStart vol agno b i) (recCount vol agno b i) := by
  rw [Fate.mem_walk h]
  constructor
  · rintro ⟨b, hb, ls, hls, hk⟩
    exact ⟨b, hb, (mem_leafBlocks hls k).mp hk⟩
  · rintro ⟨b, hb, hk⟩
    obtain ⟨ls, hls⟩ := leafBlocks_done_iff.mpr (treeBlocks_done_iff.mp ⟨ks, h⟩ 0 b hb)
    exact ⟨b, hb, ls, hls, (mem_leafBlocks hls k).mpr hk⟩

/-! ### The groups -/

/-- A block that an active slot of the free list names. -/
def FreelistBlock (vol : XfsVolume) (agf : XfsAgf) (k : Nat) : Prop :=
  agf.flcount ≠ 0 ∧ ∃ s, ActiveSlot agf.flfirst agf.fllast s ∧
    k = agf.seqno * vol.sbAgblocks + beAt 4 (readAgfl vol agf.seqno) (4 * s)

/-- A block that a leaf record covers. -/
def RecordBlock (vol : XfsVolume) (agf : XfsAgf) (k : Nat) : Prop :=
  ∃ b, TreeBlock vol agf.seqno agf.level agf.root 0 b ∧ ∃ j < numrecs vol agf.seqno b,
    agf.seqno * vol.sbAgblocks + recStart vol agf.seqno b j ≤ k ∧
      k < agf.seqno * vol.sbAgblocks + recStart vol agf.seqno b j + recCount vol agf.seqno b j

/-- The slots from the first to the last are in the array, and were read with it. -/
structure FreelistEnds (vol : XfsVolume) (agf : XfsAgf) : Prop where
  first : agf.flfirst < xfsAgflSize
  last : agf.fllast < xfsAgflSize
  read : ∀ s, ActiveSlot agf.flfirst agf.fllast s → 4 * s + 4 ≤ (readAgfl vol agf.seqno).length

/-- The magic test of a group. -/
def AgfMagic (vol : XfsVolume) (i : Nat) : Prop := ntohAt 4 (agfBytes vol i) 0 = .done xfsAgfMagic

structure AgEnds (vol : XfsVolume) (i : Nat) : Prop where
  magicnum : AgfMagic vol i
  read : 52 ≤ (agfBytes vol i).length
  freelist : (vol.agf i).flcount ≠ 0 → FreelistEnds vol (vol.agf i)
  tree : ∀ l b, TreeBlock vol (vol.agf i).seqno (vol.agf i).level (vol.agf i).root l b →
    BlockFits vol (vol.agf i).seqno l b

theorem agBlocks_eq_done {fuel i : Nat} {vol : XfsVolume} {ks : List Nat}
    (h : agBlocks fuel vol i = .done ks) :
    AgEnds vol i ∧ ∀ k, k ∈ ks ↔ FreelistBlock vol (vol.agf i) k ∨ RecordBlock vol (vol.agf i) k := by
  obtain ⟨magicnum, hmagicnum, h⟩ := Fate.bind_eq_done.mp h
  obtain ⟨hmagic, h⟩ := Fate.orExit_eq_done.mp h
  rw [hmagic] at hmagicnum
  obtain ⟨agf, hagf, h⟩ := Fate.bind_eq_done.mp h
  obtain ⟨hread, hagf⟩ := Option.ite_none_right_eq_some.mp (Fate.ofAccess_eq_done.mp hagf)
  obtain rfl := Option.some.inj hagf
  obtain ⟨ls, hls, h⟩ := Fate.bind_eq_done.mp h
  obtain ⟨ms, hms, h⟩ := Fate.bind_eq_done.mp h
  obtain rfl := Fate.done.inj h
  have htree := treeBlocks_done_iff.mp ⟨ms, hms⟩
  have hrecords (k : Nat) : k ∈ ms ↔ RecordBlock vol (vol.agf i) k := by
    rw [mem_treeBlocks hms]
    simp only [mem_histBlocks, RecordBlock]
  by_cases hcount : (vol.agf i).flcount = 0
  · rw [if_pos hcount] at hls
    obtain rfl := Fate.done.inj hls
    exact ⟨⟨hmagicnum, hread, absurd hcount, htree⟩,
      fun k => by simp [FreelistBlock, hcount, hrecords]⟩
  · rw [if_neg hcount] at hls
    have hagfl : (readAgfl vol (vol.agf i).seqno).length ≤ 512 := readdata_length_le _ _ _
    obtain ⟨hfirst, hlast, hslots, hmem⟩ := freelistBlocks_eq_done hagfl hls
    exact ⟨⟨hmagicnum, hread, fun _ => ⟨hfirst, hlast, hslots⟩, htree⟩,
      fun k => by simp [FreelistBlock, hcount, hmem, hrecords]⟩

theorem agBlocks_done {fuel i : Nat} {vol : XfsVolume} (hfuel : xfsAgflSize ≤ fuel)
    (h : AgEnds vol i) : ∃ ks, agBlocks fuel vol i = .done ks := by
  have hsize : 0 < xfsAgflSize := by decide
  have hagf : readAgf vol i = .done (vol.agf i) := by rw [readAgf, if_pos h.read, Fate.ofAccess_some]
  have hmagic : ntohAt 4 (agfBytes vol i) 0 = .done xfsAgfMagic := h.magicnum
  obtain ⟨ms, hms⟩ := treeBlocks_done_iff.mpr h.tree
  rw [agBlocks, hmagic, Fate.bind_done, Fate.orExit_pos rfl, hagf, Fate.bind_done]
  by_cases hcount : (vol.agf i).flcount = 0
  · rw [if_pos hcount, Fate.bind_done, hms]
    exact ⟨_, rfl⟩
  · obtain ⟨hfirst, hlast, hslots⟩ := h.freelist hcount
    obtain ⟨ls, hls⟩ := freelistBlocks_done vol (vol.agf i).seqno hfirst hlast hslots
      (Nat.lt_of_lt_of_le (Nat.mod_lt _ hsize) hfuel)
    rw [if_neg hcount, hls, Fate.bind_done, hms]
    exact ⟨_, rfl⟩

theorem agLoop_done_iff {vol : XfsVolume} :
    (∃ fuel p, agLoop fuel vol (fullBitmap vol) = .done p) ↔ ∀ i < vol.sbAgcount, AgEnds vol i := by
  constructor
  · rintro ⟨fuel, p, h⟩ i hi
    obtain ⟨ks, hks, -⟩ := agLoop_eq_done.mp h
    obtain ⟨ls, hls⟩ := (Fate.collect_eq_done hks).1 i (List.mem_range.mpr hi)
    exact (agBlocks_eq_done hls).1
  · intro h
    obtain ⟨ks, hks⟩ := Fate.collect_done (fun i hi =>
      agBlocks_done (le_refl xfsAgflSize) (h i (List.mem_range.mp hi)))
    exact ⟨xfsAgflSize, _, agLoop_eq_done.mpr ⟨ks, hks, rfl⟩⟩

/-- There is memory for the bitmap. -/
def BitmapFits (memory : Nat) (vol : XfsVolume) : Prop := vol.sbDblocks % 2 ^ 32 ≤ memory

theorem scanGroups_eq_done {fuel memory : Nat} {vol : XfsVolume} {p : XfsParams} :
    scanGroups fuel memory vol = .done p ↔ BitmapFits memory vol ∧
      agLoop fuel vol (fullBitmap vol) = .done p := by
  simp only [scanGroups, freshBitmap, Fate.bind_eq_done, Fate.ofAccess_eq_done,
    Option.ite_none_right_eq_some, Option.some_inj]
  constructor
  · rintro ⟨_, ⟨hfits, rfl⟩, h⟩
    exact ⟨hfits, h⟩
  · rintro ⟨hfits, h⟩
    exact ⟨_, ⟨hfits, rfl⟩, h⟩

theorem scanGroups_done_iff {memory : Nat} {vol : XfsVolume} :
    (∃ fuel p, scanGroups fuel memory vol = .done p) ↔
      BitmapFits memory vol ∧ ∀ i < vol.sbAgcount, AgEnds vol i := by
  simp only [scanGroups_eq_done, exists_and_left, agLoop_done_iff]

theorem scanGroups_spec {fuel memory : Nat} {vol : XfsVolume} {p : XfsParams}
    (h : scanGroups fuel memory vol = .done p) :
    p.bitmap.length = vol.sbDblocks % 2 ^ 32 ∧
      (∀ k, k ∈ p.written ↔ ∃ i < vol.sbAgcount,
        FreelistBlock vol (vol.agf i) k ∨ RecordBlock vol (vol.agf i) k) ∧
      ∀ b < vol.sbDblocks % 2 ^ 32, p.bitmap[b]? = some (if b ∈ p.written then 0 else 255) := by
  obtain ⟨ks, hks, rfl⟩ := agLoop_eq_done.mp (scanGroups_eq_done.mp h).2
  have hlength : (fullBitmap vol).bitmap.length = vol.sbDblocks % 2 ^ 32 := List.length_replicate
  have hwritten : (ks.foldl XfsParams.clear (fullBitmap vol)).written = ks :=
    clears_written ks (fullBitmap vol)
  refine ⟨by rw [clears_length, hlength], fun k => ?_, fun b hb => ?_⟩
  · rw [hwritten, (Fate.collect_eq_done hks).2]
    constructor
    · rintro ⟨i, hi, ls, hls, hk⟩
      exact ⟨i, List.mem_range.mp hi, ((agBlocks_eq_done hls).2 k).mp hk⟩
    · rintro ⟨i, hi, hk⟩
      have hi := List.mem_range.mpr hi
      obtain ⟨ls, hls⟩ := (Fate.collect_eq_done hks).1 i hi
      exact ⟨i, hi, ls, hls, ((agBlocks_eq_done hls).2 k).mpr hk⟩
  · have hfull : (fullBitmap vol).bitmap[b]? = some 255 := by
      rw [fullBitmap, List.getElem?_replicate_of_lt hb]
    rw [clears_getElem? ks _ (by rwa [hlength]), hwritten, hfull]
    split <;> rfl

/-! ### Inside the bitmap -/

/-- The free list and the records of a group stay before the end of the volume. -/
structure AgInside (vol : XfsVolume) (i : Nat) : Prop where
  read : 52 ≤ (agfBytes vol i).length
  freelist : (vol.agf i).flcount ≠ 0 → FreelistEnds vol (vol.agf i) ∧
    ∀ s, ActiveSlot (vol.agf i).flfirst (vol.agf i).fllast s →
      (vol.agf i).seqno * vol.sbAgblocks + beAt 4 (readAgfl vol (vol.agf i).seqno) (4 * s) < vol.sbDblocks
  tree : ∀ l b, TreeBlock vol (vol.agf i).seqno (vol.agf i).level (vol.agf i).root l b →
    BlockFits vol (vol.agf i).seqno l b
  records : ∀ b, TreeBlock vol (vol.agf i).seqno (vol.agf i).level (vol.agf i).root 0 b →
    ∀ j < numrecs vol (vol.agf i).seqno b, recCount vol (vol.agf i).seqno b j = 0 ∨
      (vol.agf i).seqno * vol.sbAgblocks + recStart vol (vol.agf i).seqno b j + recCount vol (vol.agf i).seqno b j ≤
        vol.sbDblocks

theorem agInside_iff {vol : XfsVolume} {i : Nat} (hmagic : AgfMagic vol i) :
    AgInside vol i ↔ AgEnds vol i ∧
      ∀ k, FreelistBlock vol (vol.agf i) k ∨ RecordBlock vol (vol.agf i) k → k < vol.sbDblocks := by
  constructor
  · intro h
    refine ⟨⟨hmagic, h.read, fun hcount => (h.freelist hcount).1, h.tree⟩, ?_⟩
    rintro k (⟨hcount, s, hs, rfl⟩ | ⟨b, hb, j, hj, hle, hlt⟩)
    · exact (h.freelist hcount).2 s hs
    · have := h.records b hb j hj
      omega
  · rintro ⟨hends, hlt⟩
    refine ⟨hends.read, fun hcount => ⟨hends.freelist hcount,
      fun s hs => hlt _ (.inl ⟨hcount, s, hs, rfl⟩)⟩, hends.tree, fun b hb j hj => ?_⟩
    rw [← histBlocks_inside]
    exact fun k hk => hlt k (.inr ⟨b, hb, j, hj, mem_histBlocks.mp hk⟩)

/-! ### Volumes with one table of bytes for all groups -/

/-- A number in what a read puts into the buffer. -/
theorem beAt_readdata (vol : XfsVolume) {p m n off : Nat} (hseek : p < 2 ^ 63)
    (hsize : p + m ≤ vol.size) (h : off + n ≤ m) :
    beAt n (readdata vol p m) off = leValue (slice vol.content (p + off) n).reverse := by
  obtain ⟨r, rfl⟩ : ∃ r, m = off + (n + r) := ⟨m - (off + n), by omega⟩
  rw [readdata, if_pos hseek, Nat.min_eq_left (by omega), beAt, slice_add,
    List.drop_left' (slice_length _ _ _), slice_add, List.take_left' (slice_length _ _ _)]

theorem readdata_length (vol : XfsVolume) {p m : Nat} (hseek : p < 2 ^ 63)
    (hsize : p + m ≤ vol.size) :
    (readdata vol p m).length = m := by
  rw [readdata, if_pos hseek, slice_length, Nat.min_eq_left (by omega)]

/-- The groups differ in their numbers only. -/
def xfsSample (agblocks agcount : Nat) (table : List (Nat × Byte)) : XfsVolume where
  content a :=
    if a % (4096 * agblocks) = 523 then UInt8.ofNat (a / (4096 * agblocks))
    else (table.lookup (a % (4096 * agblocks))).getD 0
  size := 4096 * (agblocks * agcount)

/-- One group of 16 blocks, with its root in block 1 and block 2 in its free list. -/
def smallXfs (table : List (Nat × Byte)) : XfsVolume :=
  xfsSample 16 1 (table ++ [(0, 88), (1, 70), (2, 83), (3, 66), (6, 16), (15, 16), (87, 16), (91, 1), (512, 88),
    (513, 65), (514, 71), (515, 70), (531, 1), (543, 1), (563, 1), (1539, 2)])

theorem treeBlock_zero {vol : XfsVolume} {agno level root l b : Nat} (hlevel : level = 0)
    (h : TreeBlock vol agno level root l b) : l = 0 ∧ b = root := by
  subst hlevel
  cases h
  exact ⟨rfl, rfl⟩

/-- The free blocks are those from 3 to 6. -/
def filledXfs : XfsVolume := smallXfs [(4103, 1), (4115, 3), (4119, 4)]

end PulseImaging
