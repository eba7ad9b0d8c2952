import PulseImaging.XfsScan

/-! What the bitmap of `image_xfs` holds for a volume that is as it should be. -/

namespace PulseImaging

/-! ### Volumes -/

/-- The last group may be shorter. -/
def XfsVolume.groupLength (vol : XfsVolume) (i : Nat) : Nat := min vol.sbAgblocks (vol.sbDblocks - i * vol.sbAgblocks)

/-- The blocks of the free space tree of a group, with their levels. -/
def XfsVolume.Tree (vol : XfsVolume) (i : Nat) : Nat → Nat → Prop :=
  TreeBlock vol i ((vol.agf i).levels - 1) (vol.agf i).root

def XfsVolume.InTree (vol : XfsVolume) (i k : Nat) : Prop :=
  ∃ b, vol.Tree i 0 b ∧ ∃ j < numrecs vol i b,
    i * vol.sbAgblocks + recStart vol i b j ≤ k ∧
      k < i * vol.sbAgblocks + recStart vol i b j + recCount vol i b j

def XfsVolume.InFreelist (vol : XfsVolume) (i k : Nat) : Prop :=
  (vol.agf i).flcount ≠ 0 ∧ ∃ s, ActiveSlot (vol.agf i).flfirst (vol.agf i).fllast s ∧
    k = i * vol.sbAgblocks + beAt 4 (readAgfl vol i) (4 * s)

def XfsVolume.Free (vol : XfsVolume) (k : Nat) : Prop :=
  ∃ i < vol.sbAgcount, vol.InTree i k ∨ vol.InFreelist i k

structure XfsGroupFormed (vol : XfsVolume) (i : Nat) : Prop where
  magicnum : AgfMagic vol i
  nonempty : 0 < vol.groupLength i
  seqno : (vol.agf i).seqno = i
  levels : 0 < (vol.agf i).levels
  blocks : ∀ l b, vol.Tree i l b → b < vol.groupLength i
  fits : ∀ l b, vol.Tree i l b → recordsEnd l (numrecs vol i b) ≤ 4096
  records : ∀ b, vol.Tree i 0 b → ∀ j < numrecs vol i b, recStart vol i b j + recCount vol i b j ≤ vol.groupLength i
  slots : (vol.agf i).flcount ≠ 0 →
    (vol.agf i).flfirst < xfsAgflSize ∧ (vol.agf i).fllast < xfsAgflSize ∧
      ∀ s, ActiveSlot (vol.agf i).flfirst (vol.agf i).fllast s →
        beAt 4 (readAgfl vol i) (4 * s) < vol.groupLength i

/-- The volume has its blocks. -/
structure XfsFormed (vol : XfsVolume) : Prop where
  checked : checkit vol = .done ()
  size : 4096 * vol.sbDblocks ≤ vol.size
  size_lt : vol.size < 2 ^ 63
  groups : ∀ i < vol.sbAgcount, XfsGroupFormed vol i

/-- One byte for each block, 0 for those that are free. -/
def XfsExact (vol : XfsVolume) (bitmap : List Byte) : Prop :=
  bitmap.length = vol.sbDblocks ∧
    ∀ b < vol.sbDblocks, (bitmap[b]? = some 0 ↔ vol.Free b) ∧ (¬ vol.Free b → bitmap[b]? = some 255)

/-! ### The scan -/

theorem groupLength_le {vol : XfsVolume} {i n : Nat} (hn : 0 < n) (h : n ≤ vol.groupLength i) :
    i * vol.sbAgblocks + n ≤ vol.sbDblocks := by
  have : n ≤ vol.sbDblocks - i * vol.sbAgblocks := le_trans h (Nat.min_le_right _ _)
  omega

theorem beAt_lt (n : Nat) (buf : List Byte) (off : Nat) : beAt n buf off < 256 ^ n := by
  refine Nat.lt_of_lt_of_le (leValue_lt _) (Nat.pow_le_pow_right (by norm_num) ?_)
  rw [List.length_reverse]
  exact List.length_take_le _ _

theorem XfsFormed.block_read {vol : XfsVolume} (h : XfsFormed vol) {i b : Nat}
    (hb : b < vol.groupLength i) :
    (readBlock vol i b).length = 4096 := by
  have hlt := groupLength_le (Nat.succ_pos b) hb
  have hsize := h.size
  have hsize_lt := h.size_lt
  have haddress : convertAgbToDaddr vol i b = (i * vol.sbAgblocks + b) * 4096 := by
    rw [convertAgbToDaddr]
    omega
  exact readdata_length vol (by omega) (by omega)

/-- What is at the front of a group that has a block was read. -/
theorem XfsFormed.front_read {vol : XfsVolume} (h : XfsFormed vol) {i offset size : Nat}
    (hi : 0 < vol.groupLength i) (hfront : 512 * offset + size ≤ 4096) :
    (readdata vol (convertAgToDaddr vol i offset) size).length = size := by
  have hlt := groupLength_le (Nat.succ_pos 0) hi
  have hsize := h.size
  have hsize_lt := h.size_lt
  have haddress : convertAgToDaddr vol i offset = i * vol.sbAgblocks * 4096 + 512 * offset := by
    rw [convertAgToDaddr, convertAgbToDaddr]
    omega
  exact readdata_length vol (by omega) (by omega)

section Group

variable {vol : XfsVolume} {i : Nat}

theorem XfsGroupFormed.level_eq (h : XfsGroupFormed vol i) :
    (vol.agf i).level = (vol.agf i).levels - 1 := by
  have hlt : (vol.agf i).levels < 256 ^ 4 := by
    simp only [XfsVolume.agf, xfsAgf]
    exact beAt_lt 4 _ _
  have := h.levels
  rw [XfsAgf.level]
  omega

theorem XfsGroupFormed.recordBlock_iff (h : XfsGroupFormed vol i) (k : Nat) :
    RecordBlock vol (vol.agf i) k ↔ vol.InTree i k := by
  rw [RecordBlock, h.seqno, h.level_eq]
  rfl

theorem XfsGroupFormed.freelistBlock_iff (h : XfsGroupFormed vol i) (k : Nat) :
    FreelistBlock vol (vol.agf i) k ↔ vol.InFreelist i k := by
  rw [FreelistBlock, h.seqno]
  rfl

theorem XfsFormed.inside (hvol : XfsFormed vol) (hi : i < vol.sbAgcount) : AgInside vol i := by
  have h := hvol.groups i hi
  have hagf : (agfBytes vol i).length = 60 := hvol.front_read h.nonempty (by decide)
  have hagfl : (readAgfl vol i).length = 512 := hvol.front_read h.nonempty (by decide)
  refine ⟨by omega, fun hcount => ?_, fun l b hb => ?_, fun b hb j hj => ?_⟩
  · obtain ⟨hfirst, hlast, hslots⟩ := h.slots hcount
    refine ⟨⟨hfirst, hlast, fun s hs => ?_⟩, fun s hs => ?_⟩
    · rw [h.seqno, hagfl]
      have hs : s < 128 := hs.1
      omega
    · rw [h.seqno]
      have := groupLength_le (Nat.succ_pos _) (hslots s hs)
      omega
  · rw [h.seqno, h.level_eq] at hb
    rw [h.seqno]
    have hlength := hvol.block_read (h.blocks l b hb)
    exact ⟨by omega, fun _ => by rw [hlength]; exact h.fits l b hb⟩
  · rw [h.seqno] at hj ⊢
    rw [h.seqno, h.level_eq] at hb
    rcases Nat.eq_zero_or_pos (recCount vol i b j) with hzero | hpos
    · exact .inl hzero
    · have := groupLength_le (by omega) (h.records b hb j hj)
      omega

end Group

section Volume

variable {fuel memory : Nat} {vol : XfsVolume} {p : XfsParams}

theorem XfsFormed.written_iff (h : XfsFormed vol) (hp : scanGroups fuel memory vol = .done p)
    (k : Nat) :
    k ∈ p.written ↔ vol.Free k := by
  obtain ⟨-, hmem, -⟩ := scanGroups_spec hp
  rw [hmem]
  constructor
  · rintro ⟨i, hi, hk⟩
    rw [(h.groups i hi).freelistBlock_iff, (h.groups i hi).recordBlock_iff] at hk
    exact ⟨i, hi, hk.symm⟩
  · rintro ⟨i, hi, hk⟩
    refine ⟨i, hi, ?_⟩
    rw [(h.groups i hi).freelistBlock_iff, (h.groups i hi).recordBlock_iff]
    exact hk.symm

/-- On a volume that is as it should be, the scan ends inside the bitmap if there is memory for it. -/
theorem XfsFormed.scan_done (h : XfsFormed vol) (hfits : BitmapFits memory vol) :
    ∃ fuel p, scanGroups fuel memory vol = .done p ∧ ∀ k ∈ p.written, k < vol.sbDblocks := by
  have hends (i : Nat) (hi : i < vol.sbAgcount) := (agInside_iff (h.groups i hi).magicnum).mp
    (h.inside hi)
  obtain ⟨fuel, p, hp⟩ := scanGroups_done_iff.mpr ⟨hfits, fun i hi => (hends i hi).1⟩
  obtain ⟨-, hmem, -⟩ := scanGroups_spec hp
  refine ⟨fuel, p, hp, fun k hk => ?_⟩
  obtain ⟨i, hi, hk⟩ := (hmem k).mp hk
  exact (hends i hi).2 k hk

theorem XfsFormed.exact_iff (h : XfsFormed vol) (hp : scanGroups fuel memory vol = .done p) :
    XfsExact vol p.bitmap ↔ vol.sbDblocks < 2 ^ 32 := by
  obtain ⟨hlength, -, hbytes⟩ := scanGroups_spec hp
  constructor
  · rintro ⟨heq, -⟩
    rw [← heq, hlength]
    exact Nat.mod_lt _ (by norm_num)
  · intro hlt
    rw [Nat.mod_eq_of_lt hlt] at hlength hbytes
    refine ⟨hlength, fun b hb => ?_⟩
    rw [hbytes b hb, ← h.written_iff hp b]
    by_cases hwritten : b ∈ p.written
    · simp [hwritten]
    · simp [hwritten]

theorem sb_length (hchecked : checkit vol = .done ()) : vol.sb.length = 200 := by
  obtain ⟨hlength, -⟩ := Fate.orExit_eq_done.mp hchecked
  rw [readdata, if_pos (by norm_num), slice_length] at hlength
  rw [XfsVolume.sb, readdata, if_pos (by norm_num), slice_length]
  omega

theorem XfsFormed.readsb_eq (h : XfsFormed vol) :
    readsb fuel memory vol = (scanGroups fuel memory vol).bind (verifyCount vol) :=
  Fate.orExit_pos (sb_length h.checked) _

/-- The bitmap is exact when the number of blocks fits into a `size_t` and there is memory for as many bytes,
and only then. -/
theorem xfs_bitmap_exact_iff (h : XfsFormed vol) :
    (∃ fuel p, scanGroups fuel memory vol = .done p ∧ readsb fuel memory vol = verifyCount vol p ∧
      (∀ k ∈ p.written, k < vol.sbDblocks) ∧ XfsExact vol p.bitmap) ↔
      vol.sbDblocks < 2 ^ 32 ∧ vol.sbDblocks ≤ memory := by
  constructor
  · rintro ⟨fuel, p, hp, -, -, hexact⟩
    have hlt := (h.exact_iff hp).mp hexact
    have hfits := (scanGroups_eq_done.mp hp).1
    rw [BitmapFits, Nat.mod_eq_of_lt hlt] at hfits
    exact ⟨hlt, hfits⟩
  · rintro ⟨hlt, hfits⟩
    obtain ⟨fuel, p, hp, hinside⟩ := h.scan_done
      (show BitmapFits memory vol by rwa [BitmapFits, Nat.mod_eq_of_lt hlt])
    exact ⟨fuel, p, hp, by rw [h.readsb_eq, hp, Fate.bind_done], hinside, (h.exact_iff hp).mpr hlt⟩

end Volume

/-! ### Two volumes -/

theorem xfsGroupFormed_leaf {vol : XfsVolume} {i : Nat} (hmagic : AgfMagic vol i)
    (hi : 0 < vol.groupLength i) (hseqno : (vol.agf i).seqno = i)
    (hlevels : (vol.agf i).levels = 1) (hblock : (vol.agf i).root < vol.groupLength i)
    (hfits : numrecs vol i (vol.agf i).root ≤ 510)
    (hrecords : ∀ j < numrecs vol i (vol.agf i).root, recStart vol i
      (vol.agf i).root j + recCount vol i (vol.agf i).root j ≤ vol.groupLength i)
    (hslots : (vol.agf i).flcount ≠ 0 → (vol.agf i).flfirst < xfsAgflSize ∧
      (vol.agf i).flfirst = (vol.agf i).fllast ∧ beAt 4 (readAgfl vol i) (4 * (vol.agf i).flfirst) <
      vol.groupLength i) :
    XfsGroupFormed vol i := by
  have hroot {l b : Nat} (hb : vol.Tree i l b) : l = 0 ∧ b = (vol.agf i).root :=
    treeBlock_zero (Nat.sub_eq_zero_of_le hlevels.le) hb
  refine ⟨hmagic, hi, hseqno, by omega, fun l b hb => ?_, fun l b hb => ?_, fun b hb j hj => ?_,
    fun hcount => ?_⟩
  · rw [(hroot hb).2]
    exact hblock
  · rw [(hroot hb).1, (hroot hb).2, recordsEnd, if_pos rfl]
    omega
  · rw [(hroot hb).2] at hj ⊢
    exact hrecords j hj
  · obtain ⟨hfirst, hlast, hslot⟩ := hslots hcount
    refine ⟨hfirst, lt_of_eq_of_lt hlast.symm hfirst, fun s hs => ?_⟩
    rw [← hlast, activeSlot_last hfirst] at hs
    rw [hs]
    exact hslot

theorem filledXfs_formed : XfsFormed filledXfs := by
  have hcount : filledXfs.sbAgcount = 1 := by decide
  have hrecs : numrecs filledXfs 0 (filledXfs.agf 0).root = 1 := by
    rw [numrecs, readBlock, beAt_readdata filledXfs (by decide) (by decide) (by decide)]
    decide
  refine ⟨by decide +kernel, by decide, by decide, fun i hi => ?_⟩
  obtain rfl : i = 0 := by omega
  refine xfsGroupFormed_leaf (show ntohAt 4 (agfBytes filledXfs 0) 0 = .done xfsAgfMagic by decide)
    (by decide)
    (by decide) (by decide) (by decide) (by omega) (fun j hj => ?_)
      (fun _ => ⟨by decide, by decide, ?_⟩)
  · obtain rfl : j = 0 := by omega
    rw [recStart, recCount, readBlock, beAt_readdata filledXfs (by decide) (by decide) (by decide),
      beAt_readdata filledXfs (by decide) (by decide) (by decide)]
    decide
  · rw [readAgfl, beAt_readdata filledXfs (by decide) (by decide) (by decide)]
    decide

theorem xfs_bitmap_exact_small : ∃ fuel p, scanGroups fuel 16 filledXfs = .done p ∧
    readsb fuel 16 filledXfs = verifyCount filledXfs p ∧
    (∀ k ∈ p.written, k < filledXfs.sbDblocks) ∧ XfsExact filledXfs p.bitmap :=
  (xfs_bitmap_exact_iff filledXfs_formed).mpr (by decide)

/-- 16 groups of `2 ^ 28` blocks, all of them free. -/
def largeXfs : XfsVolume :=
  xfsSample (2 ^ 28) 16 [(0, 88), (1, 70), (2, 83), (3, 66), (6, 16), (11, 1), (84, 16), (91, 16), (147, 1), (512, 88),
    (513, 65), (514, 71), (515, 70), (531, 1), (543, 1)]

theorem largeXfs_formed : XfsFormed largeXfs := by
  have hcount : largeXfs.sbAgcount = 16 := by decide
  refine ⟨by decide +kernel, by decide, by decide, fun i hi => ?_⟩
  have hlt : i < 16 := by omega
  have hrecs : numrecs largeXfs i (largeXfs.agf i).root = 0 := by
    interval_cases i <;>
      (rw [numrecs, readBlock, beAt_readdata largeXfs (by decide) (by decide) (by decide)]; decide)
  have hmagic : AgfMagic largeXfs i := by
    rw [AgfMagic]
    interval_cases i <;> decide
  refine xfsGroupFormed_leaf hmagic ?_ ?_ ?_ ?_ (by omega) (fun j hj => by omega)
    (fun hslots => absurd ?_ hslots)
  all_goals
    interval_cases i <;> decide

/-- `readsb` gets through, with a bitmap of no bytes. -/
theorem large_xfs_not_exact :
    ¬ ∀ (memory : Nat) (vol : XfsVolume), XfsFormed vol → ∀ fuel p, readsb fuel memory vol = .done p →
      XfsExact vol p.bitmap := by
  intro hclaim
  have hfits : BitmapFits 0 largeXfs := show largeXfs.sbDblocks % 2 ^ 32 ≤ 0 by decide
  obtain ⟨fuel, p, hp, -⟩ := largeXfs_formed.scan_done hfits
  have hlength : p.bitmap.length = 0 := (scanGroups_spec hp).1.trans (by decide)
  have hused : (2 ^ 64 + largeXfs.sbDblocks - largeXfs.sbFdblocks) * 8 % 2 ^ 64 = 0 := by decide
  have hreadsb : readsb fuel 0 largeXfs = .done p := by
    rw [largeXfs_formed.readsb_eq, hp, Fate.bind_done, verifyCount, hused]
    exact Fate.orExit_pos (Nat.zero_le _) _
  exact absurd ((largeXfs_formed.exact_iff hp).mp
    (hclaim 0 largeXfs largeXfs_formed fuel p hreadsb)) (by decide)

end PulseImaging
