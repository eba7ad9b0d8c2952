import PulseImaging.ImageReiserfs

/-! What the bitmap of `image_lvmreiserfs` holds. -/

namespace PulseImaging

/-! ### Clearing bits -/

theorem byteBits_andNot (b : Byte) {j : Nat} (hj : j < 8) :
    byteBits (b &&& ~~~ masks.getD j 0) = (byteBits b).set j false := by
  have hkeep {m m' : Byte} (h : ~~~ m &&& m' = m') : ((b &&& ~~~ m) &&& m' != 0) =
      (b &&& m' != 0) := by
    rw [UInt8.and_assoc, h]
  have hclear (m : Byte) : ((b &&& ~~~ m) &&& m != 0) = false := by
    rw [UInt8.and_assoc, UInt8.and_comm (~~~ m), UInt8.and_not_self, UInt8.and_zero]
    rfl
  interval_cases j <;> simp (disch := decide) [byteBits, masks, hkeep, hclear]

theorem clearBit_spec {map : List Byte} {nr : Nat} (h : nr < 8 * map.length) :
    ∃ map', clearBit nr map = some map' ∧ map'.length = map.length ∧
      ∀ s, s ≠ nr → bitSet map' s = bitSet map s := by
  have hs : nr >>> 3 = nr / 8 := Nat.shiftRight_eq_div_pow nr 3
  have hm : nr &&& 7 = nr % 8 := Nat.and_two_pow_sub_one_eq_mod nr 3
  have hi : nr / 8 < map.length := by omega
  have hget : map[nr / 8]? = some map[nr / 8] := List.getElem?_eq_getElem hi
  have hbits := bits_set hget (Nat.mod_lt nr (by decide))
    (byteBits_andNot map[nr / 8] (Nat.mod_lt nr (by decide)))
  refine ⟨_, by rw [clearBit, hs, hm, hget, Option.map_some], List.length_set, fun s hne => ?_⟩
  rw [bitSet, bitSet, hbits, Nat.div_add_mod, List.getD_eq_getElem?_getD, List.getD_eq_getElem?_getD,
    List.getElem?_set_ne (Ne.symm hne)]

theorem clearUnused_spec (bm : ReiserBitmap) (map : List Byte) (h : bm.byteSize ≤ map.length) :
    ∃ map', clearUnused bm map = .done map' ∧ map'.length = map.length ∧
      ∀ s, s < bm.bitSize → bitSet map' s = bitSet map s := by
  have hloop (l : List Nat) (map : List Byte) (hl : ∀ i ∈ l, bm.bitSize + i < 8 * map.length) :
      ∃ map', Fate.loop (fun map i => Fate.ofAccess (clearBit (bm.bitSize + i) map)) l map =
        .done map' ∧
        map'.length = map.length ∧ ∀ s, s < bm.bitSize → bitSet map' s = bitSet map s := by
    induction l generalizing map with
    | nil => exact ⟨map, rfl, rfl, fun _ _ => rfl⟩
    | cons i l ih =>
      obtain ⟨m, hm, hlength, hbits⟩ := clearBit_spec (hl i List.mem_cons_self)
      obtain ⟨map', he, hlength', hbits'⟩ := ih m (by
        rw [hlength]
        exact fun k hk => hl k (List.mem_cons_of_mem _ hk))
      refine ⟨map', by rw [Fate.loop, hm, Fate.ofAccess_some, Fate.bind_done, he],
        hlength'.trans hlength, fun s hs => (hbits' s hs).trans (hbits s (by omega))⟩
  exact hloop _ map (fun i hi => by rw [List.mem_range] at hi; omega)

/-! ### The blocks -/

theorem copyTo_done {map data : List Byte} {p : Nat} (h : p + data.length ≤ map.length) :
    copyTo map p data = .done (map.take p ++ data ++ map.drop (p + data.length)) := if_pos h

/-- The last block counts up to the end of the map. -/
theorem fetchBlocks_eq (bm : ReiserBitmap) {blocks : List (List Byte)} {bmapNr : Nat} (i : Nat)
    (map : List Byte) (hblocks : ∀ block ∈ blocks, block.length = 4096)
    (hi : i + blocks.length = bmapNr) (hmap : map.length = bm.byteSize)
    (hnr : bmapNr = (bm.byteSize + 4095) / 4096) :
    fetchBlocks bm bmapNr i 4096 (4096 * i) blocks map =
      .done (map.take (4096 * i) ++ blocks.flatten.take (bm.byteSize - 4096 * i)) := by
  induction blocks generalizing i map with
  | nil =>
    have hle : map.length ≤ 4096 * i := by
      simp only [List.length_nil] at hi
      omega
    simp [fetchBlocks, List.take_of_length_le hle]
  | cons block blocks ih =>
    have hblock : block.length = 4096 := hblocks block List.mem_cons_self
    rw [List.length_cons] at hi
    by_cases hlast : blocks = []
    · subst hlast
      have hi' : i = bmapNr - 1 := by
        simp only [List.length_nil] at hi
        omega
      have hbytes : (if i = bmapNr - 1 ∧ bm.byteSize % reiserBlocksize ≠
          0 then bm.byteSize % reiserBlocksize else 4096) = bm.byteSize - 4096 * i := by
        simp only [List.length_nil] at hi
        rw [reiserBlocksize]
        split <;> omega
      have hlength : (block.take (bm.byteSize - 4096 * i)).length = bm.byteSize - 4096 * i := by
        rw [List.length_take]
        omega
      have hend : 4096 * i + (block.take (bm.byteSize - 4096 * i)).length = map.length := by
        simp only [List.length_nil] at hi
        omega
      rw [fetchBlocks, hbytes, copyTo_done hend.le, hend, List.drop_length, List.append_nil]
      simp [fetchBlocks]
    · have hpos : 0 < blocks.length := List.length_pos_iff.mpr hlast
      have hbytes : (if i = bmapNr - 1 ∧ bm.byteSize % reiserBlocksize ≠
          0 then bm.byteSize % reiserBlocksize else 4096) = 4096 := if_neg (by omega)
      have hroom : 4096 * i + block.length ≤ map.length := by omega
      have hcopy : (map.take (4096 * i) ++ block ++ map.drop (4096 * i + block.length)).length =
          bm.byteSize := by
        simp only [List.length_append, List.length_take, List.length_drop]
        omega
      have htake : (map.take (4096 * i) ++ block ++ map.drop (4096 * i + block.length)).take
          (4096 * (i + 1)) = map.take (4096 * i) ++ block := by
        rw [List.take_append_of_le_length, List.take_of_length_le]
        · simp only [List.length_append, List.length_take]
          omega
        · simp only [List.length_append, List.length_take]
          omega
      have hrest := ih (i + 1) _ (fun b hb => hblocks b (List.mem_cons_of_mem _ hb)) (by omega) hcopy
      rw [fetchBlocks, hbytes, List.take_of_length_le hblock.le, copyTo_done hroom, Fate.bind_done,
        show 4096 * i + 4096 = 4096 * (i + 1) by omega, hrest, htake, List.flatten_cons,
        List.take_append,
        List.take_of_length_le (by omega : block.length ≤ bm.byteSize - 4096 * i), List.append_assoc,
        show bm.byteSize - 4096 * (i + 1) = bm.byteSize - 4096 * i - block.length by omega]

theorem ReiserFs.flatten_length (fs : ReiserFs) :
    fs.apBitmap.flatten.length = 4096 * fs.apBitmap.length := by
  have hall {l : List (List Byte)} (h : ∀ b ∈ l, b.length = 4096) : l.flatten.length =
      4096 * l.length := by
    induction l with
    | nil => rfl
    | cons b l ih =>
      rw [List.flatten_cons, List.length_append, h b List.mem_cons_self,
        ih (fun b hb => h b (List.mem_cons_of_mem _ hb)), List.length_cons]
      omega
  exact hall fs.apBitmap_length

/-- A block that is marked in the bitmap on the disk. -/
def ReiserFs.Marked (fs : ReiserFs) (b : Nat) : Prop := b < fs.blockCount ∧ bitSet fs.apBitmap.flatten b = true

theorem fetch_spec {fs : ReiserFs} (hnr : fs.apBitmap.length = (fs.blockCount + 32767) / 32768) :
    ∃ bm, myreiserfsFetchDiskBitmap (reiserfsCreateBitmap fs.blockCount) fs = .done bm ∧
      bm.bitSize = fs.blockCount ∧ fs.blockCount ≤ 8 * bm.map.length ∧
      ∀ b < fs.blockCount, bitSet bm.map b = true ↔ fs.Marked b := by
  have hlt := fs.bmapNr_lt
  have hsize : (fs.blockCount + 7) % 2 ^ 32 / 8 = (fs.blockCount + 7) / 8 := by omega
  obtain ⟨byteSize, hb⟩ : ∃ n, n = (fs.blockCount + 7) / 8 := ⟨_, rfl⟩
  have hcreate : reiserfsCreateBitmap fs.blockCount =
      ⟨byteSize, fs.blockCount, List.replicate byteSize 0⟩ := by
    rw [reiserfsCreateBitmap, hsize, hb]
  have hblocks := fetchBlocks_eq ⟨byteSize, fs.blockCount, List.replicate byteSize 0⟩ 0
    (List.replicate byteSize 0) fs.apBitmap_length (Nat.zero_add _) List.length_replicate
      (by dsimp only; omega)
  simp only [Nat.mul_zero, List.take_zero, List.nil_append, Nat.sub_zero] at hblocks
  have hflat := fs.flatten_length
  have hlength : (fs.apBitmap.flatten.take byteSize).length = byteSize := by
    rw [List.length_take]
    omega
  obtain ⟨map, hmap, hmaplength, hbits⟩ := clearUnused_spec ⟨byteSize, fs.blockCount,
    List.replicate byteSize 0⟩
    (fs.apBitmap.flatten.take byteSize) hlength.ge
  refine ⟨⟨byteSize, fs.blockCount, map⟩, ?_, rfl, ?_, fun b hlt => ?_⟩
  · rw [myreiserfsFetchDiskBitmap, hcreate, Fate.orExit_pos rfl, reiserBlocksize, hblocks,
      Fate.bind_done, hmap]
    rfl
  · simp only [hmaplength, hlength]
    omega
  · rw [hbits b hlt, bitSet_take (by omega), ReiserFs.Marked]
    constructor
    · exact fun h => ⟨hlt, h.1⟩
    · exact fun h => ⟨h.2, by omega⟩

/-! ### The sectors -/

theorem allocatedSectorsReiser_spec {fs : ReiserFs} {bm : ReiserBitmap} {offset : Nat}
    (hoffset : offset < 2 ^ 32) (hbits : bm.bitSize = fs.blockCount)
    (hlength : fs.blockCount ≤ 8 * bm.map.length)
    (hmarked : ∀ b < fs.blockCount, bitSet bm.map b = true ↔ fs.Marked b) (lvmSect : Nat) :
    ∃ bitmap, allocatedSectorsReiser lvmSect bm fs.blockCount offset =
        .orExit (¬ (fs.blockCount * 8 % 2 ^ 32 ≠ lvmSect ∧ lvmSect ≠ 0))
          (.done (fs.blockCount * 8 % 2 ^ 32 + offset / 512, bitmap)) ∧
      ∀ s, bitSet bitmap s = true ↔ s < offset / 512 ∨
        ∃ i < fs.blockCount * 8 % 2 ^ 32, fs.Marked (i / 8) ∧ s = (i + offset / 512) % 2 ^ 32 := by
  obtain ⟨lg, hlg⟩ : ∃ n, n = (fs.blockCount * 8 % 2 ^ 32 + offset / 512 + 7) / 8 := ⟨_, rfl⟩
  obtain ⟨b, hb, hb', hfirst⟩ := markAll_spec (show offset / 512 ≤ 8 * lg by omega)
  have htest {i : Nat} (hi : i < fs.blockCount * 8 % 2 ^ 32) :
      reiserfsBitmapTestBit bm (i / 8) = .done (bitSet bm.map (i / 8)) := by
    rw [reiserfsBitmapTestBit, hbits, Fate.orExit_pos (by omega), testBit_done (by omega)]
    rfl
  obtain ⟨bitmap, he, hmarks⟩ := markLoop_spec (fun i => reiserfsBitmapTestBit bm (i / 8))
    (fun i => (i + offset / 512) % 2 ^ 32) (List.range (fs.blockCount * 8 % 2 ^ 32)) b (by
      intro i hi
      rw [List.mem_range] at hi
      exact ⟨_, htest hi, fun _ => by dsimp only; omega⟩)
  refine ⟨bitmap, ?_, fun s => ?_⟩
  · rw [allocatedSectorsReiser, ← hlg, hb, Fate.bind_done, he]
    rfl
  · rw [hmarks.2, hfirst]
    apply or_congr_right
    constructor
    · rintro ⟨i, hi, ht, hs⟩
      rw [List.mem_range] at hi
      rw [htest hi, Fate.done.injEq, hmarked _ (by omega)] at ht
      exact ⟨i, hi, ht, hs⟩
    · rintro ⟨i, hi, ht, hs⟩
      exact ⟨i, List.mem_range.mpr hi, by rw [htest hi, (hmarked _ ht.1).mpr ht], hs⟩

/-- What the bitmap is to hold. -/
def ReiserExact (fs : ReiserFs) (offset : Nat) (bitmap : List Byte) : Prop :=
  ∀ s, bitSet bitmap s = true ↔ s < offset / 512 ∨ offset / 512 ≤ s ∧ fs.Marked ((s - offset / 512) / 8)

/-- Neither the offset nor the number of a marked sector wraps. -/
def ReiserFits (fs : ReiserFs) (offset : Nat) : Prop :=
  offset < 2 ^ 32 ∧ ∀ b, fs.Marked b → 8 * b < fs.blockCount * 8 % 2 ^ 32 ∧ 8 * b + 8 + offset / 512 ≤ 2 ^ 32

theorem marked_max (fs : ReiserFs) :
    (∀ b, ¬ fs.Marked b) ∨ ∃ b, fs.Marked b ∧ ∀ c, fs.Marked c → c ≤ b := by
  classical
  by_cases h : ∃ b, fs.Marked b
  · obtain ⟨b, hb⟩ := h
    exact Or.inr ⟨Nat.findGreatest fs.Marked fs.blockCount, Nat.findGreatest_spec hb.1.le hb,
      fun c hc => Nat.le_findGreatest hc.1.le hc⟩
  · exact Or.inl (fun b hb => h ⟨b, hb⟩)

/-- A sector that `allocated_sectors` marks, where `o` is what is left of the offset. -/
def ReiserFs.Stored (fs : ReiserFs) (o s : Nat) : Prop :=
  s < o ∨ ∃ i < fs.blockCount * 8 % 2 ^ 32, fs.Marked (i / 8) ∧ s = (i + o) % 2 ^ 32

theorem stored_of_fits {fs : ReiserFs} {offset : Nat} (h : ReiserFits fs offset) (s : Nat) :
    fs.Stored (offset / 512) s ↔ s < offset / 512 ∨ offset / 512 ≤ s ∧
      fs.Marked ((s - offset / 512) / 8) := by
  constructor
  · rintro (hs | ⟨i, hi, hm, rfl⟩)
    · exact Or.inl hs
    · have hfit := h.2 _ hm
      have hmod : (i + offset / 512) % 2 ^ 32 = i + offset / 512 := Nat.mod_eq_of_lt (by omega)
      rw [hmod, Nat.add_sub_cancel]
      exact Or.inr ⟨Nat.le_add_left _ _, hm⟩
  · rintro (hs | ⟨hle, hm⟩)
    · exact Or.inl hs
    · have hfit := h.2 _ hm
      refine Or.inr ⟨s - offset / 512, by omega, hm, ?_⟩
      rw [Nat.mod_eq_of_lt (by omega)]
      omega

/-- An offset that is cut leaves the last sector out. -/
theorem offset_lt_of_stored {fs : ReiserFs} {offset : Nat}
    (h : ∀ s, fs.Stored (offset % 2 ^ 32 / 512) s ↔ s < offset / 512 ∨ offset / 512 ≤ s ∧
      fs.Marked ((s - offset / 512) / 8)) :
    offset < 2 ^ 32 := by
  by_contra hlarge
  rcases marked_max fs with hno | ⟨b, hb, hmax⟩
  · rcases (h (offset / 512 - 1)).mpr (Or.inl (by omega)) with hs | ⟨i, -, hm, -⟩
    · omega
    · exact hno _ hm
  · have hlast : (8 * b + 7 + offset / 512 - offset / 512) / 8 = b := by omega
    rcases (h (8 * b + 7 + offset / 512)).mpr (Or.inr ⟨by omega, by rwa [hlast]⟩) with hs |
      ⟨i, -, hm, hs⟩
    · omega
    · have hle := hmax _ hm
      omega

theorem stored_iff_fits {fs : ReiserFs} {offset : Nat} :
    (∀ s, fs.Stored (offset % 2 ^ 32 / 512) s ↔
      s < offset / 512 ∨ offset / 512 ≤ s ∧ fs.Marked ((s - offset / 512) / 8)) ↔
        ReiserFits fs offset := by
  constructor
  · intro h
    have hsmall := offset_lt_of_stored h
    refine ⟨hsmall, fun b hb => ?_⟩
    rw [Nat.mod_eq_of_lt hsmall] at h
    have hlast : (8 * b + 7 + offset / 512 - offset / 512) / 8 = b := by omega
    rcases (h (8 * b + 7 + offset / 512)).mpr (Or.inr ⟨by omega, by rwa [hlast]⟩) with hs |
      ⟨i, hi, -, hs⟩
    · omega
    · have hlt : fs.blockCount * 8 % 2 ^ 32 < 2 ^ 32 := Nat.mod_lt _ (by norm_num)
      omega
  · intro h s
    rw [Nat.mod_eq_of_lt h.1]
    exact stored_of_fits h s

theorem imageReiserfs_stored {fs : ReiserFs}
    (hnr : fs.apBitmap.length = (fs.blockCount + 32767) / 32768) (lvmSect offset : Nat) :
    ∃ bitmap, imageReiserfs lvmSect fs offset =
        .orExit (¬ (fs.blockCount * 8 % 2 ^ 32 ≠ lvmSect ∧ lvmSect ≠ 0))
          (.done (fs.blockCount * 8 % 2 ^ 32 + offset % 2 ^ 32 / 512, bitmap)) ∧
      ∀ s, bitSet bitmap s = true ↔ fs.Stored (offset % 2 ^ 32 / 512) s := by
  obtain ⟨bm, hbm, hsize, hlength, hmarked⟩ := fetch_spec hnr
  obtain ⟨bitmap, he, hbits⟩ := allocatedSectorsReiser_spec
    (Nat.mod_lt offset (by norm_num)) hsize hlength hmarked lvmSect
  exact ⟨bitmap, by rw [imageReiserfs, hbm, Fate.bind_done, he], hbits⟩

/-- The bitmap is made without an access outside, and it is exact when nothing wraps, and only then. -/
theorem reiser_bitmap_exact_iff {fs : ReiserFs} (hnr : fs.apBitmap.length = (fs.blockCount + 32767) / 32768)
    (lvmSect offset : Nat) :
    ∃ bitmap, imageReiserfs lvmSect fs offset =
        .orExit (¬ (fs.blockCount * 8 % 2 ^ 32 ≠ lvmSect ∧ lvmSect ≠ 0))
          (.done (fs.blockCount * 8 % 2 ^ 32 + offset % 2 ^ 32 / 512, bitmap)) ∧
      (ReiserExact fs offset bitmap ↔ ReiserFits fs offset) := by
  obtain ⟨bitmap, he, hbits⟩ := imageReiserfs_stored hnr lvmSect offset
  refine ⟨bitmap, he, ?_⟩
  rw [← stored_iff_fits]
  exact forall_congr' (fun s => by rw [hbits])

theorem fullBlock_length (n : Nat) :
    ∀ block ∈ List.replicate n (List.replicate 4096 (0xFF : Byte)),
      block.length = reiserBlocksize := by
  intro block hblock
  rw [List.eq_of_mem_replicate hblock, List.length_replicate, reiserBlocksize]

theorem fullBlocks_lt {nr : Nat} (h : nr < 2 ^ 16) :
    (List.replicate nr (List.replicate 4096 (0xFF : Byte))).length < 2 ^ 16 := by
  rwa [List.length_replicate]

/-- All blocks are in use. -/
def fullReiser (n nr : Nat) (hn : n < 2 ^ 32) (hnr : nr < 2 ^ 16) : ReiserFs :=
  ⟨n, List.replicate nr (List.replicate 4096 0xFF), hn, fullBlocks_lt hnr, fullBlock_length nr⟩

theorem fullReiser_bmapNr (n nr : Nat) (hn : n < 2 ^ 32) (hnr : nr < 2 ^ 16) :
    (fullReiser n nr hn hnr).apBitmap.length = nr := List.length_replicate

theorem fullReiser_marked (n nr b : Nat) (hn : n < 2 ^ 32) (hnr : nr < 2 ^ 16) (hb : b < n)
    (h : n ≤ 32768 * nr) : (fullReiser n nr hn hnr).Marked b := by
  have hflat : (fullReiser n nr hn hnr).apBitmap.flatten = List.replicate (nr * 4096) 0xFF :=
    List.flatten_replicate_replicate
  exact ⟨hb, by rw [hflat]; exact bitSet_full (by omega)⟩

theorem twenty_lt : 20 < 2 ^ 32 := by norm_num

theorem one_lt_word : 1 < 2 ^ 16 := by norm_num

theorem reiser_bitmap_exact_small : ∃ bitmap,
    imageReiserfs 0 (fullReiser 20 1 twenty_lt one_lt_word) 1024 = .done (162, bitmap) ∧
      ReiserExact (fullReiser 20 1 twenty_lt one_lt_word) 1024 bitmap := by
  obtain ⟨bitmap, he, hexact⟩ :=
    reiser_bitmap_exact_iff (fullReiser_bmapNr 20 1 twenty_lt one_lt_word) 0 1024
  refine ⟨bitmap, he, hexact.mpr ⟨by norm_num, fun b hb => ?_⟩⟩
  have hlt : b < 20 := hb.1
  have hmod : (fullReiser 20 1 twenty_lt one_lt_word).blockCount * 8 % 2 ^ 32 = 160 := rfl
  omega

/-- With 2^29 blocks the number of sectors wraps to zero. -/
theorem large_reiser_not_exact :
    ¬ ∀ (lvmSect : Nat) (fs : ReiserFs) (offset : Nat), fs.apBitmap.length = (fs.blockCount + 32767) / 32768 →
      512 ∣ offset → ∀ n bitmap, imageReiserfs lvmSect fs offset = .done (n, bitmap) → ReiserExact fs offset bitmap := by
  intro hclaim
  have hnr := fullReiser_bmapNr (2 ^ 29) 16384 (by norm_num) (by norm_num)
  obtain ⟨bitmap, he, hbits⟩ := imageReiserfs_stored hnr 0 0
  have hexact := hclaim 0 _ 0 hnr (dvd_zero 512) _ _ (he.trans (Fate.orExit_pos (by simp) _))
  have hfits := stored_iff_fits.mp (fun s => (hbits s).symm.trans (hexact s))
  have hmarked := fullReiser_marked (2 ^ 29) 16384 0 (by norm_num) (by norm_num) (by norm_num)
    (by norm_num)
  exact absurd (hfits.2 0 hmarked).1 (Nat.not_lt_zero 0)

end PulseImaging
