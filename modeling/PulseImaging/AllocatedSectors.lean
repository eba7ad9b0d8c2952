import PulseImaging.RoundTrip

/-! `allocated_sectors` of the raw and JFS image tools: a bitmap that is to mark
every sector of the device as allocated. -/

namespace PulseImaging

/-- The last byte: `(0xFF >> (8 - (size & 7))) & 0xFF` if there are remaining sectors. -/
def lastByte (size : Nat) : Byte :=
  if size &&& 7 ≠ 0 then UInt8.ofNat ((0xFF >>> (8 - (size &&& 7))) &&& 0xFF) else 0

/-- A zeroed bitmap: all bytes but the last are set in a loop, the last one is left
alone when there are no remaining sectors. -/
def fillBitmap (size bytes : Nat) : List Byte :=
  let bitmap := (List.range (bytes - 1)).foldl (fun b i => b.set i 0xFF) (List.replicate bytes 0)
  if size &&& 7 ≠ 0 then bitmap.set (bytes - 1) (lastByte size) else bitmap

theorem fold_set_eq {n m : Nat} (h : m ≤ n) :
    (List.range m).foldl (fun b i => b.set i 0xFF) (List.replicate n (0 : Byte)) =
      List.replicate m 0xFF ++ List.replicate (n - m) 0 := by
  induction m with
  | zero => simp
  | succ m ih =>
    rw [List.range_succ, List.foldl_append, ih (by omega), List.foldl_cons, List.foldl_nil,
      List.set_append_right _ _ (by simp), List.length_replicate, Nat.sub_self,
      show n - m = (n - (m + 1)) + 1 by omega, List.replicate_succ, List.set_cons_zero,
      List.replicate_succ', List.append_assoc, List.singleton_append]

theorem fillBitmap_eq {size bytes : Nat} (h : 0 < bytes) :
    fillBitmap size bytes = List.replicate (bytes - 1) 0xFF ++ [lastByte size] := by
  have hone : bytes - (bytes - 1) = 1 := by omega
  simp only [fillBitmap, fold_set_eq (Nat.sub_le bytes 1), hone]
  split
  · rw [List.set_append_right _ _ (by simp), List.length_replicate, Nat.sub_self]
    rfl
  · rename_i hz
    rw [lastByte, if_neg hz]
    rfl

theorem fillBitmap_length {size bytes : Nat} (h : 0 < bytes) :
    (fillBitmap size bytes).length = bytes := by
  rw [fillBitmap_eq h, List.length_append, List.length_replicate, List.length_singleton]
  omega

theorem fillBitmap_blockCount_lt {n : Nat} (h : n ≠ 0) (hn : n < 2 ^ 31) :
    blockCount (fillBitmap n ((n + 7) / 8)).length < 2 ^ 31 := by
  rw [fillBitmap_length (by omega), blockCount, ALLOCLG]
  omega

/-- Both copies of the function after the device has been sized. -/
def allParams (size : Fin (2 ^ 31)) (h : size.val ≠ 0) : PARAMS where
  bitmap := fillBitmap size ((size + 7) / 8)
  nb_sect := size
  nb_sect_lt := Nat.lt_trans size.isLt (Nat.pow_lt_pow_right Nat.one_lt_two (Nat.lt_of_sub_eq_succ rfl))
  nb_lt := fillBitmap_blockCount_lt h size.isLt

/-- `image_raw.c`: the size is an `unsigned int`; a device without sectors ends the
program. -/
def allocatedSectorsRaw (size : Fin (2 ^ 31)) : Option PARAMS :=
  if h : size.val = 0 then none else some (allParams size h)

/-- `image_jfs.c`: the size is an `int`, and `size + 7` may overflow. -/
def allocatedSectorsJfs (size : Fin (2 ^ 31)) : Option PARAMS :=
  if h : size.val = 0 then none
  else if size.val + 7 < 2 ^ 31 then some (allParams size h)
  else none

/-- Backup with `p` and restore copy every sector of a volume of `n` sectors. -/
def CopiesAll (p : PARAMS) (n : Nat) : Prop :=
  ∀ (C : Codec) (options : Option (List Byte)) (V : List Sector) (sect : Nat) (mem : Memory) (dev : Device)
    (fuel : Nat), C.Correct → NoKeywords options → V.length = n →
    imageFuel C (compressVolume allFull options [] p (openDevice (volumeContent V))) ≤ fuel →
    ∃ st, restore C.inflater allFull fuel
        (fetch (imageFiles C (compressVolume allFull options [] p (openDevice (volumeContent V)))))
        sect mem dev = some st ∧
      ∀ i < n, V[i]?.map Vector.toList = some (slice st.cp.dev.content (512 * (sect + i)) 512)

/-- The tool builds a bitmap with exactly the bits of the `n` sectors, and all of them
are copied. -/
def SavesAll (params : Option PARAMS) (n : Nat) : Prop :=
  ∃ p, params = some p ∧ (∀ i, i ∈ setBits p.bitmap ↔ i < n) ∧ CopiesAll p n

theorem lastByte_bits (size : Nat) : byteBits (lastByte size) =
    List.replicate (size % 8) true ++ List.replicate (8 - size % 8) false := by
  have hall : ∀ r < 8, byteBits (if r ≠ 0 then UInt8.ofNat ((0xFF >>> (8 - r)) &&& 0xFF) else 0) =
      List.replicate r true ++ List.replicate (8 - r) false := by decide
  have hand : size &&& 7 = size % 8 := Nat.and_two_pow_sub_one_eq_mod size 3
  rw [lastByte, hand]
  exact hall (size % 8) (Nat.mod_lt _ (by decide))

/-- The set bits reach up to the last multiple of 8 below the size, and from there over
the remaining sectors only. -/
theorem allParams_setBits (size : Fin (2 ^ 31)) (h : size.val ≠ 0) (i : Nat) :
    i ∈ setBits (allParams size h).bitmap ↔ i < 8 * ((size + 7) / 8 - 1) + size % 8 := by
  have hbits : bits (allParams size h).bitmap =
      List.replicate (8 * ((size + 7) / 8 - 1) + size % 8) true ++ List.replicate
      (8 - size % 8) false := by
    have hpos : 0 < (size.val + 7) / 8 := by omega
    change bits (fillBitmap size.val ((size.val + 7) / 8)) = _
    rw [fillBitmap_eq hpos, bits_append, bits_replicate_ff, bits_cons, lastByte_bits,
      show bits [] = [] from rfl, List.append_nil, ← List.append_assoc, ← List.replicate_add]
  rw [mem_setBits, hbits]
  by_cases hi : i < 8 * ((size + 7) / 8 - 1) + size % 8
  · simp [List.getElem?_append_left, hi]
  · rw [List.getElem?_append_right (by simpa using hi)]
    simp [hi, List.getElem?_replicate]

theorem copiesAll_of_setBits {p : PARAMS} {n : Nat} (h : ∀ i, i ∈ setBits p.bitmap ↔ i < n) :
    CopiesAll p n := by
  intro C options V sect mem dev fuel hC hopt hlen hfuel
  obtain ⟨st, hst, hc, -⟩ := restore_saved hC hopt (by decide) p (volumeContent V) sect mem dev hfuel
  refine ⟨st, hst, fun i hi => ?_⟩
  obtain ⟨s, hs⟩ : ∃ s, V[i]? = some s := ⟨_, List.getElem?_eq_getElem (by omega)⟩
  rw [hc, puts_saved_of_mem ((h i).mpr hi), volumeContent_slice hs, hs]
  rfl

theorem allParams_exact_iff (size : Fin (2 ^ 31)) (h : size.val ≠ 0) :
    (∀ i, i ∈ setBits (allParams size h).bitmap ↔ i < size.val) ↔ size.val % 8 ≠ 0 := by
  simp only [allParams_setBits]
  constructor
  · intro hall hz
    have := hall (size - 1)
    omega
  · intro hz i
    omega

theorem savesAll_allParams_iff (size : Fin (2 ^ 31)) (h : size.val ≠ 0) :
    SavesAll (some (allParams size h)) size.val ↔ size.val % 8 ≠ 0 := by
  rw [← allParams_exact_iff size h]
  constructor
  · rintro ⟨p, hp, hexact, -⟩
    rwa [← Option.some.inj hp] at hexact
  · intro hexact
    exact ⟨_, rfl, hexact, copiesAll_of_setBits hexact⟩

/-- A raw or JFS backup is complete exactly when the number of sectors is not a
multiple of 8 (and, in the JFS tool, the rounding does not overflow). -/
theorem raw_backup_completeness (n : Fin (2 ^ 31)) (h : n.val ≠ 0) :
    (SavesAll (allocatedSectorsRaw n) n ↔ n.val % 8 ≠ 0) ∧
      (SavesAll (allocatedSectorsJfs n) n ↔ n.val % 8 ≠ 0 ∧ n.val + 7 < 2 ^ 31) := by
  rw [allocatedSectorsRaw, dif_neg h, allocatedSectorsJfs, dif_neg h]
  refine ⟨savesAll_allParams_iff n h, ?_⟩
  split
  · rename_i hlt
    rw [savesAll_allParams_iff n h, and_iff_left hlt]
  · rename_i hge
    constructor
    · rintro ⟨p, hp, -⟩
      exact absurd hp (by simp)
    · rintro ⟨-, hlt⟩
      exact absurd hlt hge

theorem raw_backup_nine_sectors : (9 : Fin (2 ^ 31)).val ≠ 0 ∧ SavesAll (allocatedSectorsRaw 9) 9 :=
  ⟨by decide, (raw_backup_completeness 9 (by decide)).1.mpr (by decide)⟩

/-- Of a device of 8 sectors nothing is saved. -/
theorem raw_backup_eight_sectors :
    ¬ SavesAll (allocatedSectorsRaw 8) 8 ∧ ∃ p, allocatedSectorsRaw 8 = some p ∧ setBits p.bitmap = [] := by
  refine ⟨?_, allParams 8 (by decide), rfl, by decide⟩
  rw [show allocatedSectorsRaw 8 = some (allParams 8 (by decide)) from rfl]
  exact (savesAll_allParams_iff 8 (by decide)).not.mpr (by decide)

end PulseImaging
