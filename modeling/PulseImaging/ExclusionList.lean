import PulseImaging.BiosNumbers
import PulseImaging.SavedVolumes
import PulseImaging.Scanf
import Mathlib.Data.Nat.Bitwise
import PulseImaging.Fate

/-! The `exclude` file, folded into one mask a disk. A shift count is taken modulo 32, when a bit is set and when it
is tested. -/

namespace PulseImaging

/-- `1 << (n - 1)` -/
def partBit (n : Nat) : Nat := 1 <<< ((n + 31) % 32)

def excludePart (mask n : Nat) : Nat := if n = 0 then 0xFFFFFFFF else mask ||| partBit n

/-- The masks; a disk beyond the array has no result. -/
def loadexcludemap (content : List Byte) : Option (Nat → Nat) :=
  (fscanPairs 58 (content.length + 1) content).bind fun pairs =>
    pairs.foldlM
      (fun exclude p =>
        if asUnsigned p.1 < 65536 then
          some (Function.update exclude (asUnsigned p.1) (excludePart (exclude (asUnsigned p.1)) (asUnsigned p.2)))
        else none)
      (fun _ => 0)

/-- `isexcluded(disk, part)` with the array. -/
def readExcluded (exclude : Nat → Nat) (disk : Int) (part : Nat) : Fate Bool :=
  if 0 ≤ disk ∧ disk < 65536 then .done (isexcluded (fun d => exclude d.toNat) disk part) else .fault

/-- `dnum - 128` of an entry; `dnum` is the number of the last disk. -/
def diskIndex (dnum : Int) (p : PartInfo) : Int := (if isMapperName p.device then 0x1000 + p.minor else dnum) - 128

def partNumber (p : PartInfo) : Nat := if isMapperName p.device then 0 else (p.minor % 16).toNat

/-! ### The file -/

structure ExcludeLine where
  disk : Nat
  part : Nat
  disk_lt : disk < 65536

def ExcludeLine.text (l : ExcludeLine) : List Byte := decimal l.disk ++ 58 :: (decimal l.part ++ [10])

def excludeText (lines : List ExcludeLine) : List Byte := lines.flatMap ExcludeLine.text

/-- A line excludes the partition or all of its disk. -/
def listed (lines : List ExcludeLine) (disk : Int) (part : Nat) : Bool :=
  lines.any (fun l => (l.disk : Int) == disk && (l.part == part || l.part == 0))

theorem fscanInt_decimal (n : Nat) {rest : List Byte} (h : EndsNumber rest) :
    fscanInt (decimal n ++ rest) = (some (n : Int), rest) := by
  have hs := scanNat_decimal n h
  obtain ⟨d, ds, hds⟩ := List.exists_cons_of_ne_nil (decimal_ne_nil n)
  have hd : isDigit d = true := decimal_isDigit n d (by simp [hds])
  have hdn := (isDigit_iff d).mp hd
  rw [hds, List.cons_append] at hs ⊢
  rw [fscanInt, List.dropWhile_cons_of_neg (by simp [isSpace_of_isDigit hd])]
  split
  · next heq =>
    obtain rfl : d = 45 := (List.cons.inj heq).1
    simp at hdn
  · next heq =>
    obtain rfl : d = 43 := (List.cons.inj heq).1
    simp at hdn
  · rw [hs]
    rfl

theorem excludeText_dropWhile (lines : List ExcludeLine) :
    (excludeText lines).dropWhile isSpace = excludeText lines := by
  cases lines with
  | nil => rfl
  | cons l lines =>
    obtain ⟨d, ds, hds⟩ := List.exists_cons_of_ne_nil (decimal_ne_nil l.disk)
    have hd : isDigit d = true := decimal_isDigit l.disk d (by simp [hds])
    rw [excludeText, List.flatMap_cons, ExcludeLine.text, hds, List.cons_append, List.cons_append]
    exact List.dropWhile_cons_of_neg (by simp [isSpace_of_isDigit hd])

theorem fscanPair_line (l : ExcludeLine) (lines : List ExcludeLine) :
    fscanPair 58 (excludeText (l :: lines)) = (some ((l.disk : Int), (l.part : Int)),
      excludeText lines) := by
  have htext : excludeText (l :: lines) = decimal l.disk ++ 58 ::
      (decimal l.part ++ 10 :: excludeText lines) := by
    rw [excludeText, List.flatMap_cons, ExcludeLine.text]
    simp only [List.append_assoc, List.cons_append, List.nil_append]
    rfl
  have hcolon : EndsNumber (58 :: (decimal l.part ++ 10 :: excludeText lines)) := by
    intro b hb
    obtain rfl : 58 = b := Option.some.inj hb
    decide
  have hline : EndsNumber (10 :: excludeText lines) := by
    intro b hb
    obtain rfl : 10 = b := Option.some.inj hb
    decide
  have hspace : (10 :: excludeText lines).dropWhile isSpace =
    (excludeText lines).dropWhile isSpace := rfl
  rw [htext, fscanPair, fscanInt_decimal l.disk hcolon]
  simp only [if_true, fscanInt_decimal l.part hline, hspace, excludeText_dropWhile]

theorem excludeText_length (l : ExcludeLine) (lines : List ExcludeLine) :
    (excludeText lines).length < (excludeText (l :: lines)).length := by
  rw [excludeText, excludeText, List.flatMap_cons, List.length_append, ExcludeLine.text,
    List.length_append, List.length_cons]
  omega

theorem fscanPairs_text (lines : List ExcludeLine) {fuel : Nat}
    (h : (excludeText lines).length < fuel) :
    fscanPairs 58 fuel (excludeText lines) = some
      (lines.map (fun l => ((l.disk : Int), (l.part : Int)))) := by
  induction lines generalizing fuel with
  | nil =>
    obtain ⟨fuel, rfl⟩ := Nat.exists_eq_add_one_of_ne_zero (Nat.ne_of_gt (Nat.zero_lt_of_lt h))
    rfl
  | cons l lines ih =>
    obtain ⟨fuel, rfl⟩ := Nat.exists_eq_add_one_of_ne_zero (Nat.ne_of_gt (Nat.zero_lt_of_lt h))
    have hlt := excludeText_length l lines
    rw [fscanPairs, fscanPair_line]
    dsimp only
    cases lines with
    | nil => rfl
    | cons l' lines =>
      have hne : excludeText (l' :: lines) ≠ [] :=
        List.ne_nil_of_length_pos (Nat.zero_lt_of_lt (excludeText_length l' lines))
      rw [if_neg hne, ih (by omega)]
      rfl

/-! ### The masks -/

theorem asUnsigned_natCast (n : Nat) : asUnsigned (n : Int) = min n (2 ^ 31 - 1) := by
  rw [asUnsigned, storeInt]
  omega

theorem testBit_partBit (n k : Nat) : (partBit n).testBit k = decide ((n + 31) % 32 = k) := by
  rw [partBit, Nat.one_shiftLeft, Nat.testBit_two_pow]

theorem testBit_excludePart (mask n : Nat) {k : Nat} (hk : k < 32) :
    (excludePart mask n).testBit k = (mask.testBit k || (n == 0 || (n + 31) % 32 == k)) := by
  rw [excludePart]
  by_cases hn : n = 0
  · have hall : (0xFFFFFFFF : Nat).testBit k = true := by
      rw [show (0xFFFFFFFF : Nat) = 2 ^ 32 - 1 from rfl, Nat.testBit_two_pow_sub_one,
        decide_eq_true hk]
    rw [if_pos hn, hall, hn, beq_self_eq_true, Bool.true_or, Bool.or_true]
  · rw [if_neg hn, Nat.testBit_or, testBit_partBit, beq_false_of_ne hn, Bool.false_or]
    rfl

/-- The line sets bit `k` of the mask of its disk. -/
def ExcludeLine.sets (l : ExcludeLine) (d k : Nat) : Bool :=
  l.disk == d && (l.part == 0 || (min l.part (2 ^ 31 - 1) + 31) % 32 == k)

theorem loadexcludemap_text (lines : List ExcludeLine) :
    ∃ exclude, loadexcludemap (excludeText lines) = some exclude ∧
      ∀ d k, k < 32 → (exclude d).testBit k = lines.any (fun l => l.sets d k) := by
  rw [loadexcludemap, fscanPairs_text lines (Nat.lt_succ_self _), Option.bind_some]
  induction lines using List.reverseRecOn with
  | nil => exact ⟨_, rfl, fun d k _ => Nat.zero_testBit k⟩
  | append_singleton lines l ih =>
    obtain ⟨exclude, hfold, hbits⟩ := ih
    have hdisk : asUnsigned (l.disk : Int) = l.disk := by
      have := l.disk_lt
      rw [asUnsigned_natCast]
      omega
    rw [List.map_append, List.foldlM_append, hfold, List.map_singleton]
    refine ⟨Function.update exclude l.disk (excludePart (exclude l.disk) (asUnsigned l.part)), ?_,
      fun d k hk => ?_⟩
    · change (if asUnsigned (l.disk : Int) < 65536 then _ else none) >>= _ = _
      rw [hdisk, if_pos l.disk_lt]
      rfl
    · have hzero : (min l.part (2 ^ 31 - 1) == 0) = (l.part == 0) := by
        rw [Bool.eq_iff_iff, beq_iff_eq, beq_iff_eq]
        omega
      rw [List.any_append, List.any_cons, List.any_nil, Bool.or_false, ← hbits d k hk,
        ExcludeLine.sets]
      by_cases hd : l.disk = d
      · rw [← hd, Function.update_self, testBit_excludePart _ _ hk, asUnsigned_natCast, hzero,
          beq_self_eq_true, Bool.true_and]
      · rw [Function.update_of_ne (Ne.symm hd), beq_false_of_ne hd, Bool.false_and, Bool.or_false]

theorem isexcluded_eq_testBit (exclude : Int → Nat) (disk : Int) (part : Nat) :
    isexcluded exclude disk part = (exclude disk).testBit ((part + 31) % 32) := by
  rw [isexcluded, Nat.one_shiftLeft, Nat.and_two_pow]
  cases (exclude disk).testBit ((part + 31) % 32) with
  | false => rw [Bool.toNat_false, Nat.zero_mul]; rfl
  | true =>
    rw [Bool.toNat_true, Nat.one_mul, bne_iff_ne]
    exact Nat.ne_of_gt (Nat.two_pow_pos _)

theorem partNumber_lt (p : PartInfo) : partNumber p < 16 := by
  rw [partNumber]
  split
  · decide
  · omega

/-- What `save` does with the answer. -/
theorem volumeOf_excluded (m : Machine) (o : SaveOptions) (st : SaveState) (p : PartInfo)
    (h : isexcluded o.exclude (diskIndex st.dnum p) (partNumber p) = true) : st.volumeOf m o p = none := by
  have hpart : ∀ start size, SaveState.partVolume
      { st with isdm := isMapperName p.device, dnum := st.volumeNum p, geoStart := start } m o p size = none := by
    intro start size
    have hdisk : st.volumeNum p - 128 = diskIndex st.dnum p := rfl
    rw [partNumber, ← hdisk] at h
    rw [SaveState.partVolume]
    simp only [h, Bool.or_true, if_true]
  rw [SaveState.volumeOf]
  split
  · rfl
  · cases m.openDev (devPath p.device) with
    | none => rfl
    | some dev =>
      rw [Option.bind_some]
      cases (if isMapperName p.device then some 0 else dev.geo) with
      | none => rfl
      | some start =>
        rw [Option.bind_some, hpart]
        split <;> rfl

/-- What the code answers for an index in the array. -/
theorem isexcluded_text_iff {lines : List ExcludeLine} {exclude : Nat → Nat}
    (hbits : ∀ d k, k < 32 → (exclude d).testBit k = lines.any (fun l => l.sets d k)) {disk : Int}
    (h0 : 0 ≤ disk) {part : Nat} (hpart : part < 16) :
    isexcluded (fun d => exclude d.toNat) disk part = true ↔
      ∃ l ∈ lines, (l.disk : Int) = disk ∧ (l.part = 0 ∨ l.part < 2 ^ 31 ∧ l.part % 32 = part) := by
  rw [isexcluded_eq_testBit, hbits _ _ (Nat.mod_lt _ (by decide)), List.any_eq_true]
  refine exists_congr (fun l => and_congr_right (fun _ => ?_))
  rw [ExcludeLine.sets, Bool.and_eq_true, Bool.or_eq_true, beq_iff_eq, beq_iff_eq, beq_iff_eq]
  omega

theorem listed_iff (lines : List ExcludeLine) (disk : Int) (part : Nat) :
    listed lines disk part = true ↔
      ∃ l ∈ lines, (l.disk : Int) = disk ∧ (l.part = part ∨ l.part = 0) := by
  simp only [listed, List.any_eq_true, Bool.and_eq_true, Bool.or_eq_true, beq_iff_eq]

/-- The answer is right for an index in the array when no other number of the file is the same modulo 32. -/
theorem exclusion_iff (lines : List ExcludeLine) (dnum : Int) (p : PartInfo) :
    (∃ exclude, loadexcludemap (excludeText lines) = some exclude ∧
        readExcluded exclude (diskIndex dnum p) (partNumber p) = .done (listed lines (diskIndex dnum p) (partNumber p))) ↔
      (0 ≤ diskIndex dnum p ∧ diskIndex dnum p < 65536) ∧
        (listed lines (diskIndex dnum p) (partNumber p) = true ∨
          ∀ l ∈ lines, (l.disk : Int) = diskIndex dnum p → l.part < 2 ^ 31 → l.part % 32 ≠ partNumber p) := by
  obtain ⟨exclude, hload, hbits⟩ := loadexcludemap_text lines
  have hpart := partNumber_lt p
  obtain ⟨disk, hdisk⟩ : ∃ disk, disk = diskIndex dnum p := ⟨_, rfl⟩
  obtain ⟨part, hn⟩ : ∃ part, part = partNumber p := ⟨_, rfl⟩
  rw [← hn] at hpart
  rw [← hdisk, ← hn]
  have hanswer : 0 ≤ disk → (isexcluded (fun d => exclude d.toNat) disk part = true ↔
      ∃ l ∈ lines, (l.disk : Int) = disk ∧ (l.part = 0 ∨ l.part < 2 ^ 31 ∧ l.part % 32 = part)) :=
    fun h0 => isexcluded_text_iff hbits h0 hpart
  constructor
  · rintro ⟨exclude', hload', hread⟩
    obtain rfl := Option.some.inj (hload.symm.trans hload')
    rw [readExcluded] at hread
    split at hread
    · next hrange =>
      refine ⟨hrange, ?_⟩
      have heq := Fate.done.inj hread
      by_cases hl : listed lines disk part = true
      · exact .inl hl
      · refine .inr (fun l hmem hd hlt hmod => hl ?_)
        rw [← heq]
        exact (hanswer hrange.1).mpr ⟨l, hmem, hd, .inr ⟨hlt, hmod⟩⟩
    · cases hread
  · rintro ⟨hrange, hcond⟩
    refine ⟨exclude, hload, ?_⟩
    rw [readExcluded, if_pos hrange]
    congr 1
    rw [Bool.eq_iff_iff, hanswer hrange.1]
    constructor
    · rintro ⟨l, hmem, hd, hzero | ⟨hlt, hmod⟩⟩
      · exact (listed_iff lines disk part).mpr ⟨l, hmem, hd, .inr hzero⟩
      · exact hcond.resolve_right (fun hnone => hnone l hmem hd hlt hmod)
    · intro hl
      obtain ⟨l, hmem, hd, hpart' | hzero⟩ := (listed_iff lines disk part).mp hl
      · exact ⟨l, hmem, hd, .inr ⟨by omega, by omega⟩⟩
      · exact ⟨l, hmem, hd, .inl hzero⟩

/-- Partition 33 of the first disk is excluded, and with it partition 1. -/
def exclude33 : ExcludeLine := ⟨0, 33, Nat.zero_lt_succ _⟩

theorem other_partition_excluded :
    ∃ exclude, loadexcludemap (excludeText [exclude33]) = some exclude ∧
      readExcluded exclude (diskIndex 128 ⟨ascii "sda1", 8, 1⟩) (partNumber ⟨ascii "sda1", 8, 1⟩) = .done true ∧
      listed [exclude33] (diskIndex 128 ⟨ascii "sda1", 8, 1⟩) (partNumber ⟨ascii "sda1", 8, 1⟩) = false := by
  obtain ⟨exclude, hload, hbits⟩ := loadexcludemap_text [exclude33]
  refine ⟨exclude, hload, ?_, by decide⟩
  have hbit : (exclude 0).testBit 0 = true := (hbits 0 0 (by decide)).trans (by decide)
  have hdisk : diskIndex 128 ⟨ascii "sda1", 8, 1⟩ = 0 := by decide
  have hpart : partNumber ⟨ascii "sda1", 8, 1⟩ = 1 := by decide
  rw [hdisk, hpart, readExcluded, if_pos (by decide), isexcluded_eq_testBit]
  exact congrArg Fate.done hbit

end PulseImaging
