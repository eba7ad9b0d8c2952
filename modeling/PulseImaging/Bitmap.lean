import Mathlib.Data.List.Basic
import Mathlib.Data.List.Nodup
import Mathlib.Tactic

/-! Bitmaps stored as byte lists, least significant bit of the first byte
first, and the increasing list of the indexes of their set bits. -/

namespace PulseImaging

abbrev Byte := UInt8

/-- The masks `1, 2, 4, ..., 128` in the order a byte is scanned. -/
def masks : List Byte := [0x01, 0x02, 0x04, 0x08, 0x10, 0x20, 0x40, 0x80]

def byteBits (b : Byte) : List Bool := masks.map (fun m => b &&& m != 0)

def bits (bitmap : List Byte) : List Bool := bitmap.flatMap byteBits

/-- Indexes of the set bits, counted from `base`. -/
def indexes (base : Nat) : List Bool → List Nat
  | [] => []
  | b :: bs => if b then base :: indexes (base + 1) bs else indexes (base + 1) bs

def setBits (bitmap : List Byte) : List Nat := indexes 0 (bits bitmap)

/-- `bit[indx >> 3] & mask[indx & 7]`, or `none` outside of the array. -/
def testBit (bitmap : List Byte) (indx : Nat) : Option Bool :=
  bitmap[indx >>> 3]?.map (fun b => b &&& masks.getD (indx &&& 7) 0 != 0)

theorem byteBits_length (b : Byte) : (byteBits b).length = 8 := rfl

theorem bits_append (a b : List Byte) : bits (a ++ b) = bits a ++ bits b := by
  simp [bits]

theorem bits_cons (b : Byte) (bs : List Byte) : bits (b :: bs) = byteBits b ++ bits bs := by
  simp [bits]

@[simp] theorem bits_length (bitmap : List Byte) : (bits bitmap).length = 8 * bitmap.length := by
  induction bitmap with
  | nil => rfl
  | cons b bs ih => rw [bits_cons, List.length_append, byteBits_length, ih, List.length_cons]; omega

theorem bits_replicate_ff (k : Nat) : bits (List.replicate k 0xFF) = List.replicate (8 * k) true := by
  induction k with
  | zero => rfl
  | succ k ih =>
    have hb : byteBits 0xFF = List.replicate 8 true := by decide
    rw [List.replicate_succ, bits_cons, ih, hb, ← List.replicate_add]
    congr 1
    omega

theorem testBit_eq (bitmap : List Byte) (indx : Nat) :
    testBit bitmap indx = (bits bitmap)[indx]? := by
  have hs : indx >>> 3 = indx / 8 := Nat.shiftRight_eq_div_pow indx 3
  have hm : indx &&& 7 = indx % 8 := Nat.and_two_pow_sub_one_eq_mod indx 3
  simp only [testBit, hs, hm]
  clear hs hm
  induction bitmap generalizing indx with
  | nil => simp [bits]
  | cons b bs ih =>
    rw [bits_cons]
    by_cases hi : indx < 8
    · rw [List.getElem?_append_left (by rw [byteBits_length]; exact hi), Nat.div_eq_of_lt hi,
        Nat.mod_eq_of_lt hi]
      have hlt : indx < masks.length := hi
      simp [byteBits, List.getD_eq_getElem?_getD, List.getElem?_eq_getElem hlt]
    · rw [List.getElem?_append_right (by rw [byteBits_length]; omega), byteBits_length, ← ih]
      have hd : indx / 8 = (indx - 8) / 8 + 1 := by omega
      have hr : (indx - 8) % 8 = indx % 8 := by omega
      rw [hd, hr, List.getElem?_cons_succ]

theorem indexes_append (base : Nat) (a b : List Bool) :
    indexes base (a ++ b) = indexes base a ++ indexes (base + a.length) b := by
  induction a generalizing base with
  | nil => simp [indexes]
  | cons x xs ih =>
    have he : base + 1 + xs.length = base + (xs.length + 1) := by omega
    by_cases hx : x <;> simp [indexes, hx, ih, he]

theorem indexes_replicate_false (base n : Nat) : indexes base (List.replicate n false) = [] := by
  induction n generalizing base with
  | zero => rfl
  | succ n ih => simp [List.replicate_succ, indexes, ih]

theorem mem_indexes {base i : Nat} {bs : List Bool} :
    i ∈ indexes base bs ↔ base ≤ i ∧ bs[i - base]? = some true := by
  induction bs generalizing base with
  | nil => simp [indexes]
  | cons b bs ih =>
    have hstep : (base + 1 ≤ i ∧ bs[i - (base + 1)]? = some true) ↔
        (base < i ∧ (b :: bs)[i - base]? = some true) := by
      constructor
      · rintro ⟨hle, h⟩
        refine ⟨hle, ?_⟩
        rwa [show i - base = (i - (base + 1)) + 1 by omega, List.getElem?_cons_succ]
      · rintro ⟨hlt, h⟩
        rw [show i - base = (i - (base + 1)) + 1 by omega, List.getElem?_cons_succ] at h
        exact ⟨hlt, h⟩
    cases b with
    | false =>
      simp only [indexes, Bool.false_eq_true, if_false, ih, hstep]
      constructor
      · rintro ⟨hlt, h⟩
        exact ⟨hlt.le, h⟩
      · rintro ⟨hle, h⟩
        rcases hle.eq_or_lt with rfl | hlt
        · simp at h
        · exact ⟨hlt, h⟩
    | true =>
      simp only [indexes, if_true, List.mem_cons, ih, hstep]
      constructor
      · rintro (rfl | ⟨hlt, h⟩)
        · simp
        · exact ⟨hlt.le, h⟩
      · rintro ⟨hle, h⟩
        rcases hle.eq_or_lt with rfl | hlt
        · exact Or.inl rfl
        · exact Or.inr ⟨hlt, h⟩

theorem mem_setBits {bitmap : List Byte} {i : Nat} :
    i ∈ setBits bitmap ↔ (bits bitmap)[i]? = some true := by
  simp [setBits, mem_indexes]

theorem indexes_bounds {base i : Nat} {bs : List Bool} (h : i ∈ indexes base bs) :
    base ≤ i ∧ i < base + bs.length := by
  obtain ⟨hle, hget⟩ := mem_indexes.mp h
  obtain ⟨hlt, _⟩ := List.getElem?_eq_some_iff.mp hget
  omega

theorem setBits_lt {bitmap : List Byte} {i : Nat} (h : i ∈ setBits bitmap) :
    i < 8 * bitmap.length := by
  simpa using (indexes_bounds h).2

theorem indexes_pairwise (base : Nat) (bs : List Bool) : (indexes base bs).Pairwise (· < ·) := by
  induction bs generalizing base with
  | nil => exact List.Pairwise.nil
  | cons b bs ih =>
    cases b with
    | false => simpa [indexes] using ih (base + 1)
    | true =>
      simp only [indexes, if_true]
      exact List.pairwise_cons.mpr ⟨fun i hi => (indexes_bounds hi).1, ih (base + 1)⟩

theorem indexes_nodup (base : Nat) (bs : List Bool) : (indexes base bs).Nodup :=
  (indexes_pairwise base bs).imp (fun h => Nat.ne_of_lt h)

theorem setBits_nodup (bitmap : List Byte) : (setBits bitmap).Nodup := indexes_nodup 0 _

theorem indexes_shift (base k : Nat) (bs : List Bool) :
    indexes (base + k) bs = (indexes base bs).map (· + k) := by
  induction bs generalizing base with
  | nil => rfl
  | cons b bs ih =>
    have he : base + k + 1 = base + 1 + k := by omega
    cases b <;> simp [indexes, he, ih]

/-- Global indexes of a bitmap cut in two are those of the first part followed
by the shifted ones of the second. -/
theorem setBits_append (a b : List Byte) :
    setBits (a ++ b) = setBits a ++ (setBits b).map (· + 8 * a.length) := by
  rw [setBits, bits_append, indexes_append, bits_length, indexes_shift 0]
  rfl

end PulseImaging
