import PulseImaging.Bitmap
import Mathlib.Data.Nat.Digits.Defs

/-! Little-endian byte strings as natural numbers and, in two's complement, as integers. -/

namespace PulseImaging

def leValue (s : List Byte) : Nat := Nat.ofDigits 256 (s.map UInt8.toNat)

/-- The two's complement value. -/
def leSigned (s : List Byte) : Int := (leValue s : Int).bmod (256 ^ s.length)

@[simp] theorem leValue_nil : leValue [] = 0 := rfl

theorem leValue_cons (b : Byte) (s : List Byte) : leValue (b :: s) = b.toNat + 256 * leValue s := by
  rw [leValue, List.map_cons, Nat.ofDigits_cons]
  rfl

theorem leValue_append (s t : List Byte) :
    leValue (s ++ t) = leValue s + 256 ^ s.length * leValue t := by
  rw [leValue, List.map_append, Nat.ofDigits_append, List.length_map]
  rfl

theorem leValue_lt (s : List Byte) : leValue s < 256 ^ s.length := by
  have h := Nat.ofDigits_lt_base_pow_length (b := 256) (l := s.map UInt8.toNat) (by norm_num) (by
    intro x hx
    obtain ⟨b, -, rfl⟩ := List.mem_map.mp hx
    exact b.toNat_lt)
  rwa [List.length_map] at h

/-- The top byte decides in which half of the range the value lies. -/
theorem leValue_top (s : List Byte) (b : Byte) :
    (0x80 ≤ b ↔ 256 ^ (s.length + 1) ≤ 2 * leValue (s ++ [b])) := by
  have hlt := leValue_lt s
  have hb : 0x80 ≤ b ↔ 128 ≤ b.toNat := by
    rw [UInt8.le_iff_toNat_le]
    rfl
  have hvalue : leValue (s ++ [b]) = leValue s + 256 ^ s.length * b.toNat := by
    simp only [leValue_append, leValue_cons, leValue_nil, Nat.mul_zero, Nat.add_zero]
  rw [hb, hvalue, pow_succ]
  constructor
  · intro h
    have := Nat.mul_le_mul_left (256 ^ s.length) h
    omega
  · intro h
    by_contra hlow
    have := Nat.mul_le_mul_left (256 ^ s.length) (show b.toNat ≤ 127 by omega)
    omega

theorem leSigned_concat (s : List Byte) (b : Byte) :
    leSigned (s ++ [b]) = leValue (s ++ [b]) - if 0x80 ≤ b then 256 ^ (s.length + 1) else 0 := by
  have hlt := leValue_lt (s ++ [b])
  have htop := leValue_top s b
  rw [List.length_append, List.length_singleton] at hlt
  have hmod : (leValue (s ++ [b]) : Int) % (256 ^ (s.length + 1) : Nat) = leValue (s ++ [b]) :=
    Int.emod_eq_of_lt (by omega) (by omega)
  have heven : 256 ^ (s.length + 1) = 2 * (128 * 256 ^ s.length) := by
    rw [pow_succ]
    ring
  rw [leSigned, List.length_append, List.length_singleton, Int.bmod_eq_emod, hmod]
  congr 1
  by_cases h : 0x80 ≤ b
  · have := htop.mp h
    rw [if_pos h, if_pos (by omega), Nat.cast_pow]
    rfl
  · have := mt htop.mpr h
    rw [if_neg h, if_neg (by omega)]
    rfl

/-- The `n` low bytes of `v`. -/
def leBytes : Nat → Nat → List Byte
  | 0, _ => []
  | n + 1, v => UInt8.ofNat v :: leBytes n (v / 256)

@[simp] theorem leBytes_length (n v : Nat) : (leBytes n v).length = n := by
  induction n generalizing v with
  | zero => rfl
  | succ n ih => rw [leBytes, List.length_cons, ih]

theorem leValue_leBytes (n v : Nat) : leValue (leBytes n v) = v % 256 ^ n := by
  induction n generalizing v with
  | zero => rw [pow_zero, Nat.mod_one]; rfl
  | succ n ih => rw [leBytes, leValue_cons, ih, pow_succ', Nat.mod_mul]; rfl

end PulseImaging
