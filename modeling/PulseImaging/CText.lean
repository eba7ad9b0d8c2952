import PulseImaging.Bitmap
import Mathlib.Data.Nat.Digits.Defs
import Mathlib.Data.List.TakeWhile

/-! C strings as byte lists: substring search, decimal conversion in both
directions and the white space rules of the scanning functions. -/

namespace PulseImaging

def ascii (s : String) : List Byte := s.toList.map (fun c => UInt8.ofNat c.toNat)

/-- The string that starts at the beginning of a buffer. -/
def cstr (buf : List Byte) : List Byte := buf.takeWhile (· != 0)

/-- The rest of the text from the first occurrence of `key` on. -/
def strstr (key : List Byte) : List Byte → Option (List Byte)
  | [] => if key = [] then some [] else none
  | c :: s => if key.isPrefixOf (c :: s) then some (c :: s) else strstr key s

def isDigit (b : Byte) : Bool := 48 ≤ b && b ≤ 57

def isSpace (b : Byte) : Bool := b == 32 || (9 ≤ b && b ≤ 13)

def digitByte (d : Nat) : Byte := UInt8.ofNat (48 + d)

def decimal (n : Nat) : List Byte :=
  if n = 0 then [digitByte 0] else ((Nat.digits 10 n).reverse).map digitByte

def digitsValue (ds : List Byte) : Nat := ds.foldl (fun a d => 10 * a + (d.toNat - 48)) 0

/-- A non-empty digit string and what follows it. -/
def scanNat (s : List Byte) : Option (Nat × List Byte) :=
  if s.takeWhile isDigit = [] then none
  else some (digitsValue (s.takeWhile isDigit), s.dropWhile isDigit)

/-- The `%d` conversion: white space, an optional sign, digits. -/
def scanInt (s : List Byte) : Option (Int × List Byte) :=
  match s.dropWhile isSpace with
  | 45 :: t => (scanNat t).map (fun p => (-(p.1 : Int), p.2))
  | 43 :: t => (scanNat t).map (fun p => ((p.1 : Int), p.2))
  | t => (scanNat t).map (fun p => ((p.1 : Int), p.2))

theorem cstr_append_zero {t : List Byte} (ht : 0 ∉ t) (rest : List Byte) :
    cstr (t ++ 0 :: rest) = t := by
  induction t with
  | nil => rfl
  | cons c t ih =>
    have hc : c ≠ 0 := fun h => ht (by simp [h])
    have h := ih (fun h => ht (List.mem_cons_of_mem _ h))
    simp only [cstr] at h ⊢
    simp [hc, h]

theorem not_mem_cstr (s : List Byte) : 0 ∉ cstr s := by
  intro h
  simpa using List.mem_takeWhile_imp h

theorem strstr_eq_none_iff {key s : List Byte} (hk : key ≠ []) :
    strstr key s = none ↔ ¬ key <:+: s := by
  induction s with
  | nil => simp [strstr, hk]
  | cons c s ih =>
    by_cases hp : key <+: c :: s
    · simp [strstr, hp, hp.isInfix]
    · simp [strstr, hp, ih, List.infix_cons_iff]

/-- A key whose last letter does not occur earlier in it cannot overlap itself,
so it is found where it was written if it does not occur before. -/
theorem strstr_append {k pre rest : List Byte} {c : Byte} (hc : c ∉ k)
    (hpre : ¬ (k ++ [c]) <:+: pre) :
    strstr (k ++ [c]) (pre ++ ((k ++ [c]) ++ rest)) = some ((k ++ [c]) ++ rest) := by
  induction pre with
  | nil =>
    cases hs : (k ++ [c]) ++ rest with
    | nil => simp at hs
    | cons x xs =>
      have hp : (k ++ [c]) <+: x :: xs := ⟨rest, hs⟩
      simp [strstr, hp]
  | cons a pre ih =>
    have hnot : ¬ (k ++ [c]) <+: (a :: pre) ++ ((k ++ [c]) ++ rest) := by
      intro hp
      by_cases hlen : (k ++ [c]).length ≤ (a :: pre).length
      · exact hpre (List.prefix_of_prefix_length_le hp (List.prefix_append _ _) hlen).isInfix
      · have hget := List.prefix_iff_getElem?.mp hp k.length (by simp)
        simp only [List.length_append, List.length_cons, List.length_nil] at hlen
        have hin : k.length - (a :: pre).length < k.length := by simp only [List.length_cons]; omega
        rw [List.getElem?_append_right (by simp only [List.length_cons]; omega), List.append_assoc,
          List.getElem?_append_left hin] at hget
        apply hc
        have hlast : (k ++ [c])[k.length] = c := by simp
        rw [hlast] at hget
        exact List.mem_of_getElem? hget
    have hi := ih (fun h => hpre (h.trans (List.suffix_cons a pre).isInfix))
    rw [List.cons_append] at hnot ⊢
    simp only [strstr, List.isPrefixOf_iff_prefix, hnot, if_false, hi]

/-! ### Decimal numbers -/

theorem digitByte_toNat {d : Nat} (h : d < 10) : (digitByte d).toNat = 48 + d := by
  simp only [digitByte, UInt8.toNat_ofNat']
  omega

theorem isDigit_iff (b : Byte) : isDigit b = true ↔ 48 ≤ b.toNat ∧ b.toNat ≤ 57 := by
  simp [isDigit, UInt8.le_iff_toNat_le]

theorem isDigit_digitByte {d : Nat} (h : d < 10) : isDigit (digitByte d) = true := by
  rw [isDigit_iff, digitByte_toNat h]
  omega

theorem decimal_lt_ten {n : Nat} (h : n < 10) : decimal n = [digitByte n] := by
  by_cases hn : n = 0
  · simp [decimal, hn]
  · simp [decimal, hn, Nat.digits_of_lt 10 n hn h]

theorem decimal_ge_ten {n : Nat} (h : 10 ≤ n) :
    decimal n = decimal (n / 10) ++ [digitByte (n % 10)] := by
  have hn : n ≠ 0 := by omega
  have hq : n / 10 ≠ 0 := by omega
  simp [decimal, hn, hq, Nat.digits_def' (by norm_num : 1 < 10) (by omega : 0 < n)]

theorem decimal_isDigit (n : Nat) : ∀ b ∈ decimal n, isDigit b = true := by
  induction n using Nat.strongRecOn with
  | ind n ih =>
    by_cases h : n < 10
    · simp [decimal_lt_ten h, isDigit_digitByte h]
    · rw [decimal_ge_ten (by omega)]
      intro b hb
      rcases List.mem_append.mp hb with hb | hb
      · exact ih (n / 10) (by omega) b hb
      · rw [List.mem_singleton.mp hb]
        exact isDigit_digitByte (by omega)

theorem decimal_ne_nil (n : Nat) : decimal n ≠ [] := by
  by_cases h : n < 10
  · simp [decimal_lt_ten h]
  · simp [decimal_ge_ten (show 10 ≤ n by omega)]

theorem digitsValue_append_singleton (ds : List Byte) (d : Byte) :
    digitsValue (ds ++ [d]) = 10 * digitsValue ds + (d.toNat - 48) := by
  simp [digitsValue]

theorem digitsValue_decimal (n : Nat) : digitsValue (decimal n) = n := by
  induction n using Nat.strongRecOn with
  | ind n ih =>
    by_cases h : n < 10
    · simp [decimal_lt_ten h, digitsValue, digitByte_toNat h]
    · rw [decimal_ge_ten (by omega), digitsValue_append_singleton, ih (n / 10) (by omega),
        digitByte_toNat (by omega)]
      omega

theorem decimal_injective : Function.Injective decimal := fun a b h => by
  have hv := congrArg digitsValue h
  rwa [digitsValue_decimal, digitsValue_decimal] at hv

theorem takeWhile_isDigit_decimal {rest : List Byte} (n : Nat)
    (hrest : ∀ b ∈ rest.head?, isDigit b = false) :
    (decimal n ++ rest).takeWhile isDigit = decimal n ∧
      (decimal n ++ rest).dropWhile isDigit = rest := by
  have hall := decimal_isDigit n
  have hr : rest.takeWhile isDigit = [] ∧ rest.dropWhile isDigit = rest := by
    cases rest with
    | nil => exact ⟨rfl, rfl⟩
    | cons b rest =>
      have hb := hrest b (by simp)
      simp [hb]
  rw [List.takeWhile_append_of_pos hall, List.dropWhile_append_of_pos hall, hr.1, hr.2]
  simp

theorem scanNat_decimal {rest : List Byte} (n : Nat)
    (hrest : ∀ b ∈ rest.head?, isDigit b = false) :
    scanNat (decimal n ++ rest) = some (n, rest) := by
  obtain ⟨ht, hd⟩ := takeWhile_isDigit_decimal n hrest
  simp [scanNat, ht, hd, decimal_ne_nil, digitsValue_decimal]

theorem head?_forall {P : Byte → Prop} {c : Byte} {t : List Byte} (h : P c) :
    ∀ b ∈ (c :: t).head?, P b := by
  intro b hb
  obtain rfl := Option.some.inj hb
  exact h

theorem scanInt_decimal {rest : List Byte} (n : Nat)
    (hrest : ∀ b ∈ rest.head?, isDigit b = false) :
    scanInt (decimal n ++ rest) = some ((n : Int), rest) := by
  have hs := scanNat_decimal n hrest
  obtain ⟨d, ds, hds⟩ := List.exists_cons_of_ne_nil (decimal_ne_nil n)
  have hd : isDigit d = true := decimal_isDigit n d (by simp [hds])
  have hdn := (isDigit_iff d).mp hd
  have hsp : isSpace d = false := by
    by_contra h
    simp [isSpace, UInt8.le_iff_toNat_le, ← UInt8.toNat_inj] at h
    omega
  have h45 : d ≠ 45 := by
    rintro rfl
    simp at hdn
  have h43 : d ≠ 43 := by
    rintro rfl
    simp at hdn
  rw [hds, List.cons_append] at hs ⊢
  simp only [scanInt, List.dropWhile_cons, hsp, Bool.false_eq_true, if_false]
  split
  · simp_all
  · simp_all
  · simp [hs]

end PulseImaging
