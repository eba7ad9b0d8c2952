import PulseImaging.PartitionList

/-! Formats of `sscanf` and `printf` as lists of directives, and what reading back a
printed line gives. -/

namespace PulseImaging

inductive Directive where
  /-- white space in the format: any amount of it in the input -/
  | ws
  | lit (b : Byte)
  /-- `%u` or `%d`; the value is kept unless the star is there -/
  | num (keep : Bool)
  /-- `%s` -/
  | word (keep : Bool)
  deriving DecidableEq, Repr

inductive ScanValue where
  | num (z : Int)
  | word (w : List Byte)
  deriving DecidableEq, Repr

/-- A format as it stands in the source. -/
def scanFormat : List Byte → List Directive
  | 37 :: 117 :: s => .num true :: scanFormat s
  | 37 :: 115 :: s => .word true :: scanFormat s
  | 37 :: 42 :: 117 :: s => .num false :: scanFormat s
  | 37 :: 42 :: 115 :: s => .word false :: scanFormat s
  | c :: s => (if isSpace c then .ws else .lit c) :: scanFormat s
  | [] => []

/-- The `%s` conversion and what follows it. -/
def scanToken (s : List Byte) : Option (List Byte × List Byte) :=
  let t := s.dropWhile isSpace
  if t.takeWhile (fun b => !isSpace b) = [] then none
  else some (t.takeWhile (fun b => !isSpace b), t.dropWhile (fun b => !isSpace b))

/-- The values that `sscanf` stores before the first directive that fails. -/
def sscanf : List Directive → List Byte → List ScanValue
  | [], _ => []
  | .ws :: ds, s => sscanf ds (s.dropWhile isSpace)
  | .lit b :: ds, s => if s.head? = some b then sscanf ds s.tail else []
  | .num keep :: ds, s =>
    match scanInt s with
    | none => []
    | some (z, r) => (if keep then [.num z] else []) ++ sscanf ds r
  | .word keep :: ds, s =>
    match scanToken s with
    | none => []
    | some (w, r) => (if keep then [.word w] else []) ++ sscanf ds r

/-- `%d` -/
def printInt (z : Int) : List Byte := if z < 0 then ascii "-" ++ decimal z.natAbs else decimal z.natAbs

theorem printInt_natCast (n : Nat) : printInt n = decimal n := by
  simp [printInt]

/-! ### Reading back -/

/-- Texts that are one word for `%s`. -/
structure IsWord (w : List Byte) : Prop where
  ne_nil : w ≠ []
  noSpace : ∀ b ∈ w, isSpace b = false

theorem noSpace_of_all {w : List Byte} (h : w.all (fun b => !isSpace b) = true) :
    ∀ b ∈ w, isSpace b = false := by
  intro b hb
  simpa using List.all_eq_true.mp h b hb

/-- A text after which a word ends. -/
def EndsWord (rest : List Byte) : Prop := ∀ b ∈ rest.head?, isSpace b = true

/-- A text after which a number ends. -/
def EndsNumber (rest : List Byte) : Prop := ∀ b ∈ rest.head?, isDigit b = false

theorem isSpace_of_isDigit {b : Byte} (h : isDigit b = true) : isSpace b = false := by
  rw [isDigit_iff] at h
  by_contra hs
  simp [isSpace, UInt8.le_iff_toNat_le, ← UInt8.toNat_inj] at hs
  omega

theorem sscanf_lits (t : List Byte) (ds : List Directive) (s : List Byte) :
    sscanf (t.map Directive.lit ++ ds) (t ++ s) = sscanf ds s := by
  induction t with
  | nil => rfl
  | cons b t ih => simp [sscanf, ih]

theorem scanInt_printInt (z : Int) {rest : List Byte} (h : EndsNumber rest) :
    scanInt (printInt z ++ rest) = some (z, rest) := by
  by_cases hz : z < 0
  · have hs := scanNat_decimal z.natAbs h
    simp only [printInt, hz, if_true, List.append_assoc, scanInt]
    rw [show ascii "-" ++ (decimal z.natAbs ++ rest) = 45 :: (decimal z.natAbs ++ rest) from rfl]
    simp [show isSpace 45 = false from rfl, hs, abs_of_neg hz]
  · rw [printInt, if_neg hz, scanInt_decimal z.natAbs h]
    congr 2
    omega

theorem sscanf_num (keep : Bool) (ds : List Directive) (z : Int) {rest : List Byte}
    (h : EndsNumber rest) :
    sscanf (.num keep :: ds) (printInt z ++ rest) = (if keep then [.num z]
      else []) ++ sscanf ds rest := by
  rw [sscanf, scanInt_printInt z h]

theorem takeWhile_word {w rest : List Byte} (hw : ∀ b ∈ w, isSpace b = false) (hr : EndsWord rest) :
    (w ++ rest).takeWhile (fun b => !isSpace b) = w ∧
      (w ++ rest).dropWhile (fun b => !isSpace b) = rest := by
  have hall : ∀ b ∈ w, (!isSpace b) = true := fun b hb => by simp [hw b hb]
  have hrest : rest.takeWhile (fun b => !isSpace b) = [] ∧
      rest.dropWhile (fun b => !isSpace b) = rest := by
    cases rest with
    | nil => exact ⟨rfl, rfl⟩
    | cons b rest => simp [hr b (by simp)]
  rw [List.takeWhile_append_of_pos hall, List.dropWhile_append_of_pos hall, hrest.1, hrest.2]
  simp

theorem scanToken_word {w rest : List Byte} (hw : IsWord w) (hr : EndsWord rest) :
    scanToken (w ++ rest) = some (w, rest) := by
  obtain ⟨b, t, rfl⟩ := List.exists_cons_of_ne_nil hw.ne_nil
  have hb := hw.noSpace b (by simp)
  obtain ⟨h1, h2⟩ := takeWhile_word hw.noSpace hr
  have hdrop : ((b :: t) ++ rest).dropWhile isSpace = (b :: t) ++ rest := by simp [hb]
  simp only [scanToken, hdrop, h1, h2]
  simp

theorem sscanf_word (keep : Bool) (ds : List Directive) {w rest : List Byte} (hw : IsWord w)
    (hr : EndsWord rest) :
    sscanf (.word keep :: ds) (w ++ rest) = (if keep then [.word w] else []) ++ sscanf ds rest := by
  rw [sscanf, scanToken_word hw hr]

/-- White space directives skip nothing before a text that does not start with any. -/
theorem sscanf_ws (ds : List Directive) {s : List Byte} (h : ∀ b ∈ s.head?, isSpace b = false) :
    sscanf (.ws :: ds) s = sscanf ds s := by
  rw [sscanf]
  cases s with
  | nil => rfl
  | cons b s => simp [h b (by simp)]

theorem sscanf_blank (ds : List Directive) {s : List Byte} (h : ∀ b ∈ s.head?, isSpace b = false) :
    sscanf (.ws :: ds) (32 :: s) = sscanf ds s := by
  have h32 : sscanf (.ws :: ds) (32 :: s) = sscanf (.ws :: ds) s := rfl
  rw [h32, sscanf_ws ds h]

end PulseImaging
