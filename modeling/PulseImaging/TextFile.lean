import PulseImaging.CText

/-! Text files read line by line with `fgets`. The end-of-file flag is raised
only by a read that runs into the end, as `feof` reports it. -/

namespace PulseImaging

structure TextFile where
  rest : List Byte
  eof : Bool
  deriving DecidableEq, Repr

/-- At most `n` bytes, up to and including the first newline. -/
def readLine : Nat → List Byte → List Byte × List Byte
  | 0, s => ([], s)
  | _ + 1, [] => ([], [])
  | n + 1, c :: s => if c = 10 then ([c], s) else (c :: (readLine n s).1, (readLine n s).2)

def TextFile.fgets (f : TextFile) (size : Nat) : Option (List Byte) × TextFile :=
  if f.rest = [] then (none, { f with eof := true })
  else
    let p := readLine (size - 1) f.rest
    (some p.1, ⟨p.2, f.eof || (decide (p.1.length < size - 1) && p.1.getLast? != some 10)⟩)

theorem readLine_append (n : Nat) (s : List Byte) : (readLine n s).1 ++ (readLine n s).2 = s := by
  induction s generalizing n with
  | nil => cases n <;> rfl
  | cons c s ih =>
    cases n with
    | zero => rfl
    | succ n =>
      by_cases hc : c = 10
      · simp [readLine, hc]
      · simp [readLine, hc, ih n]

theorem readLine_length_le (n : Nat) (s : List Byte) : (readLine n s).1.length ≤ n := by
  induction s generalizing n with
  | nil => cases n <;> simp [readLine]
  | cons c s ih =>
    cases n with
    | zero => simp [readLine]
    | succ n =>
      by_cases hc : c = 10
      · simp [readLine, hc]
      · simpa [readLine, hc] using ih n

end PulseImaging
