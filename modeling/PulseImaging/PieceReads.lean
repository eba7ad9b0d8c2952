import PulseImaging.SeekDevice

/-! Loops that read a file piece by piece, each turn at most to the end of what lies together on the
medium. A reader is right if every turn brings the next bytes of the file or marks the state as bad. -/

namespace PulseImaging

/-- The outcome of a turn: some bytes, the end of the file, or an error that makes the whole read
worthless. -/
inductive Piece (σ : Type*) where
  | got (bytes : List Byte) (s : σ)
  | stop (s : σ)
  | fail (s : σ)

variable {σ : Type*}

/-- The state after a turn. -/
def Piece.state : Piece σ → σ
  | .got _ s => s
  | .stop s => s
  | .fail s => s

/-- `none` stands for an error. -/
def pieces (turn : Nat → σ → Piece σ) : Nat → Nat → List Byte → σ → Option (List Byte) × σ
  | 0, _, out, s => (some out, s)
  | fuel + 1, len, out, s =>
    if len = 0 then (some out, s)
    else
      match turn len s with
      | .got bytes s => pieces turn fuel (len - bytes.length) (out ++ bytes) s
      | .stop s => (some out, s)
      | .fail s => (none, s)

variable {turn : Nat → σ → Piece σ} {c : Content} {limit : Nat} {inv : Nat → σ → Prop} {bad : σ → Prop}
  {ends : Nat → Prop}

inductive FileRequest where
  | read (len : Int)
  | seek (offset : Int)
  deriving DecidableEq, Repr

/-- The bytes that a read of `len` bytes at `pos` brings; a negative length asks for the rest. -/
def readCount (limit pos : Nat) (len : Int) : Nat :=
  if len < 0 then limit - pos else min len.toNat (limit - pos)

theorem readCount_le (limit pos : Nat) (len : Int) : readCount limit pos len ≤ limit - pos := by
  rw [readCount]
  split_ifs <;> omega

/-- The plain file: its first `limit` bytes are those of `c`, and a state is a position. -/
def plainOp (c : Content) (limit pos : Nat) : FileRequest → List Byte × Nat
  | .read len => (slice c pos (readCount limit pos len), pos + readCount limit pos len)
  | .seek offset => ([], if (limit : Int) < offset ∨ offset < 0 then pos else offset.toNat)

def runFile (exec : σ → FileRequest → List Byte × σ) : σ → List FileRequest → List (List Byte) × σ
  | s, [] => ([], s)
  | s, op :: ops =>
    let r := exec s op
    let rest := runFile exec r.2 ops
    (r.1 :: rest.1, rest.2)

/-- Operations that simulate the plain file as long as no error comes. -/
structure FileReader (exec : σ → FileRequest → List Byte × σ) (c : Content) (limit : Nat) (inv : Nat → σ → Prop)
    (bad : σ → Prop) : Prop where
  step : ∀ {pos s} (op : FileRequest), inv pos s → pos ≤ limit →
    bad (exec s op).2 ∨
      (exec s op).1 = (plainOp c limit pos op).1 ∧ inv (plainOp c limit pos op).2 (exec s op).2
  stuck : ∀ {s} (op : FileRequest), bad s → bad (exec s op).2

theorem plainOp_le {c : Content} {limit pos : Nat} (h : pos ≤ limit) (op : FileRequest) :
    (plainOp c limit pos op).2 ≤ limit := by
  cases op with
  | read len =>
    have hle := readCount_le limit pos len
    change pos + readCount limit pos len ≤ limit
    omega
  | seek offset =>
    simp only [plainOp]
    split_ifs <;> omega

theorem FileReader.run_stuck {exec : σ → FileRequest → List Byte × σ}
    (h : FileReader exec c limit inv bad) {s : σ} (hs : bad s) (ops : List FileRequest) :
    bad (runFile exec s ops).2 := by
  induction ops generalizing s with
  | nil => exact hs
  | cons op ops ih => exact ih (h.stuck op hs)

/-- A run without an error gives what the plain file gives. -/
theorem FileReader.run {exec : σ → FileRequest → List Byte × σ}
    (h : FileReader exec c limit inv bad) {s : σ} {pos : Nat} (hs : inv pos s)
    (hpos : pos ≤ limit) (ops : List FileRequest) :
    bad (runFile exec s ops).2 ∨
      (runFile exec s ops).1 = (runFile (plainOp c limit) pos ops).1 ∧
        inv (runFile (plainOp c limit) pos ops).2 (runFile exec s ops).2 := by
  induction ops generalizing s pos with
  | nil => exact .inr ⟨rfl, hs⟩
  | cons op ops ih =>
    rcases h.step op hs hpos with hbad | ⟨hout, hinv⟩
    · exact .inl (h.run_stuck hbad ops)
    · refine (ih hinv (plainOp_le hpos op)).imp_right fun ⟨hrest, hinv'⟩ => ⟨?_, hinv'⟩
      rw [runFile, runFile]
      simp only [hout, hrest]

end PulseImaging
