import PulseImaging.Bitmap

/-! A byte-addressed device driven by a list of requests. Relative seeks, reads
and writes move the position by what was really transferred, so an incomplete
call leaves the position behind the one the caller counts on. -/

namespace PulseImaging

abbrev Content := Nat → Byte

/-- Result of one call: complete, `n` bytes only (always fewer than asked for),
or failed without effect. -/
inductive Outcome where
  | full
  | short (n : Nat)
  | fail
  deriving DecidableEq, Repr

inductive Req where
  | seekTo (pos : Nat)
  | tell
  | skip (n : Nat)
  | read (n : Nat)
  | write (data : List Byte)
  deriving DecidableEq, Repr

/-- A call as it was issued, with the position at that moment. -/
structure Call where
  req : Req
  pos : Nat
  outcome : Outcome
  deriving DecidableEq, Repr

structure Device where
  content : Content
  pos : Nat
  log : List Call

/-- Bytes a transfer of `n` bytes moves. -/
def Outcome.moved (o : Outcome) (n : Nat) : Nat :=
  match o with
  | .full => n
  | .short k => min k (n - 1)
  | .fail => 0

def slice (c : Content) (pos n : Nat) : List Byte := (List.range n).map (fun k => c (pos + k))

/-- Contents after `data` has been stored at `pos`. -/
def patch (c : Content) (pos : Nat) (data : List Byte) : Content := fun i =>
  if pos ≤ i ∧ i < pos + data.length then data.getD (i - pos) 0 else c i

/-- The position a completed request leaves, counted from `pos`. -/
def Req.target (pos : Nat) : Req → Nat
  | .seekTo p => p
  | .tell => pos
  | .skip n => pos + n
  | .read n => pos + n
  | .write data => pos + data.length

/-- The position a request leaves under a given outcome. -/
def Req.reached (pos : Nat) (o : Outcome) : Req → Nat
  | .seekTo p => if o = .full then p else pos
  | .tell => pos
  | .skip n => if o = .full then pos + n else pos
  | .read n => pos + o.moved n
  | .write data => pos + o.moved data.length

def Req.store (c : Content) (pos : Nat) (o : Outcome) : Req → Content
  | .write data => patch c pos (data.take (o.moved data.length))
  | _ => c

/-- The outcome of the `n`-th call of a run is `io n`. -/
def Device.next (io : Nat → Outcome) (d : Device) : Outcome := io d.log.length

def Device.exec (io : Nat → Outcome) (d : Device) (r : Req) : Device where
  content := r.store d.content d.pos (d.next io)
  pos := r.reached d.pos (d.next io)
  log := d.log ++ [⟨r, d.pos, d.next io⟩]

def Device.run (io : Nat → Outcome) (d : Device) (rs : List Req) : Device :=
  rs.foldl (Device.exec io) d

/-- What a `read` of `n` bytes issued now stores in the caller's buffer. -/
def Device.got (io : Nat → Outcome) (d : Device) (n : Nat) : List Byte :=
  slice d.content d.pos ((d.next io).moved n)

/-- Every call of the run completes. -/
def allFull : Nat → Outcome := fun _ => .full

@[simp] theorem slice_length (c : Content) (pos n : Nat) : (slice c pos n).length = n := by
  simp [slice]

theorem slice_getElem? {c : Content} {pos n k : Nat} (h : k < n) :
    (slice c pos n)[k]? = some (c (pos + k)) := by
  simp [slice, h]

theorem slice_add (c : Content) (pos m n : Nat) :
    slice c pos (m + n) = slice c pos m ++ slice c (pos + m) n := by
  rw [slice, List.range_add, List.map_append, List.map_map]
  simp only [slice, Function.comp_def, Nat.add_assoc]

theorem slice_part (c : Content) {start n k size : Nat} (h : k + size ≤ n) :
    ((slice c start n).drop k).take size = slice c (start + k) size := by
  apply List.ext_getElem?
  intro j
  rw [List.getElem?_take]
  split_ifs with hj
  · rw [List.getElem?_drop, slice_getElem? (by omega), slice_getElem? hj, Nat.add_assoc]
  · rw [List.getElem?_eq_none_iff.mpr (by rw [slice_length]; omega)]

@[simp] theorem moved_full (n : Nat) : Outcome.full.moved n = n := rfl

theorem moved_le (o : Outcome) (n : Nat) : o.moved n ≤ n := by
  cases o <;> simp only [Outcome.moved] <;> omega

theorem moved_lt {o : Outcome} {n : Nat} (hn : 0 < n) (ho : o ≠ .full) : o.moved n < n := by
  cases o with
  | full => exact absurd rfl ho
  | short k => simp only [Outcome.moved]; omega
  | fail => exact hn

theorem exec_log (io : Nat → Outcome) (d : Device) (r : Req) :
    (d.exec io r).log = d.log ++ [⟨r, d.pos, d.next io⟩] := rfl

@[simp] theorem run_nil (io : Nat → Outcome) (d : Device) : d.run io [] = d := rfl

@[simp] theorem run_cons (io : Nat → Outcome) (d : Device) (r : Req) (rs : List Req) :
    d.run io (r :: rs) = (d.exec io r).run io rs := rfl

theorem run_append (io : Nat → Outcome) (d : Device) (a b : List Req) :
    d.run io (a ++ b) = (d.run io a).run io b := by
  simp [Device.run]

@[simp] theorem run_log_length (io : Nat → Outcome) (d : Device) (rs : List Req) :
    (d.run io rs).log.length = d.log.length + rs.length := by
  induction rs generalizing d with
  | nil => rfl
  | cons r rs ih => rw [run_cons, ih, exec_log]; simp; omega

/-! ### Runs in which every call completes -/

@[simp] theorem exec_allFull_pos (d : Device) (r : Req) :
    (d.exec allFull r).pos = r.target d.pos := by
  cases r <;> simp [Device.exec, Req.reached, Req.target, Device.next, allFull]

@[simp] theorem exec_allFull_write (d : Device) (data : List Byte) :
    (d.exec allFull (.write data)).content = patch d.content d.pos data := by
  simp [Device.exec, Req.store, Device.next, allFull]

@[simp] theorem exec_allFull_skip_content (d : Device) (n : Nat) :
    (d.exec allFull (.skip n)).content = d.content := rfl

@[simp] theorem exec_read_content (io : Nat → Outcome) (d : Device) (n : Nat) :
    (d.exec io (.read n)).content = d.content := rfl

@[simp] theorem exec_skip_content (io : Nat → Outcome) (d : Device) (n : Nat) :
    (d.exec io (.skip n)).content = d.content := rfl

@[simp] theorem got_allFull (d : Device) (n : Nat) : d.got allFull n = slice d.content d.pos n := rfl

theorem patch_nil (c : Content) (pos : Nat) : patch c pos [] = c := by
  funext i
  simp only [patch, List.length_nil, Nat.add_zero]
  rw [if_neg (by omega)]

theorem patch_append (c : Content) (pos : Nat) (a b : List Byte) :
    patch c pos (a ++ b) = patch (patch c pos a) (pos + a.length) b := by
  funext i
  simp only [patch, List.length_append]
  by_cases hlo : pos ≤ i
  · by_cases hmid : i < pos + a.length
    · rw [if_pos (by omega), if_neg (by omega), if_pos (by omega)]
      simp only [List.getD_eq_getElem?_getD]
      rw [List.getElem?_append_left (by omega)]
    · by_cases hhi : i < pos + (a.length + b.length)
      · rw [if_pos ⟨hlo, hhi⟩, if_pos (by omega)]
        simp only [List.getD_eq_getElem?_getD]
        rw [List.getElem?_append_right (by omega), Nat.sub_sub]
      · rw [if_neg (by omega), if_neg (by omega), if_neg (by omega)]
  · rw [if_neg (by omega), if_neg (by omega), if_neg (by omega)]

/-! ### Lag of the position under arbitrary outcomes -/

/-- Requests that move relatively to the current position. -/
def Req.relative : Req → Bool
  | .seekTo _ => false
  | _ => true

/-- Distance a completed relative request moves. -/
def Req.advance : Req → Nat
  | .seekTo _ => 0
  | .tell => 0
  | .skip n => n
  | .read n => n
  | .write data => data.length

def advances (rs : List Req) : Nat := (rs.map Req.advance).sum

@[simp] theorem advances_nil : advances [] = 0 := rfl

@[simp] theorem advances_cons (r : Req) (rs : List Req) :
    advances (r :: rs) = r.advance + advances rs := rfl

@[simp] theorem advances_append (a b : List Req) : advances (a ++ b) = advances a + advances b := by
  simp [advances]

theorem reached_full {r : Req} (hr : r.relative = true) (pos : Nat) :
    r.reached pos .full = pos + r.advance := by
  cases r <;> simp_all [Req.reached, Req.advance, Req.relative]

theorem reached_le {r : Req} (hr : r.relative = true) (pos : Nat) (o : Outcome) :
    r.reached pos o ≤ pos + r.advance := by
  cases r with
  | seekTo p => simp [Req.relative] at hr
  | tell => simp [Req.reached]
  | skip n => simp only [Req.reached, Req.advance]; split <;> omega
  | read n => simpa [Req.reached, Req.advance] using moved_le o n
  | write data => simpa [Req.reached, Req.advance] using moved_le o data.length

theorem reached_lt {r : Req} {o : Outcome} (hr : r.relative = true) (ha : 0 < r.advance)
    (ho : o ≠ .full) (pos : Nat) : r.reached pos o < pos + r.advance := by
  cases r with
  | seekTo p => simp [Req.relative] at hr
  | tell => simp [Req.advance] at ha
  | skip n => simpa [Req.reached, Req.advance, ho] using ha
  | read n => simpa [Req.reached, Req.advance] using moved_lt ha ho
  | write data => simpa [Req.reached, Req.advance] using moved_lt ha ho

end PulseImaging
