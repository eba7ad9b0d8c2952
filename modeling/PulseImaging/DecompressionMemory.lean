import PulseImaging.Receive
import PulseImaging.ZonePool

/-! The calls of zlib in `new_get`: `inflateInit` behind the label `restart`, and `inflateEnd` at
each of the eight places where the loops are left. -/

namespace PulseImaging

variable {σ : Type}

/-! ### The calls of one turn -/

/-- The calls of what follows, if the loop goes on. -/
def Flow.calls (f : Flow σ) (k : GetState σ → List ZCall) : List ZCall :=
  match f with
  | .go s => k s
  | .again _ => []
  | .ret _ _ => []

def GetEnv.inflateCalls (E : GetEnv) (s : GetState E.decoder.State) : List ZCall :=
  let r := E.call s
  let s := s.advance r
  let ret := if r.ret = .bufError ∧ s.outPos = OUTBUFF then .ok else r.ret
  if ret = .streamEnd then [.inflate]
  else if ret ≠ .ok then [.inflate, .inflateEnd]
  else [.inflate]

def GetEnv.bodyCalls (E : GetEnv) (s : GetState E.decoder.State) : List ZCall :=
  if s.dbufFull then []
  else
    let s := s.load
    if s.outPos < OUTBUFF ∧ s.availIn ≠ [] then E.inflateCalls s
    else []

def GetState.clockCalls (tick : Bool) (s : GetState σ) : List ZCall :=
  if tick then
    if s.timeout + 1 > 10 then [.inflateEnd] else []
  else []

def GetState.receiveCalls (s : GetState σ) (d : Datagram) : List ZCall :=
  if d.op = 6 then
    if s.lastblk ≠ -1 then [.inflateEnd] else []
  else if d.op = 3 then
    if (d.block : Int) = s.lastblk then [.inflateEnd]
    else if (d.block : Int) ≠ s.lastblk + 1 then [.inflateEnd]
    else []
  else if d.op % 256 = 5 then [.inflateEnd]
  else [.inflateEnd]

def GetState.outerCalls (s : GetState σ) : List ZCall := if s.ending = .over then [.inflateEnd] else []

def GetState.pollCalls (s : GetState σ) (d : Option Datagram) : List ZCall :=
  if s.dbufFull then []
  else
    match s.queue.getEmpty with
    | none => []
    | some i =>
      if s.tftpend then s.outerCalls
      else
        match d with
        | none => []
        | some d => s.receiveCalls d ++ (s.receive i d).calls GetState.outerCalls

/-- The calls of a turn of the inner loop, with those behind the label `restart`. -/
def GetEnv.stepCalls (E : GetEnv) (s : GetState E.decoder.State) (e : Event) : List ZCall :=
  match E.body e.past s with
  | none => []
  | some f =>
    E.bodyCalls s ++ f.calls (GetState.clockCalls e.tick) ++
      (f.andThen (GetState.clock e.tick)).calls (fun s => s.pollCalls e.poll) ++
      match (f.andThen (GetState.clock e.tick)).andThen (fun s => s.poll e.poll) with
      | .go _ => []
      | .again _ => [.inflateInit]
      | .ret _ _ => []

def GetEnv.runCalls (E : GetEnv) : GetState E.decoder.State → List Event → List ZCall
  | _, [] => []
  | s, e :: es =>
    E.stepCalls s e ++
      match E.step s e with
      | some (.running s) => E.runCalls s es
      | _ => []

/-! ### Opened and closed in turn -/

theorem opens_append {b c : Bool} {xs : List ZCall} (h : opens b xs = some c) (ys : List ZCall) :
    opens b (xs ++ ys) = opens c ys := by
  induction xs generalizing b with
  | nil =>
    rw [← Option.some.inj h]
    rfl
  | cons x xs ih =>
    cases b <;> cases x <;> first | exact ih h | cases h

/-- The stream is closed exactly when the loop is left. -/
def Flow.isGo (f : Flow σ) : Bool :=
  match f with
  | .go _ => true
  | .again _ => false
  | .ret _ _ => false

theorem opens_andThen {f : Flow σ} {k : GetState σ → Flow σ} {calls : List ZCall}
    {kcalls : GetState σ → List ZCall} (hf : opens true calls = some f.isGo)
    (hk : ∀ s, opens true (kcalls s) = some (k s).isGo) :
    opens true (calls ++ f.calls kcalls) = some (f.andThen k).isGo := by
  rw [opens_append hf]
  cases f with
  | go s => exact hk s
  | again s => rfl
  | ret code s => rfl

theorem opens_inflate (E : GetEnv) (s : GetState E.decoder.State) :
    opens true (E.inflateCalls s) = some (E.inflateTurn s).isGo := by
  simp only [GetEnv.inflateCalls, GetEnv.inflateTurn]
  split
  · rfl
  · split
    · rfl
    · split <;> rfl

theorem opens_body {E : GetEnv} {past : Byte} {s : GetState E.decoder.State}
    {f : Flow E.decoder.State} (h : E.body past s = some f) :
    opens true (E.bodyCalls s) = some f.isGo := by
  rcases body_cases h with ⟨hfull, t, -, rfl⟩ | ⟨hfull, hout, hin, rfl⟩ | ⟨hfull, hstop, t, -, rfl⟩
  · rw [GetEnv.bodyCalls, if_pos hfull]
    rfl
  · rw [GetEnv.bodyCalls, if_neg (Bool.not_eq_true _ ▸ hfull), if_pos ⟨hout, hin⟩]
    exact opens_inflate E s.load
  · rw [GetEnv.bodyCalls, if_neg (Bool.not_eq_true _ ▸ hfull), if_neg hstop]
    rfl

theorem opens_clock (tick : Bool) (s : GetState σ) :
    opens true (s.clockCalls tick) = some (s.clock tick).isGo := by
  simp only [GetState.clockCalls, GetState.clock]
  split
  · split <;> rfl
  · rfl

theorem opens_outer (s : GetState σ) : opens true s.outerCalls = some s.outer.isGo := by
  simp only [GetState.outerCalls, GetState.outer]
  split <;> rfl

theorem opens_receive (s : GetState σ) (i : Fin NB_BUF) (d : Datagram) :
    opens true (s.receiveCalls d) = some (s.receive i d).isGo := by
  simp only [GetState.receiveCalls, GetState.receive]
  split
  · split <;> rfl
  · split
    · split
      · rfl
      · split <;> rfl
    · split <;> rfl

theorem opens_poll (s : GetState σ) (d : Option Datagram) :
    opens true (s.pollCalls d) = some (s.poll d).isGo := by
  simp only [GetState.pollCalls, GetState.poll]
  split
  · rfl
  · cases s.queue.getEmpty with
    | none => rfl
    | some i =>
      dsimp only
      split
      · exact opens_outer s
      · cases d with
        | none => rfl
        | some d => exact opens_andThen (opens_receive s i d) opens_outer

/-- After a turn the stream is open if the loop goes on, from `restart` or not. -/
theorem opens_step {E : GetEnv} {s : GetState E.decoder.State} {e : Event} :
    (E.step s e = none ∧ opens true (E.stepCalls s e) = some true) ∨
    (∃ t, E.step s e = some (.running t) ∧ opens true (E.stepCalls s e) = some true) ∨
    (∃ code t, E.step s e = some (.returned code t) ∧ opens true (E.stepCalls s e) = some false) := by
  rw [GetEnv.step, GetEnv.turn, GetEnv.stepCalls]
  cases hbody : E.body e.past s with
  | none => exact Or.inl ⟨rfl, rfl⟩
  | some f =>
    have hopens := opens_andThen (opens_andThen (opens_body hbody) (opens_clock e.tick))
      (fun s => opens_poll s e.poll)
    simp only [Option.map_some]
    cases hf : (f.andThen (GetState.clock e.tick)).andThen (fun s => s.poll e.poll) with
    | go t =>
      rw [hf] at hopens
      exact Or.inr (Or.inl ⟨t, rfl, opens_append hopens []⟩)
    | again t =>
      rw [hf] at hopens
      exact Or.inr (Or.inl ⟨E.restart t, rfl, opens_append hopens [.inflateInit]⟩)
    | ret code t =>
      rw [hf] at hopens
      exact Or.inr (Or.inr ⟨code, t, rfl, opens_append hopens []⟩)

/-- During a run the stream is open, and it is closed when `new_get` returns. -/
theorem opens_run (E : GetEnv) (s : GetState E.decoder.State) (es : List Event) :
    opens true (E.runCalls s es) = some true ∧ (∀ code t, E.run s es ≠ some (.returned code t)) ∨
      opens true (E.runCalls s es) = some false := by
  induction es generalizing s with
  | nil =>
    refine Or.inl ⟨rfl, fun code t h => ?_⟩
    rw [GetEnv.run] at h
    cases h
  | cons e es ih =>
    rw [GetEnv.runCalls, GetEnv.run]
    rcases @opens_step E s e with ⟨hstep, hopens⟩ | ⟨t, hstep, hopens⟩ | ⟨code, t, hstep, hopens⟩
    · rw [hstep, opens_append hopens]
      exact Or.inl ⟨rfl, fun code t h => by cases h⟩
    · rw [hstep, opens_append hopens, Option.bind_some]
      exact ih t
    · rw [hstep, opens_append hopens]
      exact Or.inr rfl

/-! ### Any number of calls -/

/-- A call of `new_get`, with what its variables hold at first and what happens during it. -/
structure GetCall where
  env : GetEnv
  disk : Content
  info : ImageInfo
  alloc : List Byte
  buffer : List Byte
  events : List Event

def GetCall.result (c : GetCall) : Option (Progress c.env.decoder.State) :=
  c.env.run (c.env.start c.disk c.info c.alloc c.buffer) c.events

def GetCall.Returned (c : GetCall) : Prop := ∃ code s, c.result = some (.returned code s)

def GetCall.calls (c : GetCall) : List ZCall :=
  .inflateInit :: c.env.runCalls (c.env.start c.disk c.info c.alloc c.buffer) c.events

theorem GetCall.opens_calls (c : GetCall) :
    (opens false c.calls).isSome = true ∧ (c.Returned → opens false c.calls = some false) := by
  rcases opens_run c.env (c.env.start c.disk c.info c.alloc c.buffer) c.events with ⟨h, hno⟩ | h
  · exact ⟨Option.isSome_iff_exists.mpr ⟨true, h⟩, fun ⟨code, s, hret⟩ => absurd hret (hno code s)⟩
  · exact ⟨Option.isSome_iff_exists.mpr ⟨false, h⟩, fun _ => h⟩

/-- Each call has returned before the next one begins. -/
theorem opens_calls {cs : List GetCall} (h : ∀ c ∈ cs.dropLast, c.Returned) :
    (opens false (cs.flatMap GetCall.calls)).isSome = true := by
  induction cs with
  | nil => rfl
  | cons c cs ih =>
    rw [List.flatMap_cons]
    cases cs with
    | nil =>
      rw [List.flatMap_nil, List.append_nil]
      exact c.opens_calls.1
    | cons c' cs =>
      rw [opens_append (c.opens_calls.2 (h c List.mem_cons_self))]
      exact ih (fun d hd => h d (List.mem_cons_of_mem _ hd))

/-- The memory of zlib is balanced over any number of calls of `new_get`. -/
theorem decompression_memory_balanced {cs : List GetCall} (hcs : ∀ c ∈ cs.dropLast, c.Returned)
    {calls : List (ZCall × List MemOp)} (hcalls : calls.map Prod.fst = cs.flatMap GetCall.calls)
    (hfits : ZlibFits none calls) : Balanced ZoneMemory.start calls := by
  refine @balanced_of_opens calls ZoneMemory.start none ZoneMemory.start_valid rfl ?_ hfits
  rw [hcalls]
  exact opens_calls hcs

theorem small_lt_word {n : Nat} (h : n ≤ 7) : n < 2 ^ 16 := by omega

theorem three_lt_word : 3 < 2 ^ 16 := small_lt_word (Nat.le_add_right 3 4)

theorem seven_lt_word : 7 < 2 ^ 16 := small_lt_word (Nat.le_refl 7)

/-- A block that is not the next one, and the answer that there is no such file. -/
def wrongBlock : Datagram := ⟨3, 7, [], three_lt_word, seven_lt_word, Nat.zero_le _⟩

def notFound : Datagram :=
  ⟨5, 1, [], small_lt_word (Nat.le_add_right 5 2), small_lt_word (Nat.le_add_right 1 6), Nat.zero_le _⟩

def absentFile : GetCall where
  env := ⟨storedDecoder.inflater, fun _ => storedDecoder.init, 63, 100⟩
  disk := fun _ => 0
  info := ⟨false, false, 0, 0, 0⟩
  alloc := []
  buffer := []
  events := [⟨false, some wrongBlock, 0⟩, ⟨false, some notFound, 0⟩]

/-- Three zones for each stream: a restart, a return, and the next call. -/
def absentCalls : List (ZCall × List MemOp) :=
  [(.inflateInit, [.alloc, .alloc, .alloc]), (.inflateEnd, [.free 2, .free 1, .free 0]),
    (.inflateInit, [.alloc, .alloc, .alloc]), (.inflateEnd, [.free 2, .free 1, .free 0]),
    (.inflateInit, [.alloc, .alloc, .alloc])]

theorem decompression_memory_missing : Balanced ZoneMemory.start absentCalls :=
  @decompression_memory_balanced [absentFile, { absentFile with events := [] }]
    (fun c hc => by
      rw [List.mem_singleton.mp hc]
      exact ⟨1, _, rfl⟩)
    absentCalls rfl ⟨3, rfl, rfl, 3, rfl, rfl, 3, rfl, trivial⟩

end PulseImaging
