import PulseImaging.DeflateDriver
import PulseImaging.ImageStream

/-! The output file of `compress_data` and `compress_end` is what `deflate` gave. -/

namespace PulseImaging

variable {Z : Deflater} {stage : Z.State → DeflateStage → Prop} {last : Bool}

/-! ### The buffer -/

def stepsOut (steps : List DeflateStep) : List Byte := (steps.map DeflateStep.out).flatten

def stepsTaken (steps : List DeflateStep) : List Byte := (steps.map DeflateStep.taken).flatten

@[simp] theorem stepsOut_append (a b : List DeflateStep) :
    stepsOut (a ++ b) = stepsOut a ++ stepsOut b := by
  simp [stepsOut]

@[simp] theorem stepsTaken_append (a b : List DeflateStep) :
    stepsTaken (a ++ b) = stepsTaken a ++ stepsTaken b := by
  simp [stepsTaken]

/-- The output is in the file and in the used part of the buffer. -/
structure Compress.Holds (c : Compress Z) : Prop where
  room : c.nextOut + c.availOut = compressOutbuff
  outbuff : c.outbuff.length = compressOutbuff
  output : c.file ++ c.outbuff.take c.nextOut = stepsOut c.steps
  state : c.state ≠ .finish

theorem Compress.Holds.mode_eq_finish {c : Compress Z} (h : c.Holds) :
    c.mode last = .finish ↔ last = true := by
  cases last with
  | true => simp [Compress.mode]
  | false => simp [Compress.mode, h.state]

theorem Compress.Holds.deflate {c : Compress Z} (h : c.Holds) {inp : List Byte}
    {fl : DeflateFlush} (hout : (Z.deflate c.zptr inp c.availOut fl).out.length ≤ c.availOut) :
    (c.deflate inp fl).Holds := by
  have hroom := h.room
  have hlength := h.outbuff
  refine ⟨?_, ?_, ?_, h.state⟩
  · show c.nextOut + _ + (c.availOut - _) = compressOutbuff
    omega
  · show (overlay _ _ _).length = _
    rw [overlay_length (by omega), hlength]
  · show c.file ++ (overlay _ _ _).take (c.nextOut + _) = stepsOut (c.steps ++ [_])
    rw [overlay_take_add (by omega), ← List.append_assoc, h.output, stepsOut_append]
    simp [stepsOut]

/-- What is written is the used part of the buffer. -/
theorem Compress.Holds.flush {c : Compress Z} (h : c.Holds) {item : List Byte}
    (hitem : item = c.outbuff.take c.nextOut) :
    (c.flush item).Holds ∧ (c.flush item).file = stepsOut c.steps := by
  have hfile : (c.flush item).file = stepsOut c.steps := by
    rw [← h.output, hitem]
    rfl
  refine ⟨⟨Nat.zero_add _, h.outbuff, ?_, h.state⟩, hfile⟩
  show (c.flush item).file ++ c.outbuff.take 0 = stepsOut c.steps
  rw [hfile, List.take_zero, List.append_nil]

theorem Compress.settle_eq (c : Compress Z) (inp : List Byte) :
    ∃ state, (state = c.state ∨ inp = [] ∧ state = .noFlush) ∧
      c.settle inp = { c with state := state } := by
  rw [Compress.settle]
  split
  · next hsettle => exact ⟨.noFlush, .inr ⟨hsettle.2.1, rfl⟩, rfl⟩
  · exact ⟨c.state, .inl rfl, rfl⟩

theorem Compress.Holds.settle {c : Compress Z} (h : c.Holds) (inp : List Byte) :
    (c.settle inp).Holds := by
  obtain ⟨state, hstate, he⟩ := c.settle_eq inp
  rw [he]
  refine ⟨h.room, h.outbuff, h.output, ?_⟩
  rcases hstate with rfl | ⟨-, rfl⟩
  · exact h.state
  · simp

theorem fwriteCount_eq_one {item : List Byte} (h : item ≠ []) : fwriteCount item = 1 := if_neg h

/-! ### The steps of a stream -/

/-- The stream ends once, and nothing comes out of it afterwards. -/
def EndsOnce (steps : List DeflateStep) : Prop :=
  ∃ before e after, steps = before ++ e :: after ∧ (∀ x ∈ before, x.ret ≠ .streamEnd) ∧ e.ret = .streamEnd ∧
    ∀ x ∈ after, x.out = []

theorem EndsOnce.prepend {a b : List DeflateStep} (ha : ∀ x ∈ a, x.ret ≠ .streamEnd)
    (hb : EndsOnce b) :
    EndsOnce (a ++ b) := by
  obtain ⟨before, e, after, rfl, hbefore, he, hafter⟩ := hb
  refine ⟨a ++ before, e, after, (List.append_assoc _ _ _).symm, fun x hx => ?_, he, hafter⟩
  rcases List.mem_append.mp hx with hx | hx
  · exact ha x hx
  · exact hbefore x hx

/-- What a call of `compress_data` leaves: `inp` is taken, and with `last` the stream has ended and the
file is complete. -/
structure Compress.Past (stage : Z.State → DeflateStage → Prop) (last : Bool) (inp : List Byte)
    (c c' : Compress Z) : Prop where
  holds : c'.Holds
  ended : c'.ended = c.ended
  steps : ∃ new, c'.steps = c.steps ++ new ∧ stepsTaken new = inp ∧
    if last then EndsOnce new else ∀ x ∈ new, x.ret ≠ .streamEnd
  left : if last then c'.availOut = compressOutbuff ∧ c'.file = stepsOut c'.steps
    else 0 < c'.availOut ∧ stage c'.zptr (.writing false)

theorem Compress.Past.prepend {c d c' : Compress Z} {inp rest : List Byte}
    (h : Compress.Past stage last rest d c') {x : DeflateStep} (hsteps : d.steps = c.steps ++ [x])
    (htaken : x.taken ++ rest = inp) (hret : x.ret ≠ .streamEnd) (hended : d.ended = c.ended) :
    Compress.Past stage last inp c c' := by
  obtain ⟨new, hnew, hrest, hends⟩ := h.steps
  refine ⟨h.holds, h.ended.trans hended, ⟨x :: new, ?_, ?_, ?_⟩, h.left⟩
  · rw [hnew, hsteps, List.append_assoc, List.singleton_append]
  · rw [← htaken, ← hrest]
    rfl
  · cases last with
    | true => exact EndsOnce.prepend (a := [x]) (by simpa using hret) hends
    | false =>
      rintro y hy
      rcases List.mem_cons.mp hy with rfl | hy
      · exact hret
      · exact hends y hy

/-! ### The turns of the loop -/

/-- What the turn's call of `deflate` gives. -/
def Compress.call (c : Compress Z) (inp : List Byte) (last : Bool) : Deflated Z.State :=
  Z.deflate c.zptr inp c.availOut (c.mode last)

theorem dataLoop_full {c : Compress Z} {inp : List Byte} (h : (c.deflate inp (c.mode last)).Holds)
    (hfull : (c.deflate inp (c.mode last)).availOut = 0) :
    ((c.deflate inp (c.mode last)).flush (c.deflate inp (c.mode last)).outbuff).Holds ∧ ∀ fuel,
      Compress.dataLoop last (fuel + 1) c inp =
        Compress.dataLoop last fuel ((c.deflate inp (c.mode last)).flush
          (c.deflate inp (c.mode last)).outbuff)
          (inp.drop (c.call inp last).consumed) := by
  have hroom := h.room
  have hlength := h.outbuff
  have hall : (c.deflate inp (c.mode last)).outbuff =
      (c.deflate inp (c.mode last)).outbuff.take (c.deflate inp (c.mode last)).nextOut := by
    rw [List.take_of_length_le (by omega)]
  have hne : (c.deflate inp (c.mode last)).outbuff ≠ [] :=
    List.ne_nil_of_length_pos (by rw [hlength]; decide)
  refine ⟨(h.flush hall).1, fun fuel => ?_⟩
  rw [Compress.dataLoop]
  simp only [hfull, if_true]
  exact Fate.orExit_pos (fwriteCount_eq_one hne) _

theorem dataLoop_ok {c : Compress Z} {inp : List Byte}
    (havail : (c.deflate inp (c.mode last)).availOut ≠ 0) (hret : (c.call inp last).ret = .ok)
    (fuel : Nat) :
    Compress.dataLoop last (fuel + 1) c inp =
      if inp.drop (c.call inp last).consumed ≠ [] ∨ last = true then
        Compress.dataLoop last fuel ((c.deflate inp (c.mode last)).settle
          (inp.drop (c.call inp last).consumed))
          (inp.drop (c.call inp last).consumed)
      else .done ((c.deflate inp (c.mode last)).settle (inp.drop (c.call inp last).consumed)) := by
  rw [Compress.call] at hret
  rw [Compress.dataLoop]
  simp only [if_neg havail, hret, reduceCtorEq, if_false, Fate.orExit_pos]
  rfl

theorem dataLoop_end {c : Compress Z} {inp : List Byte} (h : (c.deflate inp (c.mode last)).Holds)
    (havail : (c.deflate inp (c.mode last)).availOut ≠ 0)
    (hret : (c.call inp last).ret = .streamEnd) :
    ∃ c' : Compress Z, c'.Holds ∧ c'.ended = c.ended ∧
      c'.steps = (c.deflate inp (c.mode last)).steps ∧
      c'.availOut = compressOutbuff ∧ c'.file = stepsOut c'.steps ∧
      ∀ fuel, Compress.dataLoop last (fuel + 1) c inp = .done c' := by
  obtain ⟨state, -, hsettle⟩ := (c.deflate inp (c.mode last)).settle_eq
    (inp.drop (c.call inp last).consumed)
  have hd := h.settle (inp.drop (c.call inp last).consumed)
  obtain ⟨d, he⟩ : ∃ d, d = (c.deflate inp (c.mode last)).settle
    (inp.drop (c.call inp last).consumed) := ⟨_, rfl⟩
  rw [← he] at hd hsettle
  have hroom := hd.room
  have hnext : compressOutbuff - d.availOut = d.nextOut := by omega
  have hlength : (d.outbuff.take d.nextOut).length = d.nextOut := by
    rw [List.length_take, hd.outbuff]
    omega
  have hcount : fwriteCount (d.outbuff.take d.nextOut) = 1 ∨ d.nextOut = 0 := by
    rcases Nat.eq_zero_or_pos d.nextOut with hzero | hpos
    · exact .inr hzero
    · exact .inl (fwriteCount_eq_one (List.ne_nil_of_length_pos (by omega)))
  obtain ⟨hflush, hfile⟩ := hd.flush rfl
  refine ⟨d.flush (d.outbuff.take d.nextOut), hflush, ?_, ?_, rfl, hfile, fun fuel => ?_⟩
  · rw [hsettle]
    rfl
  · rw [hsettle]
    rfl
  · rw [Compress.call] at hret he
    rw [Compress.dataLoop]
    simp only [if_neg havail, hret, if_true, ← he, hnext]
    exact Fate.orExit_pos hcount _

/-- What is still to come becomes less by what comes. -/
theorem Deflater.produced_next {size : Nat} {fl : DeflateFlush} {s : Z.State} {inp : List Byte}
    {room bound : Nat} (h : ∀ n, Z.produced size fl n s inp room ≤ bound) :
    (Z.deflate s inp room fl).out.length ≤ bound ∧ ∀ n,
      Z.produced size fl n (Z.deflate s inp room fl).state
        (inp.drop (Z.deflate s inp room fl).consumed)
        (if (Z.deflate s inp room fl).out.length = room then size
          else room - (Z.deflate s inp room fl).out.length) ≤
      bound - (Z.deflate s inp room fl).out.length :=
  ⟨by simpa [Deflater.produced] using h 1, fun n => Nat.le_sub_of_add_le' (h (n + 1))⟩

theorem Compress.deflate_steps (c : Compress Z) (inp : List Byte) (last : Bool) :
    (c.deflate inp (c.mode last)).steps =
      c.steps ++ [⟨inp.take (c.call inp last).consumed, (c.call inp last).out,
      (c.call inp last).ret⟩] := rfl

theorem Compress.deflate_availOut (c : Compress Z) (inp : List Byte) (last : Bool) :
    (c.deflate inp (c.mode last)).availOut = c.availOut - (c.call inp last).out.length := rfl

theorem dataLoop_ended (hZ : Z.Contract compressOutbuff stage) {c : Compress Z} (hc : c.Holds)
    (hs : stage c.zptr .ended) (havail : 0 < c.availOut) :
    ∃ c' : Compress Z, c'.Holds ∧ c'.ended = c.ended ∧
      (∃ x : DeflateStep, c'.steps = c.steps ++ [x] ∧ x.taken = [] ∧ x.out = []) ∧
      c'.availOut = compressOutbuff ∧ c'.file = stepsOut c'.steps ∧
      ∀ fuel, Compress.dataLoop true (fuel + 1) c [] = .done c' := by
  obtain ⟨hret, hout⟩ := hZ.silent hs havail
  have hheld : (c.deflate [] (c.mode true)).Holds := hc.deflate (by
    rw [Compress.mode, if_pos rfl, hout]
    exact Nat.zero_le _)
  have hleft : (c.deflate [] (c.mode true)).availOut ≠ 0 := by
    rw [Compress.deflate_availOut, Compress.call, Compress.mode, if_pos rfl, hout]
    exact havail.ne'
  obtain ⟨c', hc', hended, hsteps, hfull, hfile, hdone⟩ := dataLoop_end hheld hleft hret
  rw [Compress.deflate_steps, List.take_nil] at hsteps
  exact ⟨c', hc', hended, ⟨_, hsteps, rfl, hout⟩, hfull, hfile, hdone⟩

/-- A stream that has not ended goes on with the rest of the input. -/
theorem DeflateStage.after_allows (fl : DeflateFlush) (full : Bool) (rest : List Byte)
    {ret : ZRet} (h : ret ≠ .streamEnd) :
    (DeflateStage.after fl full rest ret).Allows fl rest ∧
      (DeflateStage.after fl full rest ret).full = full := by
  rw [DeflateStage.after, if_neg h]
  split
  · next hfl => exact ⟨⟨hfl, rfl⟩, rfl⟩
  · exact ⟨trivial, rfl⟩

/-- `deflate` may be called with `inp`. Each call lowers twice what is still to come out and to be taken, or
leaves a buffer that was full before not full. -/
structure Compress.Ready (stage : Z.State → DeflateStage → Prop) (last : Bool) (c : Compress Z) (inp : List Byte)
    (m : Nat) : Prop where
  holds : c.Holds
  avail : 0 < c.availOut
  stage : ∃ st bound, stage c.zptr st ∧ st.Allows (c.mode last) inp ∧ (inp ≠ [] ∨ last = true ∨ st.full = true) ∧
    (∀ n, Z.produced compressOutbuff (c.mode last) n c.zptr inp c.availOut ≤ bound) ∧
    2 * (bound + inp.length) + (if st.full then 1 else 0) ≤ m

/-- The loop goes on after one call of `deflate`. -/
def Compress.GoesOn (stage : Z.State → DeflateStage → Prop) (last : Bool) (c : Compress Z) (inp : List Byte) (m : Nat) :
    Prop :=
  ∃ (d : Compress Z) (rest : List Byte) (m' : Nat), m' < m ∧ Compress.Ready stage last d rest m' ∧ d.ended = c.ended ∧
    (∃ x : DeflateStep, d.steps = c.steps ++ [x] ∧ x.taken ++ rest = inp ∧ x.ret ≠ .streamEnd) ∧
    ∀ fuel, Compress.dataLoop last (fuel + 1) c inp = Compress.dataLoop last fuel d rest

/-- The loop ends at once, or with one more call. -/
def Compress.Stops (stage : Z.State → DeflateStage → Prop) (last : Bool) (c : Compress Z) (inp : List Byte) (m : Nat) :
    Prop :=
  ∃ c' k, Compress.Past stage last inp c c' ∧ k ≤ m ∧ ∀ fuel, Compress.dataLoop last (fuel + k + 1) c inp = .done c'

theorem Compress.Ready.ret (hZ : Z.Contract compressOutbuff stage) {c : Compress Z}
    {inp : List Byte} {m : Nat} (h : Compress.Ready stage last c inp m) :
    (c.call inp last).ret = .ok ∨ (c.call inp last).ret = .streamEnd := by
  obtain ⟨hc, havail, st, bound, hs, hallow, hmoves, -, -⟩ := h
  rcases hZ.ret_cases hs hallow havail with hok | hend | hstuck
  · exact .inl hok
  · exact .inr hend
  · obtain ⟨hnil, hmode, hfull⟩ := hZ.stuck hs hallow havail hstuck
    rcases hmoves with hne | hlast | hfull'
    · exact absurd hnil hne
    · exact absurd (hc.mode_eq_finish.mpr hlast) hmode
    · rw [hfull] at hfull'
      cases hfull'

theorem Compress.Ready.deflate_holds (hZ : Z.Contract compressOutbuff stage) {c : Compress Z}
    {inp : List Byte} {m : Nat} (h : Compress.Ready stage last c inp m) :
    (c.deflate inp (c.mode last)).Holds := by
  obtain ⟨hc, havail, st, bound, hs, hallow, -, -, -⟩ := h
  exact hc.deflate (hZ.out_le hs hallow havail)

/-- With `Z_STREAM_END` all input has been taken. -/
theorem Compress.Ready.ends (hZ : Z.Contract compressOutbuff stage) {c : Compress Z}
    {inp : List Byte} {m : Nat} (h : Compress.Ready stage last c inp m)
    (hend : (c.call inp last).ret = .streamEnd) :
    last = true ∧ inp.take (c.call inp last).consumed = inp ∧
      inp.drop (c.call inp last).consumed = [] ∧
      stage (c.call inp last).state .ended := by
  obtain ⟨hc, havail, st, bound, hs, hallow, -, -, -⟩ := h
  obtain ⟨hmode, hall⟩ := hZ.end_finish hs hallow havail hend
  have hnext := hZ.next hs hallow havail
  rw [← Compress.call, DeflateStage.after, if_pos hend] at hnext
  rw [← Compress.call] at hall
  exact ⟨hc.mode_eq_finish.mp hmode, by rw [hall, List.take_length],
    by rw [hall, List.drop_length], hnext⟩

theorem Compress.Ready.full_ok (hZ : Z.Contract compressOutbuff stage) {c : Compress Z}
    {inp : List Byte} {m : Nat} (h : Compress.Ready stage last c inp m)
    (hfull : (c.call inp last).out.length = c.availOut) (hok : (c.call inp last).ret = .ok) :
    Compress.GoesOn stage last c inp m := by
  have hheld := h.deflate_holds hZ
  obtain ⟨hc, havail, st, bound, hs, hallow, -, hbound, hm⟩ := h
  have hconsumed : (c.call inp last).consumed ≤ inp.length := hZ.consumed_le hs hallow havail
  have hnext := hZ.next hs hallow havail
  rw [← Compress.call, decide_eq_true hfull] at hnext
  obtain ⟨hone, hrest⟩ := Deflater.produced_next hbound
  rw [← Compress.call] at hone hrest
  rw [if_pos hfull] at hrest
  have hzero : (c.deflate inp (c.mode last)).availOut = 0 := by
    rw [c.deflate_availOut]
    omega
  obtain ⟨hd, hloop⟩ := dataLoop_full hheld hzero
  have hne : (c.call inp last).ret ≠ .streamEnd := by simp [hok]
  obtain ⟨hallow', hfull'⟩ := DeflateStage.after_allows (c.mode last) true
    (inp.drop (c.call inp last).consumed) hne
  refine ⟨_, _, 2 * (bound - (c.call inp last).out.length +
    (inp.drop (c.call inp last).consumed).length) + 1, ?_,
    ⟨hd, Nat.succ_pos _, _, _, hnext, hallow', .inr (.inr hfull'), hrest, by rw [if_pos hfull']⟩, rfl,
    ⟨_, c.deflate_steps inp last, List.take_append_drop _ _, hne⟩, hloop⟩
  rw [List.length_drop]
  omega

theorem Compress.Ready.full_end (hZ : Z.Contract compressOutbuff stage) {c : Compress Z}
    {inp : List Byte} {m : Nat} (h : Compress.Ready stage last c inp m)
    (hfull : (c.call inp last).out.length = c.availOut)
    (hend : (c.call inp last).ret = .streamEnd) : Compress.Stops stage last c inp m := by
  have hheld := h.deflate_holds hZ
  obtain ⟨rfl, htake, hdrop, hended⟩ := h.ends hZ hend
  obtain ⟨hc, havail, st, bound, hs, hallow, -, hbound, hm⟩ := h
  obtain ⟨hone, -⟩ := Deflater.produced_next hbound
  rw [← Compress.call] at hone
  have hzero : (c.deflate inp (c.mode true)).availOut = 0 := by
    rw [c.deflate_availOut]
    omega
  obtain ⟨hd, hloop⟩ := dataLoop_full hheld hzero
  obtain ⟨c', hc', hsame, ⟨x, hx, htaken, hsilent⟩, havail', hfile, hdone⟩ :=
    dataLoop_ended hZ hd hended (Nat.succ_pos _)
  have hfirst := c.deflate_steps inp true
  rw [htake, hend] at hfirst
  have hsteps : c'.steps = c.steps ++ [⟨inp, (c.call inp true).out, .streamEnd⟩, x] :=
    hx.trans ((congrArg (· ++ [x]) hfirst).trans (List.append_assoc _ _ _))
  refine ⟨c', 1, ⟨hc', hsame, ⟨_, hsteps, ?_, [], _, [x], rfl, by simp, rfl, by simpa
    using hsilent⟩, havail', hfile⟩, by omega, fun fuel => ?_⟩
  · simp [stepsTaken, htaken]
  · rw [hloop, hdrop, hdone]

theorem Compress.Ready.room_ok (hZ : Z.Contract compressOutbuff stage) {c : Compress Z}
    {inp : List Byte} {m : Nat} (h : Compress.Ready stage last c inp m)
    (hroom : (c.call inp last).out.length ≠ c.availOut) (hok : (c.call inp last).ret = .ok) :
    Compress.GoesOn stage last c inp m ∨ Compress.Stops stage last c inp m := by
  have hheld := h.deflate_holds hZ
  obtain ⟨hc, havail, st, bound, hs, hallow, -, hbound, hm⟩ := h
  have hout : (c.call inp last).out.length ≤ c.availOut := hZ.out_le hs hallow havail
  have hnext := hZ.next hs hallow havail
  rw [← Compress.call, decide_eq_false hroom] at hnext
  obtain ⟨hone, hbound'⟩ := Deflater.produced_next hbound
  rw [← Compress.call] at hone hbound'
  rw [if_neg hroom] at hbound'
  obtain ⟨rest, hrest⟩ : ∃ rest, rest = inp.drop (c.call inp last).consumed := ⟨_, rfl⟩
  obtain ⟨next, hstage⟩ : ∃ next, next = DeflateStage.after (c.mode last) false rest
    (c.call inp last).ret := ⟨_, rfl⟩
  obtain ⟨d, hd⟩ : ∃ d, d = (c.deflate inp (c.mode last)).settle rest := ⟨_, rfl⟩
  obtain ⟨state, hstate, hsettle⟩ := (c.deflate inp (c.mode last)).settle_eq rest
  have hleft : 0 < (c.deflate inp (c.mode last)).availOut := by
    rw [c.deflate_availOut]
    omega
  have hdheld : d.Holds := hd ▸ hheld.settle rest
  have hloop (fuel : Nat) := dataLoop_ok hleft.ne' hok fuel
  have hne : (c.call inp last).ret ≠ .streamEnd := by simp [hok]
  have hjoin : inp.take (c.call inp last).consumed ++ rest = inp := by
    rw [hrest, List.take_append_drop]
  simp only [← hrest, ← hd] at hloop
  rw [← hrest] at hnext hbound'
  rw [← hd] at hsettle
  have hsteps := c.deflate_steps inp last
  by_cases hgoes : rest ≠ [] ∨ last = true
  · left
    obtain ⟨hallow', hfull'⟩ := DeflateStage.after_allows (c.mode last) false rest hne
    rw [← hstage] at hnext hallow' hfull'
    have hmode : d.mode last = c.mode last := by
      rcases hgoes with hgoes | rfl
      · obtain rfl := hstate.resolve_right (fun h => hgoes h.1)
        rw [hsettle]
        rfl
      · rfl
    rw [← hmode] at hallow'
    have hconsumed : (c.call inp last).consumed ≤ inp.length := hZ.consumed_le hs hallow havail
    have hlength : rest.length + (c.call inp last).consumed = inp.length := by
      rw [hrest, List.length_drop]
      omega
    refine ⟨d, rest, 2 * (bound - (c.call inp last).out.length + rest.length), ?_,
      ⟨hdheld, by rw [hsettle]; exact hleft, next, bound - (c.call inp last).out.length,
      by rw [hsettle]; exact hnext,
        hallow', hgoes.imp_right Or.inl, by rw [hmode, hsettle]; exact hbound',
        by rw [hfull']; exact le_rfl⟩,
      by rw [hsettle]; rfl, ⟨_, by rw [hsettle]; exact hsteps, hjoin, hne⟩,
      fun fuel => by rw [hloop, if_pos hgoes]⟩
    rcases hZ.ok_progress hs hallow havail hok with hprogress | ⟨-, hst⟩
    · rw [← Compress.call] at hprogress
      omega
    · rw [if_pos hst] at hm
      omega
  · right
    rw [not_or, not_not, Bool.not_eq_true] at hgoes
    obtain ⟨hnil, rfl⟩ := hgoes
    have hmode : c.mode false ≠ .finish := hc.state
    rw [DeflateStage.after, if_neg hne, if_neg hmode] at hnext
    refine ⟨d, 0, ⟨hdheld, by rw [hsettle]; rfl, ⟨_, by rw [hsettle]; exact hsteps, ?_, by simpa
      using hne⟩, ?_⟩, Nat.zero_le m, fun fuel => by rw [hloop, if_neg (by simp [hnil])]⟩
    · rw [hnil] at hjoin
      simpa [stepsTaken] using hjoin
    · rw [hsettle]
      exact ⟨hleft, hnext⟩

theorem Compress.Ready.room_end (hZ : Z.Contract compressOutbuff stage) {c : Compress Z}
    {inp : List Byte} {m : Nat} (h : Compress.Ready stage last c inp m)
    (hroom : (c.call inp last).out.length ≠ c.availOut)
    (hend : (c.call inp last).ret = .streamEnd) : Compress.Stops stage last c inp m := by
  have hheld := h.deflate_holds hZ
  obtain ⟨rfl, htake, -, -⟩ := h.ends hZ hend
  obtain ⟨hc, havail, st, bound, hs, hallow, -, -, -⟩ := h
  have hout : (c.call inp true).out.length ≤ c.availOut := hZ.out_le hs hallow havail
  have hleft : (c.deflate inp (c.mode true)).availOut ≠ 0 := by
    rw [c.deflate_availOut]
    omega
  obtain ⟨c', hc', hsame, hsteps, havail', hfile, hdone⟩ := dataLoop_end hheld hleft hend
  rw [c.deflate_steps, htake] at hsteps
  exact ⟨c', 0, ⟨hc', hsame, ⟨_, hsteps, by simp [stepsTaken], [], _, [], rfl, by simp, hend,
    by simp⟩, havail', hfile⟩, Nat.zero_le m, hdone⟩

theorem Compress.Ready.turn (hZ : Z.Contract compressOutbuff stage) {c : Compress Z}
    {inp : List Byte} {m : Nat} (h : Compress.Ready stage last c inp m) :
    Compress.GoesOn stage last c inp m ∨ Compress.Stops stage last c inp m := by
  by_cases hfull : (c.call inp last).out.length = c.availOut
  · rcases h.ret hZ with hok | hend
    · exact .inl (h.full_ok hZ hfull hok)
    · exact .inr (h.full_end hZ hfull hend)
  · rcases h.ret hZ with hok | hend
    · exact h.room_ok hZ hfull hok
    · exact .inr (h.room_end hZ hfull hend)

/-- The calls of `deflate` for one piece of data. -/
theorem Compress.Ready.past (hZ : Z.Contract compressOutbuff stage) {m : Nat} {c : Compress Z}
    {inp : List Byte} (h : Compress.Ready stage last c inp m) :
    ∃ c', Compress.Past stage last inp c c' ∧ ∀ fuel, m < fuel →
      Compress.dataLoop last fuel c inp = .done c' := by
  induction m using Nat.strong_induction_on generalizing c inp with
  | _ m ih =>
    rcases h.turn hZ with ⟨d, rest, m', hlt, hready, hended, ⟨x, hx, htaken, hret⟩, hloop⟩ |
      ⟨c', k, hpast, hk, hdone⟩
    · obtain ⟨c', hpast, hdone⟩ := ih m' hlt hready
      refine ⟨c', hpast.prepend hx htaken hret hended, fun fuel hfuel => ?_⟩
      obtain ⟨n, rfl⟩ : ∃ n, fuel = n + 1 := ⟨fuel - 1, by omega⟩
      rw [hloop]
      exact hdone n (by omega)
    · refine ⟨c', hpast, fun fuel hfuel => ?_⟩
      obtain ⟨n, rfl⟩ : ∃ n, fuel = n + k + 1 := ⟨fuel - k - 1, by omega⟩
      exact hdone n

/-! ### The calls for one file -/

/-- `c->end` is set with the last piece. -/
def Compress.marked (c : Compress Z) (last : Bool) : Compress Z := { c with ended := c.ended || last }

/-- Between two calls of `compress_data`. -/
structure Compress.Between (stage : Z.State → DeflateStage → Prop) (c : Compress Z) : Prop where
  holds : c.Holds
  avail : 0 < c.availOut
  stage : stage c.zptr (.writing false)

theorem Compress.Past.between {c c' : Compress Z} {data : List Byte}
    (h : Compress.Past stage false data c c') :
    c'.Between stage := ⟨h.holds, h.left.1, h.left.2⟩

theorem Compress.Past.trans {c c' c'' : Compress Z} {a b : List Byte}
    (h : Compress.Past stage false a c c') (h' : Compress.Past stage last b (c'.marked last) c'') :
    Compress.Past stage last (a ++ b) (c.marked last) c'' := by
  obtain ⟨new, hnew, htaken, hret⟩ := h.steps
  obtain ⟨new', hnew', htaken', hends⟩ := h'.steps
  refine ⟨h'.holds, ?_, ⟨new ++ new', ?_, ?_, ?_⟩, h'.left⟩
  · rw [h'.ended, Compress.marked, Compress.marked, h.ended]
  · rw [hnew', ← List.append_assoc]
    exact congrArg (· ++ new') hnew
  · rw [stepsTaken_append, htaken, htaken']
  · cases last with
    | true => exact hends.prepend hret
    | false => exact fun x hx => (List.mem_append.mp hx).elim (hret x) (hends x)

theorem compressData_past (hZ : Z.Contract compressOutbuff stage) {c : Compress Z} (h : c.Between stage)
    {data : List Byte} (hdata : data ≠ [] ∨ last = true) :
    ∃ c' N, Compress.Past stage last data (c.marked last) c' ∧
      ∀ fuel, N < fuel → c.compressData fuel data last = .done c' := by
  obtain ⟨blocks, state, hstate, he⟩ : ∃ blocks state, state ≠ DeflateFlush.finish ∧ ∀ fuel,
      c.compressData fuel data last =
        Compress.dataLoop last fuel { c.marked last with compressedBlocks := blocks, state := state } data := by
    by_cases hblocks : blockflush ≤ c.compressedBlocks + 1
    · refine ⟨0, .fullFlush, by decide, fun fuel => ?_⟩
      cases last <;> simp [Compress.compressData, hblocks, Compress.marked]
    · refine ⟨c.compressedBlocks + 1, c.state, h.holds.state, fun fuel => ?_⟩
      cases last <;> simp [Compress.compressData, hblocks, Compress.marked]
  obtain ⟨d, hd⟩ : ∃ d, d = { c.marked last with compressedBlocks := blocks, state := state } :=
    ⟨_, rfl⟩
  have hallow : (DeflateStage.writing false).Allows (d.mode last) data := trivial
  have hholds : d.Holds := by
    rw [hd]
    exact ⟨h.holds.room, h.holds.outbuff, h.holds.output, hstate⟩
  have havail : 0 < d.availOut := by
    rw [hd]
    exact h.avail
  have hs : stage d.zptr (.writing false) := by
    rw [hd]
    exact h.stage
  obtain ⟨bound, hbound⟩ := hZ.finite hs hallow havail
  obtain ⟨c', hpast, hdone⟩ := Compress.Ready.past hZ ⟨hholds, havail, _, bound, hs, hallow,
    hdata.imp_right Or.inl, hbound, le_rfl⟩
  rw [← hd] at he
  refine ⟨c', _, ⟨hpast.holds, ?_, ?_, hpast.left⟩, fun fuel hfuel => (he fuel).trans
    (hdone fuel hfuel)⟩
  · rw [hpast.ended, hd]
  · have hsteps := hpast.steps
    rw [hd] at hsteps
    exact hsteps

theorem compressCalls_past (hZ : Z.Contract compressOutbuff stage) {calls : List DeflateCall}
    {c : Compress Z} (h : c.Between stage) (hlast : ∀ x ∈ calls, x.last = false)
    (hdata : ∀ x ∈ calls, x.data ≠ []) :
    ∃ c' N, Compress.Past stage false (streamInput calls) c c' ∧
      ∀ fuel, N < fuel → compressCalls fuel c calls = .done c' := by
  have hmarked (d : Compress Z) : d.marked false = d := by simp [Compress.marked]
  induction calls generalizing c with
  | nil => exact ⟨c, 0, ⟨h.holds, rfl, ⟨[], by simp, rfl, by simp⟩, h.avail, h.stage⟩, fun _ _ => rfl⟩
  | cons x calls ih =>
    obtain ⟨c₁, N₁, hpast, hdone⟩ := compressData_past hZ h (.inl (hdata x List.mem_cons_self))
    rw [hmarked] at hpast
    obtain ⟨c₂, N₂, hpast', hdone'⟩ := ih hpast.between
      (fun y hy => hlast y (List.mem_cons_of_mem _ hy))
      (fun y hy => hdata y (List.mem_cons_of_mem _ hy))
    have hboth := hpast.trans (by rwa [hmarked])
    rw [hmarked] at hboth
    refine ⟨c₂, max N₁ N₂, hboth, fun fuel hfuel => ?_⟩
    rw [compressCalls, Fate.loop, hlast x List.mem_cons_self,
      hdone fuel (lt_of_le_of_lt (le_max_left _ _) hfuel)]
    exact hdone' fuel (lt_of_le_of_lt (le_max_right _ _) hfuel)

/-- The file is the whole output of `deflate`, and `input` was its input. -/
structure Compress.Complete (c : Compress Z) (input : List Byte) : Prop where
  file : c.file = stepsOut c.steps
  taken : stepsTaken c.steps = input
  ends : EndsOnce c.steps

theorem compressInit_between (hZ : Z.Contract compressOutbuff stage) {old : List Byte}
    (hold : old.length = compressOutbuff) : (compressInit Z old).Between stage :=
  ⟨⟨Nat.zero_add _, hold, by simp [compressInit, stepsOut], by simp [compressInit]⟩,
    Nat.succ_pos _, hZ.start⟩

/-- A file whose last call ends the stream. `compress_end` has nothing left to do. -/
theorem compressCalls_finished (hZ : Z.Contract compressOutbuff stage) {old : List Byte}
    (hold : old.length = compressOutbuff) {calls : List DeflateCall} (z : DeflateCall)
    (hlast : ∀ x ∈ calls, x.last = false) (hdata : ∀ x ∈ calls, x.data ≠ []) :
    ∃ (c c' : Compress Z) (N : Nat), c.ended = false ∧ c'.Complete (streamInput (calls ++ [z])) ∧
      c'.ended = true ∧ c'.availOut = compressOutbuff ∧ ∀ fuel, N < fuel →
        compressCalls fuel (compressInit Z old) calls = .done c ∧
          c.compressData fuel z.data true = .done c' := by
  obtain ⟨c, N₁, hpast, hdone⟩ := compressCalls_past hZ (compressInit_between hZ hold) hlast hdata
  obtain ⟨c', N₂, hpast', hdone'⟩ := compressData_past hZ hpast.between (.inr rfl)
  have hboth := hpast.trans hpast'
  obtain ⟨new, hnew, htaken, hends⟩ := hboth.steps
  obtain rfl : c'.steps = new := hnew
  refine ⟨c, c', max N₁ N₂, hpast.ended, ⟨hboth.left.2, ?_, hends⟩, hboth.ended, hboth.left.1,
    fun fuel hfuel =>
    ⟨hdone fuel (lt_of_le_of_lt (le_max_left _ _) hfuel),
    hdone' fuel (lt_of_le_of_lt (le_max_right _ _) hfuel)⟩⟩
  rw [htaken]
  simp [streamInput]

/-- No call but the last ends the stream. -/
def OnlyLast (calls : List DeflateCall) : Prop := ∀ x ∈ calls.dropLast, x.last = false

/-- The calls that have ended the stream, or those that `compress_end` still has to end. -/
theorem OnlyLast.cases {calls : List DeflateCall} (h : OnlyLast calls) :
    ∃ before z, z.last = true ∧ (∀ x ∈ before, x.last = false) ∧
      (calls = before ++ [z] ∨ calls = before ∧ z = ⟨[], true⟩) := by
  rcases List.eq_nil_or_concat calls with rfl | ⟨before, z, rfl⟩
  · exact ⟨[], ⟨[], true⟩, rfl, by simp, .inr ⟨rfl, rfl⟩⟩
  · rw [OnlyLast, List.concat_eq_append, List.dropLast_concat] at h
    rw [List.concat_eq_append]
    cases hz : z.last with
    | true => exact ⟨before, z, hz, h, .inl rfl⟩
    | false =>
      refine ⟨before ++ [z], ⟨[], true⟩, rfl, fun x hx => ?_, .inr ⟨rfl, rfl⟩⟩
      rcases List.mem_append.mp hx with hx | hx
      · exact h x hx
      · rwa [List.mem_singleton.mp hx]

/-- All that `deflate` gives is in the file, when every piece but the last has data. The counters decide as
`compressEnd` does for the list of the calls. -/
theorem compress_stream_complete (hZ : Z.Contract compressOutbuff stage) {old : List Byte}
    (hold : old.length = compressOutbuff) {calls : List DeflateCall} (honly : OnlyLast calls)
    (hdata : ∀ x ∈ calls, x.last = false → x.data ≠ []) :
    ∃ (c : Compress Z) (N : Nat), c.Complete (streamInput calls) ∧ ∀ fuel, N < fuel →
      compressStream fuel Z old calls = .done c ∧
        compressCalls fuel (compressInit Z old) (compressEnd calls) = .done c := by
  obtain ⟨before, z, hz, hbefore, hcalls⟩ := honly.cases
  have hfilled : ∀ x ∈ before, x.data ≠ [] := fun x hx => hdata x (by
    rcases hcalls with rfl | ⟨rfl, -⟩
    · exact List.mem_append_left _ hx
    · exact hx) (hbefore x hx)
  have hany : before.any DeflateCall.last = false := by simpa using hbefore
  obtain ⟨c, c', N, hended, hcomplete, hended', havail, hdone⟩ :=
    compressCalls_finished hZ hold z hbefore hfilled
  have hrun (fuel : Nat) (hfuel : N < fuel) : compressCalls fuel (compressInit Z old)
      (before ++ [z]) = .done c' := by
    obtain ⟨hcalls, hlast⟩ := hdone fuel hfuel
    rw [compressCalls, Fate.loop_append, ← compressCalls, hcalls, Fate.bind_done,
      Fate.loop, hz, hlast]
    rfl
  rcases hcalls with rfl | ⟨rfl, rfl⟩
  · have hlist : compressEnd (before ++ [z]) = before ++ [z] := by simp [compressEnd, hz]
    refine ⟨c', N, hcomplete, fun fuel hfuel => ⟨?_, by rw [hlist, hrun fuel hfuel]⟩⟩
    rw [compressStream, hrun fuel hfuel, Fate.bind_done, Compress.compressEnd,
      if_neg (by simp [havail, hended'])]
  · have hlist : compressEnd calls = calls ++ [⟨[], true⟩] := by simp [compressEnd, hany]
    have hinput : streamInput (calls ++ [⟨[], true⟩]) = streamInput calls := by simp [streamInput]
    refine ⟨c', N, hinput ▸ hcomplete, fun fuel hfuel => ⟨?_, by rw [hlist, hrun fuel hfuel]⟩⟩
    obtain ⟨hcalls, hlast⟩ := hdone fuel hfuel
    rw [compressStream, hcalls, Fate.bind_done, Compress.compressEnd, if_pos (.inr hended), hlast]

/-! ### A `deflate` that copies -/

/-- Its output is its input, as far as there is room. -/
def copyDeflater : Deflater where
  State := DeflateStage × List Byte
  init := (.writing false, [])
  deflate s inp room fl :=
    let all := s.2 ++ inp
    let ret :=
      if s.1 = .ended ∨ fl = .finish ∧ all.length ≤ room then .streamEnd
      else if all = [] ∧ s.1.full = false then .bufError
      else .ok
    ⟨ret, inp.length, all.take room, (.after fl (decide ((all.take room).length = room)) [] ret, all.drop room)⟩

/-- `pending` is still to be copied. -/
def copyStage (s : copyDeflater.State) (st : DeflateStage) : Prop :=
  s.1 = st ∧ (st = .ended → s.2 = [])

theorem copyDeflater_produced (size : Nat) (fl : DeflateFlush) (n : Nat) (s : copyDeflater.State)
    (inp : List Byte) (room : Nat) :
    copyDeflater.produced size fl n s inp room ≤ s.2.length + inp.length := by
  induction n generalizing s inp room with
  | zero => exact Nat.zero_le _
  | succ n ih =>
    rw [Deflater.produced]
    refine le_trans (Nat.add_le_add_left (ih _ _ _) _) ?_
    simp only [copyDeflater, List.length_drop, List.length_take, List.length_append]
    omega

theorem copyDeflater_ret (s : copyDeflater.State) (inp : List Byte) (room : Nat)
    (fl : DeflateFlush) :
    (copyDeflater.deflate s inp room fl).ret = .streamEnd ∧
        (s.1 = .ended ∨ fl = .finish ∧ (s.2 ++ inp).length ≤ room) ∨
      (copyDeflater.deflate s inp room fl).ret = .bufError ∧ s.2 ++ inp = [] ∧ s.1.full = false ∧
        fl ≠ .finish ∨
      (copyDeflater.deflate s inp room fl).ret = .ok ∧ (s.2 ++ inp ≠ [] ∨ s.1.full = true) := by
  by_cases hend : s.1 = .ended ∨ fl = .finish ∧ (s.2 ++ inp).length ≤ room
  · exact .inl ⟨if_pos hend, hend⟩
  · by_cases hstuck : s.2 ++ inp = [] ∧ s.1.full = false
    · refine .inr (.inl ⟨(if_neg hend).trans (if_pos hstuck), hstuck.1, hstuck.2, fun hfl => ?_⟩)
      rw [hstuck.1] at hend
      exact hend (.inr ⟨hfl, Nat.zero_le room⟩)
    · refine .inr (.inr ⟨(if_neg hend).trans (if_neg hstuck), ?_⟩)
      rw [Classical.not_and_iff_not_or_not, Bool.not_eq_false] at hstuck
      exact hstuck

theorem copyDeflater_contract (size : Nat) : copyDeflater.Contract size copyStage where
  start := ⟨rfl, fun _ => rfl⟩
  consumed_le := fun _ _ _ => le_rfl
  out_le := fun _ _ _ => List.length_take_le _ _
  next := by
    rintro s st inp room fl ⟨rfl, hended⟩ hallow -
    refine ⟨by simp [copyDeflater], fun hafter => ?_⟩
    have hdrop : (copyDeflater.deflate s inp room fl).state.2 = (s.2 ++ inp).drop room := rfl
    rw [hdrop]
    rcases copyDeflater_ret s inp room fl with ⟨-, hs | ⟨-, hle⟩⟩ | ⟨hret, -⟩ | ⟨hret, -⟩
    · rw [hs] at hallow hended
      rw [hended rfl, hallow.2]
      exact List.drop_nil
    · exact List.drop_eq_nil_of_le hle
    all_goals
      rw [DeflateStage.after, hret, if_neg (by decide)] at hafter
      split at hafter <;> cases hafter
  ret_cases := by
    rintro s st inp room fl - - -
    rcases copyDeflater_ret s inp room fl with ⟨hret, -⟩ | ⟨hret, -⟩ | ⟨hret, -⟩ <;> simp [hret]
  ok_progress := by
    rintro s st inp room fl ⟨rfl, -⟩ - hroom hok
    rcases copyDeflater_ret s inp room fl with ⟨hret, -⟩ | ⟨hret, -⟩ | ⟨-, hall⟩
    · rw [hret] at hok
      cases hok
    · rw [hret] at hok
      cases hok
    · by_cases hnil : s.2 ++ inp = []
      · exact .inr ⟨(List.append_eq_nil_iff.mp hnil).2, hall.resolve_left (absurd hnil)⟩
      · left
        have hpos : 0 < (s.2 ++ inp).length := List.length_pos_iff.mpr hnil
        show 0 < inp.length + ((s.2 ++ inp).take room).length
        rw [List.length_take]
        omega
  end_finish := by
    rintro s st inp room fl ⟨rfl, -⟩ hallow - hend
    refine ⟨?_, rfl⟩
    rcases copyDeflater_ret s inp room fl with ⟨-, hs | ⟨hfl, -⟩⟩ | ⟨hret, -⟩ | ⟨hret, -⟩
    · rw [hs] at hallow
      exact hallow.1
    · exact hfl
    all_goals
      rw [hret] at hend
      cases hend
  stuck := by
    rintro s st inp room fl ⟨rfl, -⟩ - - hstuck
    rcases copyDeflater_ret s inp room fl with ⟨hret, -⟩ | ⟨-, hnil, hfull, hfl⟩ | ⟨hret, -⟩
    · rw [hret] at hstuck
      cases hstuck
    · exact ⟨(List.append_eq_nil_iff.mp hnil).2, hfl, hfull⟩
    · rw [hret] at hstuck
      cases hstuck
  silent := by
    rintro s room ⟨hs, hpending⟩ -
    refine ⟨if_pos (.inl hs), ?_⟩
    show (s.2 ++ []).take room = []
    rw [hpending rfl]
    exact List.take_nil
  finite := fun _ _ _ => ⟨_, fun n => copyDeflater_produced size _ n _ _ _⟩

theorem compress_stream_complete_copied : ∃ (c : Compress copyDeflater) (N : Nat),
    c.Complete (streamInput [⟨[1, 2], false⟩, ⟨[3], true⟩]) ∧ ∀ fuel, N < fuel →
      compressStream fuel copyDeflater (List.replicate 8192 0) [⟨[1, 2], false⟩, ⟨[3], true⟩] = .done c ∧
        compressCalls fuel (compressInit copyDeflater (List.replicate 8192 0))
          (compressEnd [⟨[1, 2], false⟩, ⟨[3], true⟩]) = .done c :=
  compress_stream_complete (copyDeflater_contract compressOutbuff) List.length_replicate
    (by simp [OnlyLast])
    (by simp)

/-- For an empty piece `deflate` has nothing to do, which it says with `Z_BUF_ERROR`. -/
theorem empty_piece_exits :
    ¬ ∀ (Z : Deflater) (stage : Z.State → DeflateStage → Prop) (old : List Byte) (calls : List DeflateCall),
      Z.Contract compressOutbuff stage → old.length = compressOutbuff → OnlyLast calls →
        ∃ (c : Compress Z) (N : Nat), c.Complete (streamInput calls) ∧ ∀ fuel, N < fuel →
          compressStream fuel Z old calls = .done c := by
  intro hclaim
  obtain ⟨c, N, -, hdone⟩ := hclaim copyDeflater copyStage (List.replicate 8192 0)
    [⟨[1], false⟩, ⟨[], false⟩, ⟨[2], true⟩]
      (copyDeflater_contract compressOutbuff) List.length_replicate
    (by simp [OnlyLast])
  have hexit (fuel : Nat) : compressStream (fuel + 1) copyDeflater (List.replicate 8192 0)
      [⟨[1], false⟩, ⟨[], false⟩, ⟨[2], true⟩] = .exit := rfl
  have h := hdone (N + 1) (Nat.lt_succ_self N)
  rw [hexit N] at h
  cases h

end PulseImaging
