import PulseImaging.HeaderFields
import PulseImaging.PartCopy

/-! A whole image in the boot loader: the loop of `partcopy_func` over `new_get`, side by side with the loop
of `restore`. -/

namespace PulseImaging

/-! ### The globals set from a header -/

section Header

variable {σ : Type}

/-- The globals are those from before the file until its header is read. -/
structure Noted (info : ImageInfo) (p : Part) (s : GetState σ) : Prop where
  before : s.firstblock = true → s.info = info
  after : s.firstblock = false → s.info = info.read p.header

def SameInfo (s t : GetState σ) : Prop := t.firstblock = s.firstblock ∧ t.info = s.info

theorem SameInfo.trans {s t u : GetState σ} (h : SameInfo s t) (h' : SameInfo t u) : SameInfo s u :=
  ⟨h'.1.trans h.1, h'.2.trans h.2⟩

theorem Noted.same {info : ImageInfo} {p : Part} {s t : GetState σ} (h : Noted info p s)
    (hst : SameInfo s t) :
    Noted info p t where
  before hfirst := hst.2.trans (h.before (hst.1.symm.trans hfirst))
  after hfirst := hst.2.trans (h.after (hst.1.symm.trans hfirst))

theorem load_sameInfo (s : GetState σ) : SameInfo s s.load := by
  rw [GetState.load]
  split <;> exact ⟨rfl, rfl⟩

theorem used_sameInfo (s : GetState σ) : SameInfo s s.used := by
  rw [GetState.used]
  split <;> exact ⟨rfl, rfl⟩

theorem filled_sameInfo (s : GetState σ) : SameInfo s s.filled := by
  rw [GetState.filled]
  split <;> exact ⟨rfl, rfl⟩

theorem inflateTurn_sameInfo {E : GetEnv} {s t : GetState E.decoder.State}
    (h : E.inflateTurn s = .go t) :
    SameInfo s t := by
  rcases inflateTurn_cases E s with ⟨-, hgo⟩ | ⟨-, hgo⟩ | ⟨-, -, hagain⟩
  · cases hgo.symm.trans h
    exact ⟨rfl, rfl⟩
  · cases hgo.symm.trans h
    exact (show SameInfo s (s.advance (E.call s)) from ⟨rfl, rfl⟩).trans
      ((used_sameInfo _).trans (filled_sameInfo _))
  · cases hagain.symm.trans h

theorem collect_sameInfo {s t : GetState σ} (h : s.collect = some t) : SameInfo s t := by
  rw [GetState.collect] at h
  obtain ⟨total, -, h⟩ := Option.bind_eq_some_iff.mp h
  split at h
  · split at h
    · cases h
      exact ⟨rfl, rfl⟩
    · obtain ⟨x, -, rfl⟩ := Option.map_eq_some_iff.mp h
      exact ⟨rfl, rfl⟩
  · cases h
    exact ⟨rfl, rfl⟩

theorem receive_sameInfo (s : GetState σ) (i : Fin NB_BUF) (d : Datagram) :
    (s.receive i d).Sat (SameInfo s) (fun _ => True) (fun _ t => SameInfo s t) := by
  rw [GetState.receive]
  split
  · split
    · trivial
    · exact ⟨rfl, rfl⟩
  split
  · split
    · trivial
    split
    · trivial
    · exact ⟨rfl, rfl⟩
  split
  · exact ⟨rfl, rfl⟩
  · trivial

theorem outer_sameInfo {s t : GetState σ} (h : SameInfo s t) :
    t.outer.Sat (SameInfo s) (fun _ => True) (fun _ t => SameInfo s t) := by
  rw [GetState.outer]
  split <;> exact h

theorem poll_sameInfo (s : GetState σ) (d : Option Datagram) :
    (s.poll d).Sat (SameInfo s) (fun _ => True) (fun _ t => SameInfo s t) := by
  have hsame : SameInfo s s := ⟨rfl, rfl⟩
  rw [GetState.poll]
  split
  · exact hsame
  split
  · exact hsame
  · next i _ =>
    split
    · exact outer_sameInfo hsame
    · cases d with
      | none => exact hsame
      | some d => exact (receive_sameInfo s i d).andThen fun t ht => outer_sameInfo ht

end Header

section Transfer

variable {E : GetEnv} {rel : E.decoder.State → List Byte → List Byte → Prop} {file : List Byte} {p : Part}
  {disk₀ : Content} {info : ImageInfo} {s t : GetState E.decoder.State}

theorem Boot.body_noted (h : Boot E rel file p disk₀ s) (hr : p.Shaped) (hp : p.Sectors) {past : Byte}
    (ht : E.body past s = some (.go t)) (hn : Noted info p s) : Noted info p t := by
  rcases body_cases ht with ⟨hfull, u, hwrite, hu⟩ | ⟨-, -, -, hinf⟩ | ⟨-, -, u, hu, hgo⟩
  · cases hu
    cases hfirst : s.firstblock with
    | true =>
      -- the buffer holds the header
      obtain ⟨hbuf, -⟩ := h.buffer_header hr hp hfull hfirst
      simp only [GetState.writeBuffer, hfirst, if_true, Option.map_some, Option.some.injEq] at hwrite
      subst hwrite
      refine ⟨fun hc => Bool.noConfusion hc, fun _ => ?_⟩
      change s.info.read s.buffer = _
      rw [hbuf, hn.before hfirst]
    | false =>
      simp only [GetState.writeBuffer, hfirst, Bool.false_eq_true, if_false, Option.map_map,
        Option.map_eq_some_iff] at hwrite
      obtain ⟨x, -, rfl⟩ := hwrite
      exact ⟨fun hc => Bool.noConfusion hc, fun _ => hn.after hfirst⟩
  · exact hn.same ((load_sameInfo s).trans (inflateTurn_sameInfo hinf.symm))
  · cases hgo
    exact hn.same ((load_sameInfo s).trans (collect_sameInfo hu))

theorem Boot.step_noted (hZ : E.decoder.Decodes rel) (h : Boot E rel file p disk₀ s)
    (hroom : Room s) (hr : p.Shaped) (hp : p.Sectors) (hfit : Fits E p) {e : Event}
    (he : Served file s e) (hn : Noted info p s) :
    (∀ t, E.step s e = some (.running t) → Noted info p t) ∧
      ∀ code t, E.step s e = some (.returned code t) → Noted info p t := by
  obtain ⟨t, hbody, hboot, hrm, hwait, -⟩ := h.body hZ hroom hr hp hfit e.past
  have hnt := h.body_noted hr hp hbody hn
  obtain ⟨u, hclock, hubt, huroom, hul, hsame⟩ : ∃ u, t.clock e.tick = .go u ∧
      Boot E rel file p disk₀ u ∧ Room u ∧ u.lastblk = s.lastblk ∧ SameInfo t u := by
    rw [GetState.clock]
    split
    · next htick =>
      rw [if_neg fun hc => he.1 ⟨htick, by rw [hwait.2] at hc; omega⟩]
      exact ⟨_, rfl, hboot.timeout _, hrm, hwait.1, rfl, rfl⟩
    · exact ⟨t, rfl, hboot, hrm, hwait.1, rfl, rfl⟩
  have hturn : E.turn s e = some (u.poll e.poll) := by
    simp [GetEnv.turn, hbody, Flow.andThen, hclock]
  have hnu := hnt.same hsame
  have hpoll := poll_sameInfo u e.poll
  rcases hubt.poll huroom (d := e.poll) (fun d hd => by rw [hul]; exact he.2 d hd) with
    ⟨v, hv, -⟩ | ⟨v, hv, -⟩ <;> rw [hv] at hpoll
  · have hstep : E.step s e = some (.running v) := by simp [GetEnv.step, hturn, hv]
    rw [hstep]
    refine ⟨fun w hw => ?_, fun code w hw => ?_⟩
    · obtain rfl : v = w := by simpa using hw
      exact hnu.same hpoll
    · cases hw
  · have hstep : E.step s e = some (.returned 0 v) := by simp [GetEnv.step, hturn, hv]
    rw [hstep]
    refine ⟨fun w hw => ?_, fun code w hw => ?_⟩
    · cases hw
    · obtain ⟨-, rfl⟩ : 0 = code ∧ v = w := by simpa using hw
      exact hnu.same hpoll

theorem Boot.run_noted (hZ : E.decoder.Decodes rel) (h : Boot E rel file p disk₀ s)
    (hroom : Room s) (hr : p.Shaped) (hp : p.Sectors) (hfit : Fits E p) {evs : List Event}
    (hserved : ∀ pre e post t, evs = pre ++ e :: post → E.run s pre = some (.running t) →
      Served file t e)
    (hn : Noted info p s) {code : Nat} (hrun : E.run s evs = some (.returned code t)) :
    Noted info p t := by
  induction evs generalizing s with
  | nil => cases hrun
  | cons e es ih =>
    have he := hserved [] e es s rfl rfl
    obtain ⟨hgo, hret⟩ := h.step_noted hZ hroom hr hp hfit he hn
    rw [GetEnv.run] at hrun
    rcases h.step hZ hroom hr hp hfit he with ⟨u, hu, hboot, hrm, -⟩ | ⟨u, hu, -, -⟩ <;>
      rw [hu, Option.bind_some] at hrun
    · refine ih hboot hrm (fun pre e' post v hes hv => hserved (e :: pre) e' post v ?_ ?_)
        (hgo u hu) hrun
      · rw [hes, List.cons_append]
      · rw [GetEnv.run, hu, Option.bind_some]
        exact hv
    · obtain ⟨-, rfl⟩ : 0 = code ∧ u = t := by simpa using hrun
      exact hret _ u hu

theorem Boot.over_header (h : Boot E rel file p disk₀ s) (hover : s.ending = .over) :
    s.firstblock = false := by
  rcases h.output.stage with ⟨hend, -, -⟩ | ⟨hend, -, -, -, -⟩ | ⟨-, -, -, hfl⟩
  · exact Ending.noConfusion (hover.symm.trans hend)
  · exact Ending.noConfusion (hover.symm.trans hend)
  · exact hfl.firstblock

/-- The end of a transfer: the globals from the header, and a buffer of the same size for the next file. -/
theorem boot_part_info (hZ : E.decoder.Decodes rel) (hr : p.Shaped) (hp : p.Sectors) (hfit : Fits E p)
    (hrel : rel (E.init 0) file p.output) (alloc : List Byte) {buffer : List Byte}
    (hbuf : buffer.length = OUTBUFF) {evs : List Event}
    (hserved : ∀ pre e post t, evs = pre ++ e :: post →
      E.run (E.start disk₀ info alloc buffer) pre = some (.running t) → Served file t e)
    {code : Nat} (hrun : E.run (E.start disk₀ info alloc buffer) evs = some (.returned code t)) :
    t.info = info.read p.header ∧ t.buffer.length = OUTBUFF := by
  have hboot : Boot E rel file p disk₀ (E.start disk₀ info alloc buffer) :=
    Boot.start hZ hr hp hrel info hbuf
  have hroom : Room (E.start disk₀ info alloc buffer) := fun _ => (by decide : 0 < OUTBUFF)
  have hn : Noted info p (E.start disk₀ info alloc buffer) :=
    ⟨fun _ => rfl, fun hc => Bool.noConfusion hc⟩
  have hnt := hboot.run_noted hZ hroom hr hp hfit hserved hn hrun
  rcases hboot.run hZ hroom hr hp hfit hserved with ⟨u, hu, -⟩ | ⟨u, hu, hbu, hover⟩
  · rw [hu] at hrun
    simp at hrun
  · obtain ⟨-, rfl⟩ : 0 = code ∧ u = t := by simpa using hu.symm.trans hrun
    exact ⟨hnt.after (hbu.over_header hover), hbu.output.buffer_length⟩

end Transfer

/-! ### The loop of `partcopy_func` -/

/-- What the boot loader keeps from one file to the next: the calls of `new_get` so far, the disk, the
globals, and the memory at `BUFFERADDR`. -/
structure BootState where
  calls : Nat
  disk : Content
  info : ImageInfo
  buffer : List Byte

/-- The decoder and its state after each `inflateInit`, call by call, the size of the disk, what lies on
the stack where `alloc` will be, and what the network does while a file is asked for. -/
structure Loader where
  decoder : Inflater
  init : Nat → Nat → decoder.State
  total : Nat
  leftover : Nat → List Byte
  events : Nat → List Byte → List Event

namespace Loader

variable (L : Loader)

def env (call : Nat) (sect : Int) : GetEnv := ⟨L.decoder, L.init call, (sect % 2 ^ 32).toNat, L.total⟩

def begin (sect : Int) (s : BootState) : GetState (L.env s.calls sect).decoder.State :=
  (L.env s.calls sect).start s.disk s.info (L.leftover s.calls) s.buffer

/-- `new_get(name, sect, &sect, 0)` -/
def newGet (name : List Byte) (sect : Int) (s : BootState) : Fate (Got BootState) :=
  match (L.env s.calls sect).run (L.begin sect s) (L.events s.calls name) with
  | none => .fault
  | some (.running _) => .more
  | some (.returned code t) =>
    -- `*endsect` is set at the end of a transfer only
    .done ⟨code, if code = 0 then (t.saveSect : Int).bmod (2 ^ 32) else sect, t.info.files,
      ⟨s.calls + 1, t.disk, t.info, t.buffer⟩⟩

def turn (path : List Byte) (s : CopyState BootState) : Fate (CopyState BootState ⊕ CopyState BootState) :=
  if s.i < s.files then
    (L.newGet (s.counter.name path) s.curr s.env).bind fun got => copyTurn (fun _ _ _ => got) path s
  else .done (.inr s)

/-- The last loop of `partcopy_func`, with the assignments in front of it. -/
def partcopy (path : List Byte) (newStart : Int) (disk : Content) (buffer : List Byte) (fuel : Nat) :
    Fate (CopyState BootState) :=
  Fate.iterate (L.turn path) fuel (CopyState.start newStart ⟨0, disk, ⟨false, false, 1, -1, -1⟩, buffer⟩)

/-- While the file is asked for, its packets come one after the other, and more of them than are needed. -/
structure Delivers (name : List Byte) (sect : Int) (s : BootState) (file : List Byte) (needed : Nat) : Prop where
  enough : needed < deliveries (L.events s.calls name)
  inOrder : ∀ pre e post t, L.events s.calls name = pre ++ e :: post →
    (L.env s.calls sect).run (L.begin sect s) pre = some (.running t) → Served file t e

end Loader

/-- The two loops in front of file `i` of `nb`, whose sectors begin at `sect`. -/
structure Alongside (nb i sect : Nat) (st : RestoreState) (s : CopyState BootState) : Prop where
  content : s.env.disk = st.cp.dev.content
  pos : st.cp.dev.pos = 512 * sect
  curr : s.curr = sect
  bufferRestore : st.buffer.length = TOTALLG
  bufferBoot : s.env.buffer.length = OUTBUFF
  index : s.i = i
  calls : s.env.calls = i
  counter : s.counter = FileCounter.nth i
  told : s.env.info.files = s.files
  count : i = 0 ∧ s.files = 1 ∨ s.files = nb ∧ st.fmax = nb

section Loop

variable {L : Loader} {C : Codec} {relZ : C.inflater.State → List Byte → List Byte → Prop}
  {rel : L.decoder.State → List Byte → List Byte → Prop} {path : List Byte} {fuel nb i sect : Nat}
  {st : RestoreState} {s : CopyState BootState} {calls : List DeflateCall} {p : Part}

theorem Loader.newGet_done {name : List Byte} {sect : Int} {s : BootState}
    {t : GetState L.decoder.State}
    (h : (L.env s.calls sect).run (L.begin sect s) (L.events s.calls name) = some (.returned 0 t)) :
    L.newGet name sect s = .done ⟨0, (t.saveSect : Int).bmod (2 ^ 32), t.info.files,
      ⟨s.calls + 1, t.disk, t.info, t.buffer⟩⟩ := by
  rw [newGet, h]
  simp only [if_true, Nat.cast_zero]

/-- The number of files after a header. -/
theorem ReadAlike.files {header : List Byte} {lg : Nat}
    (h : ReadAlike header lg (if i = 0 then some nb else none)) (info : ImageInfo) :
    (info.read header).files = if i = 0 then (nb : Int) else info.files := by
  change (if existField "BLOCKS" header = true then val "BLOCKS" header else info.files) = _
  rw [h.bootHasBlocks]
  by_cases hi : i = 0
  · rw [if_pos hi] at h
    rw [if_pos hi, if_pos hi]
    exact (if_pos rfl).trans (h.bootBlocks nb rfl)
  · rw [if_neg hi, if_neg hi]
    rfl

/-- The test of the loop of `partcopy_func` in front of a file. -/
theorem Alongside.index_lt (h : Alongside nb i sect st s) (hi : i < nb) : s.i < s.files := by
  rw [h.index]
  rcases h.count with ⟨hzero, hone⟩ | ⟨hcount, -⟩
  · rw [hone, hzero]
    decide
  · rw [hcount]
    exact_mod_cast hi

/-- Behind the first header both know the number of files. -/
theorem Alongside.files_read (h : Alongside nb i sect st s)
    (hread : ReadAlike p.header p.slice.length (if i = 0 then some nb else none)) :
    (s.env.info.read p.header).files = nb ∧ p.blocks.getD st.fmax = nb := by
  rw [hread.files, Part.blocks, hread.restoreBlocks]
  by_cases hzero : i = 0
  · rw [if_pos hzero, if_pos hzero]
    exact ⟨rfl, rfl⟩
  · obtain ⟨hcount, hmax⟩ := h.count.resolve_left fun hc => hzero hc.1
    rw [if_neg hzero, if_neg hzero]
    exact ⟨h.told.trans hcount, hmax⟩

/-- A file in both loops. -/
theorem Alongside.file (h : Alongside nb i sect st s) (hi : i < nb) (hZ : C.inflater.Decodes relZ)
    (hE : L.decoder.Decodes rel) (hfile : FileData calls p) (hr : p.Shaped)
    (hrelZ : relZ C.inflater.init (C.deflate calls) p.output)
    (hrel : rel (L.init i 0) (C.deflate calls) p.output)
    (hread : ReadAlike p.header p.slice.length (if i = 0 then some nb else none))
    (hfuel : (C.deflate calls).length + p.output.length < fuel) (htotal : L.total < 2 ^ 32)
    (hsect : sect + 8 * p.slice.length < 2 ^ 31)
    (hlarge : ∀ g ∈ setBits p.slice, sect + g < L.total)
    (hdelivers : L.Delivers (imageName (cstr path) i) s.curr s.env (C.deflate calls)
      (transferBound (C.deflate calls) p.output)) :
    ∃ st' s', restoreAttempt C.inflater allFull fuel (C.deflate calls) st = some (true, st') ∧
      L.turn path s = .done (.inl s') ∧ Alongside nb (i + 1) (sect + 8 * p.slice.length) st' s' := by
  have hin : (L.env s.env.calls s.curr).inSect = sect := by
    change (s.curr % 2 ^ 32).toNat = sect
    rw [h.curr]
    omega
  have hfit : Fits (L.env s.env.calls s.curr) p :=
    ⟨by rw [hin]; omega, htotal, fun g hg => by rw [hin]; exact hlarge g hg⟩
  have hrel' : rel ((L.env s.env.calls s.curr).init 0) (C.deflate calls) p.output := by
    rw [← h.calls] at hrel
    exact hrel
  have hserved := hdelivers.inOrder
  rw [Loader.begin, h.content] at hserved
  obtain ⟨st', hatt, hbuf', hcontent, -, -, -, hfmax⟩ :=
    restoreAttempt_content hZ hr hfile.sectors h.bufferRestore hrelZ hfuel h.pos
  obtain ⟨st'', hatt', hpos, -, hlive, hend⟩ := boot_restore_part
    (E := L.env s.env.calls s.curr) hZ hE hr
    hfile.sectors hfit hrelZ hrel' s.env.info (L.leftover s.env.calls) h.bufferBoot h.bufferRestore
    (by rw [hin]; exact h.pos) hfuel hserved
  obtain rfl : st' = st'' := congrArg Prod.snd (Option.some.inj (hatt.symm.trans hatt'))
  obtain ⟨t, ht⟩ := hlive hdelivers.enough
  obtain ⟨-, hdisk, hsave⟩ := hend 0 t ht
  obtain ⟨hinfo, hbuffer⟩ := boot_part_info
    (E := L.env s.env.calls s.curr) hE hr hfile.sectors hfit hrel'
    (L.leftover s.env.calls) h.bufferBoot hserved ht
  have hext : p.extent = 8 * p.slice.length :=
    extent_eq (by rw [Part.lg, hread.restoreLg, Option.getD_some])
  have hfiles := h.files_read hread
  rw [← hinfo, ← hfmax] at hfiles
  have hcurr : ((t.saveSect : Int)).bmod (2 ^ 32) = (sect + 8 * p.slice.length : Nat) := by
    rw [hsave, hread.bootLg, hin, Int.bmod_eq_of_le] <;> omega
  have hget : L.newGet (s.counter.name path) s.curr s.env =
      .done ⟨0, (sect + 8 * p.slice.length : Nat), nb,
      ⟨s.env.calls + 1, t.disk, t.info, t.buffer⟩⟩ := by
    have hrun : (L.env s.env.calls s.curr).run (L.begin s.curr s.env)
        (L.events s.env.calls (imageName (cstr path) i)) = some (.returned 0 t) := by
      rw [Loader.begin, h.content]
      exact ht
    rw [h.counter, FileCounter.name_nth, Loader.newGet_done hrun, hcurr, hfiles.1]
  have hin' := h.index_lt hi
  refine ⟨st', ⟨s.i + 1, nb, (sect + 8 * p.slice.length : Nat), s.counter.next,
    ⟨s.env.calls + 1, t.disk, t.info, t.buffer⟩⟩, hatt, ?_, ?_⟩
  · rw [Loader.turn, if_pos hin', hget, Fate.bind_done, copyTurn, if_pos hin']
    rfl
  · exact {
      content := hdisk
      pos := by rw [hpos, hin, hext]
      curr := rfl
      bufferRestore := hbuf'
      bufferBoot := hbuffer
      index := congrArg (· + 1) h.index
      calls := by rw [h.calls]
      counter := by rw [h.counter, FileCounter.next_nth]
      told := hfiles.1
      count := .inr ⟨rfl, hfiles.2⟩ }

/-- The rest of the files. -/
theorem Alongside.files {get : Nat → Nat → Option (List Byte)} {files : List (List DeflateCall)}
    {parts : List Part} (hZ : C.inflater.Decodes relZ)
    (hdefZ : ∀ calls, Finished calls → relZ C.inflater.init (C.deflate calls) (streamInput calls))
    (hE : L.decoder.Decodes rel)
    (hdef : ∀ n calls, Finished calls → rel (L.init n 0) (C.deflate calls) (streamInput calls))
    (hdata : List.Forall₂ FileData files parts) (hne : parts ≠ []) (hnb : nb = i + parts.length)
    (hget : ∀ j, get (i + j) 0 = files[j]?.map C.deflate)
    (hread : ∀ (j : Nat) (p : Part), parts[j]? = some p → p.Shaped ∧
      ReadAlike p.header p.slice.length (if i + j = 0 then some nb else none))
    (hfuel : ∀ calls ∈ files, (C.deflate calls).length + (streamInput calls).length < fuel)
    {turns : Nat} (hturns : parts.length ≤ turns) (htotal : L.total < 2 ^ 32)
    (hsect : sect + 8 * (parts.flatMap Part.slice).length < 2 ^ 31)
    (hlarge : ∀ g ∈ setBits (parts.flatMap Part.slice), sect + g < L.total)
    (hdelivers : ∀ j t calls, Steps (GoesOn (L.turn path)) j s t → files[j]? = some calls →
      L.Delivers (imageName (cstr path) (i + j)) t.curr t.env (C.deflate calls)
      (transferBound (C.deflate calls) (streamInput calls)))
    (h : Alongside nb i sect st s) :
    ∃ st' s', restoreLoop C.inflater allFull fuel get turns i 0 st = some st' ∧
      Steps (GoesOn (L.turn path)) parts.length s s' ∧
      Alongside nb nb (sect + 8 * (parts.flatMap Part.slice).length) st' s' := by
  induction hdata generalizing i sect turns st s with
  | nil => exact absurd rfl hne
  | @cons calls p files parts hfile hdata ih =>
    obtain ⟨turns, rfl⟩ : ∃ m, turns = m + 1 := ⟨turns - 1, by simp at hturns; omega⟩
    rw [List.flatMap_cons, List.length_append] at hsect ⊢
    rw [List.flatMap_cons, setBits_append] at hlarge
    rw [List.length_cons] at hnb hturns
    obtain ⟨hr, hheader⟩ := hread 0 p rfl
    have hin := hfile.input
    have hrelZ := hdefZ calls hfile.finished
    have hrel := hdef i calls hfile.finished
    have hlt := hfuel calls List.mem_cons_self
    have hdel := hdelivers 0 s calls (.zero s) rfl
    rw [hin] at hrelZ hrel hlt hdel
    obtain ⟨st1, s1, hatt, hturn, h1⟩ :=
      h.file (by omega) hZ hE hfile hr hrelZ hrel hheader hlt htotal (by omega)
      (fun g hg => hlarge g (List.mem_append_left _ hg)) hdel
    have hhead : get i 0 = some (C.deflate calls) := hget 0
    obtain ⟨-, hmax⟩ := h1.count.resolve_left (by simp)
    cases hparts : parts with
    | nil =>
      subst hparts
      refine ⟨st1, s1, ?_, .succ hturn (.zero _), ?_⟩
      · have hstop : st1.fmax ≠ -1 ∧ (i + 1 : Int) ≥ st1.fmax := by
          rw [List.length_nil] at hnb
          omega
        simp only [restoreLoop, hhead, hatt, Option.bind_some, if_true, if_pos hstop]
      · rw [List.flatMap_nil, List.length_nil, Nat.add_zero]
        rwa [show i + 1 = nb by rw [hnb]; rfl] at h1
    | cons q qs =>
      rw [← hparts]
      have hpos : 0 < parts.length := by rw [hparts]; exact Nat.succ_pos _
      obtain ⟨st', s', hloop, hsteps, h'⟩ := ih (List.ne_nil_of_length_pos hpos) (by omega)
        (fun j => by rw [Nat.add_assoc, Nat.add_comm 1 j]; exact hget (j + 1))
        (fun j q hq => by
          have := hread (j + 1) q hq
          rwa [show i + (j + 1) = i + 1 + j by omega] at this)
        (fun c hc => hfuel c (List.mem_cons_of_mem _ hc)) (Nat.le_of_succ_le_succ hturns) (by omega)
        (fun g hg => by
          have := hlarge _ (List.mem_append_right _ (List.mem_map_of_mem hg))
          omega)
        (fun j t c hsteps hc => by
          rw [show i + 1 + j = i + (j + 1) by omega]
          exact hdelivers (j + 1) t c (.succ hturn hsteps) hc) h1
      refine ⟨st', s', ?_, .succ hturn hsteps, ?_⟩
      · have hgo : ¬ (st1.fmax ≠ -1 ∧ (i + 1 : Int) ≥ st1.fmax) := by
          rintro ⟨-, hge⟩
          omega
        simp only [restoreLoop, hhead, hatt, Option.bind_some, if_true, if_neg hgo]
        exact hloop
      · rwa [Nat.mul_add, ← Nat.add_assoc]

end Loop

/-- The files of an image are read alike by both. -/
theorem compressVolume_readAlike (io : Nat → Outcome) {options : Option (List Byte)}
    (hopt : NoKeywords options) {info : List Byte} (hinfo : info ∈ imagerInfos) (par : PARAMS)
    (src : Device) :
    ∃ parts, List.Forall₂ FileData (compressVolume io options info par src).files parts ∧
      parts.flatMap Part.slice = par.bitmap ∧ parts.length = blockCount par.bitmap.length ∧
      ∀ (i : Nat) (p : Part), parts[i]? = some p → p.Shaped ∧
        ReadAlike p.header p.slice.length (if i = 0 then some parts.length else none) := by
  obtain ⟨parts, hdata, hslices, hlayout, -⟩ := compressVolume_layout io options hinfo par src
  have hlen : parts.length = blockCount par.bitmap.length := by
    rw [← List.length_map (f := Part.slice), hslices, slicesOf, bitmapSlices_length]
  refine ⟨parts, hdata, ?_, hlen, fun i p hp => ?_⟩
  · rw [List.flatMap_def, hslices, slicesOf_flatten]
  · obtain ⟨hr, hheader⟩ := hlayout i p hp
    refine ⟨hr, ?_⟩
    rw [hheader]
    by_cases hi : i = 0
    · subst hi
      exact readAlike_first hinfo (hopt 0).2 par.nb_sect_lt (hlen ▸ par.nb_lt) hr.slice_le p.slice
    · have hlater := readAlike_later hi info (hopt i).1
        (hopt i).2 par.nb_sect parts.length hr.slice_le p.slice
      rw [fileHeader, if_neg hi] at hlater
      rwa [if_neg hi, if_neg hi]

theorem leave_turn {L : Loader} {path : List Byte} {s : CopyState BootState} (h : ¬ s.i < s.files) :
    Fate.leave (L.turn path) s = .done s := by
  rw [Fate.leave, Loader.turn, if_neg h]
  rfl

/-- The boot loader restores an image whose files are delivered in order as `restore` does: the loop of
`partcopy_func` ends behind the last file, the disk holds what `restore` leaves on its device, and both stand at
the same sector. -/
theorem partcopy_image {L : Loader} {C : Codec} (hC : C.Correct)
    (hL : Codec.Correct ⟨L.decoder, C.deflate⟩) (hinit : ∀ n, L.init n 0 = L.decoder.init)
    (io : Nat → Outcome) {options : Option (List Byte)} (hopt : NoKeywords options)
    {info : List Byte} (hinfo : info ∈ imagerInfos) (par : PARAMS) (src : Device)
    (hbitmap : par.bitmap ≠ []) {sect : Nat} (hsect : sect + 8 * par.bitmap.length < 2 ^ 31)
    (htotal : L.total < 2 ^ 32) (hlarge : ∀ g ∈ setBits par.bitmap, sect + g < L.total)
    (path : List Byte) (mem : Memory) (dev : Device) {buffer : List Byte}
    (hbuf : buffer.length = OUTBUFF) {fuel : Nat}
    (hfuel : imageFuel C (compressVolume io options info par src) ≤ fuel)
    (hdelivers : ∀ n s calls, Steps (GoesOn (L.turn path)) n
      (CopyState.start sect ⟨0, dev.content, ⟨false, false, 1, -1, -1⟩, buffer⟩) s →
      (compressVolume io options info par src).files[n]? = some calls →
      L.Delivers (imageName (cstr path) n) s.curr s.env (C.deflate calls)
      (transferBound (C.deflate calls) (streamInput calls))) :
    ∃ st s, restore C.inflater allFull fuel
      (fetch (imageFiles C (compressVolume io options info par src))) sect mem
        dev = some st ∧
      L.partcopy path sect dev.content buffer (blockCount par.bitmap.length + 1) = .done s ∧
      s.env.disk = st.cp.dev.content ∧ st.cp.dev.pos = 512 * s.curr.toNat ∧
      s.curr = sect + 8 * par.bitmap.length := by
  obtain ⟨relZ, hZ, hdefZ⟩ := hC.follows
  obtain ⟨rel, hE, hdef⟩ := hL.follows
  obtain ⟨parts, hdata, hslices, hlen, hread⟩ := compressVolume_readAlike io hopt hinfo par src
  set image := compressVolume io options info par src
  have hpos := blockCount_pos hbitmap
  have hfiles := hdata.length_eq
  have hsum : ∀ calls ∈ image.files, (C.deflate calls).length + (streamInput calls).length < fuel :=
    fun calls hc => (lt_imageFuel hc).trans_le hfuel
  have hstart : Alongside parts.length 0 sect
      ⟨⟨0, 512 * sect, dev.exec allFull (.seekTo (512 * sect)), 0⟩, -1, mem.buffer, mem.bitmap⟩
      (CopyState.start sect ⟨0, dev.content, ⟨false, false, 1, -1, -1⟩, buffer⟩) :=
    ⟨rfl, rfl, rfl, mem.buffer_length, hbuf, rfl, rfl, rfl, rfl, .inl ⟨rfl, rfl⟩⟩
  have hget : ∀ j, fetch (imageFiles C image) (0 + j) 0 = image.files[j]?.map C.deflate := fun j => by
    simp [fetch, imageFiles]
  rw [← hslices] at hsect hlarge
  obtain ⟨st, s, hloop, hsteps, hend⟩ := hstart.files hZ hdefZ hE
    (fun n calls hc => by rw [hinit]; exact hdef calls hc) hdata
      (List.ne_nil_of_length_pos (by omega))
    (Nat.zero_add _).symm hget (fun j p hp => by rw [Nat.zero_add]; exact hread j p hp)
    hsum (show parts.length ≤ fuel by rw [imageFuel] at hfuel; omega) htotal hsect hlarge
    (fun j t calls hsteps hc => by rw [Nat.zero_add]; exact hdelivers j t calls hsteps hc)
  refine ⟨st, s, hloop, ?_, hend.content, ?_, ?_⟩
  · refine (Fate.iterate_iff (by simp) _ _).mpr ⟨parts.length, by omega, s, hsteps, leave_turn ?_⟩
    obtain ⟨hzero, -⟩ | ⟨hcount, -⟩ := hend.count
    · omega
    · rw [hend.index, hcount]
      exact lt_irrefl _
  · rw [hend.pos, hend.curr, Int.toNat_natCast]
  · rw [hend.curr, hslices]
    push_cast
    rfl

/-! ### A small image -/

theorem run_append_returned {E : GetEnv} {s t : GetState E.decoder.State} {evs : List Event}
    {code : Nat} (h : E.run s evs = some (.returned code t)) (more : List Event) :
    E.run s (evs ++ more) = some (.returned code t) := by
  induction evs generalizing s with
  | nil => cases h
  | cons e es ih =>
    rw [GetEnv.run] at h
    rw [List.cons_append, GetEnv.run]
    obtain ⟨x, hx, h⟩ := Option.bind_eq_some_iff.mp h
    rw [hx, Option.bind_some]
    cases x with
    | running u => exact ih h
    | returned c u => exact h

/-- Behind a complete transfer any number of packets may be on the line. -/
theorem exists_deliveries {E : GetEnv} {s : GetState E.decoder.State} {file : List Byte}
    (h : ∃ evs, (∀ pre e post t, evs = pre ++ e :: post → E.run s pre = some (.running t) →
      Served file t e) ∧ ∃ t, E.run s evs = some (.returned 0 t))
    (needed : Nat) :
    ∃ evs, needed < deliveries evs ∧
      ∀ pre e post t, evs = pre ++ e :: post → E.run s pre = some (.running t) → Served file t e := by
  obtain ⟨evs, hserved, t, ht⟩ := h
  obtain ⟨d, -⟩ := nextPacket_exists file (show (-1 : Int) + 1 < 2 ^ 16 by decide) (.inl rfl)
  set more := List.replicate (needed + 1) (⟨false, some d, 0⟩ : Event) with hmore
  refine ⟨evs ++ more, ?_, fun pre e post u heq hu => ?_⟩
  · rw [deliveries, List.countP_append, hmore, List.countP_replicate]
    simp only [Option.isSome_some, if_true]
    omega
  · rcases List.append_eq_append_iff.mp heq with ⟨c, rfl, -⟩ | ⟨c, hevs, hrest⟩
    · cases (run_append_returned ht c).symm.trans hu
    · cases c with
      | nil =>
        rw [List.append_nil] at hevs
        subst hevs
        cases ht.symm.trans hu
      | cons x c =>
        obtain ⟨rfl, -⟩ := List.cons.inj hrest
        exact hserved pre e c u hevs hu

def oneLoader (evs : List Event) : Loader :=
  ⟨storedDecoder.inflater, fun _ _ => storedDecoder.init, 1000, fun _ => [], fun _ _ => evs⟩

def oneBootState : BootState := ⟨0, fun _ => 0, ⟨false, false, 1, -1, -1⟩, List.replicate OUTBUFF 0⟩

theorem smallImage_delivered :
    ∃ calls evs, smallImage.files = [calls] ∧
      (oneLoader evs).Delivers (imageName (cstr (ascii "P1")) 0) 63 oneBootState (storedDeflate calls)
        (transferBound (storedDeflate calls) (streamInput calls)) := by
  obtain ⟨calls, p, hfiles, hfile, hshape, hslice, -, hlen⟩ := smallImage_file
  have hfit : Fits bootEnv p :=
    ⟨by decide, by decide, by rw [hslice, gappedSectors_setBits]; decide⟩
  obtain ⟨evs, henough, hserved⟩ := exists_deliveries
    (stored_transfer hfile hshape (by omega) hfit ⟨false, false, 1, -1, -1⟩)
    (transferBound (storedDeflate calls) (streamInput calls))
  exact ⟨calls, evs, hfiles, henough, hserved⟩

theorem partcopy_smallImage :
    ∃ evs st s, restore storedCodec.inflater allFull (imageFuel storedCodec smallImage)
        (fetch (imageFiles storedCodec smallImage)) 63 freshMemory (openDevice (fun _ => 0)) = some st ∧
      (oneLoader evs).partcopy (ascii "P1") 63 (fun _ => 0) (List.replicate OUTBUFF 0) 2 = .done s ∧
      s.env.disk = st.cp.dev.content ∧ s.curr = 119 := by
  obtain ⟨calls, evs, hfiles, hdel⟩ := smallImage_delivered
  obtain ⟨st, s, hst, hs, hdisk, -, hcurr⟩ := partcopy_image (L := oneLoader evs) storedCodec_correct
    storedCodec_correct (fun _ => rfl) allFull noKeywords_none nil_mem_imagerInfos gappedSectors
    (openDevice (fun _ => 0x55)) (by decide)
    (show 63 + 8 * gappedSectors.bitmap.length < 2 ^ 31 by decide)
    (show 1000 < 2 ^ 32 by decide)
    (show ∀ g ∈ setBits gappedSectors.bitmap, 63 + g < 1000 by rw [gappedSectors_setBits]; decide) (ascii "P1")
    freshMemory (openDevice (fun _ => 0)) List.length_replicate le_rfl
    (fun n s c hsteps hc => by
      have hget : [calls][n]? = some c := hfiles ▸ hc
      obtain ⟨rfl, rfl⟩ : n = 0 ∧ calls = c := by
        cases n with
        | zero => exact ⟨rfl, by simpa using hget⟩
        | succ n => simp at hget
      cases hsteps
      exact hdel)
  exact ⟨evs, st, s, hst, hs, hdisk, hcurr⟩

end PulseImaging
