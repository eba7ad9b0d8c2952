import PulseImaging.Receive
import PulseImaging.SectorRuns

/-! A file of an image that is received in order. The work that is left decreases with
every packet and every turn in which there is something to do. -/

namespace PulseImaging

/-- The packet an in-order transfer has next: the acknowledgement of the request, then the
blocks of the file. -/
def NextPacket (file : List Byte) (lastblk : Int) (d : Datagram) : Prop :=
  (lastblk = -1 ∧ d.op = 6) ∨
    (0 ≤ lastblk ∧ d.op = 3 ∧ (d.block : Int) = lastblk + 1 ∧
      d.payload = (file.drop (TFTPBLOCK * lastblk.toNat)).take TFTPBLOCK)

/-- There is no time-out, and what arrives is the next packet. -/
def Served {σ : Type} (file : List Byte) (s : GetState σ) (e : Event) : Prop :=
  ¬ (e.tick = true ∧ 10 ≤ s.timeout) ∧ ∀ d, e.poll = some d → NextPacket file s.lastblk d

/-- What has been written: nothing before the header is read, then the sectors of the first
set bits. -/
structure OnDisk {σ : Type} (S : Nat) (p : Part) (disk₀ : Content) (s : GetState σ) : Prop where
  header : s.firstblock = true → s.disk = disk₀ ∧ s.saveSect = S ∧ s.cursor.sect = S
  alloc : s.firstblock = false → s.alloc = zeroPad ALLOCLG p.slice
  saveSect : s.firstblock = false → s.saveSect = ((S + val "ALLOCTABLELG" p.header * 8) % 2 ^ 32).toNat
  disk : s.firstblock = false → s.disk = puts S disk₀ (p.items.take (s.written.length / 512))
  cursor : s.firstblock = false →
    s.cursor = cursorAt S (visitEnd 0 (writes (p.items.take (s.written.length / 512))))

/-- The state of an in-order transfer of `file`, which stands for the output of `p`. -/
structure Boot (E : GetEnv) (rel : E.decoder.State → List Byte → List Byte → Prop) (file : List Byte) (p : Part)
    (disk₀ : Content) (s : GetState E.decoder.State) : Prop where
  channel : Channel s
  output : Output E.decoder s
  ondisk : OnDisk E.inSect p disk₀ s
  accepted : payloads s.accepted = file.take (TFTPBLOCK * s.accepted.length)
  tftpend : s.tftpend = true ↔ file.length < TFTPBLOCK * s.accepted.length
  count : s.accepted.length ≤ file.length / TFTPBLOCK + 1
  slots : s.tftpend = false → ∀ j, s.queue.first ≠ some j →
    (s.queue.slot j).data = [] ∨ (s.queue.slot j).data.length = TFTPBLOCK
  chunk : s.compressedFull = true → s.compressed ≠ []
  stream : s.ending = .no → s.flush = .sync ∧
    ∃ z o, rel s.z z o ∧ z ≠ [] ∧ file = s.fed ++ z ∧ p.output = s.produced ++ o
  ended : s.ending ≠ .no → s.fed = file ∧ s.produced = p.output ∧ s.compressedFull = true ∧
    ∀ j, (s.queue.slot j).data = []

/-- A full output buffer is written before anything else. -/
def Room {σ : Type} (s : GetState σ) : Prop := s.dbufFull = false → s.outPos < OUTBUFF

/-- An upper bound on the turns that still make progress. -/
def work {σ : Type} (file : List Byte) (p : Part) (s : GetState σ) : Nat :=
  (file.length / TFTPBLOCK + 2 - (s.lastblk + 1).toNat) +
    3 * ((file.length - s.fed.length) + (p.output.length - s.produced.length)) +
    (if s.dbufFull then 1 else 0) + (if s.compressedFull then 0 else 1) + (if s.ending = .no then 2 else 0)

/-- A turn that found nothing to do: a packet can be taken, or everything is done. -/
structure Idle {σ : Type} (s : GetState σ) : Prop where
  dbufFull : s.dbufFull = false
  slot : ∃ i, s.queue.getEmpty = some i
  finished : s.tftpend = true → s.ending = .over

section Transfer

variable {E : GetEnv} {rel : E.decoder.State → List Byte → List Byte → Prop} {file : List Byte} {p : Part}
  {disk₀ : Content} {s t : GetState E.decoder.State}

theorem Boot.handed (h : Boot E rel file p disk₀ s) : s.fed ++ s.availIn <+: file := by
  have := h.channel.handed
  rw [h.accepted] at this
  exact this.trans (List.take_prefix _ _)

theorem Boot.availIn_of_ended (h : Boot E rel file p disk₀ s) (hend : s.ending ≠ .no) :
    s.availIn = [] := by
  have hle := h.handed.length_le
  rw [(h.ended hend).1, List.length_append] at hle
  exact List.length_eq_zero_iff.mp (by omega)

theorem Boot.load (h : Boot E rel file p disk₀ s) : Boot E rel file p disk₀ s.load := by
  have hch := h.channel.load
  have hout := h.output.load
  simp only [GetState.load] at hch hout ⊢
  split
  · rename_i hc
    rw [if_pos hc] at hch hout
    obtain ⟨h1, h2, h3, h4, h5⟩ := h.ondisk
    exact ⟨hch, hout, ⟨h1, h2, h3, h4, h5⟩, h.accepted, h.tftpend, h.count, h.slots, h.chunk,
      h.stream, h.ended⟩
  · exact h

theorem load_work (s : GetState E.decoder.State) : work file p s.load = work file p s := by
  simp only [GetState.load]
  split <;> rfl

theorem Boot.filled (h : Boot E rel file p disk₀ s) (hno : s.ending = .no) :
    Boot E rel file p disk₀ s.filled := by
  have hch := h.channel.filled
  have hout := h.output.filled hno
  simp only [GetState.filled] at hch hout ⊢
  split
  · rename_i hc
    rw [if_pos hc] at hch hout
    obtain ⟨h1, h2, h3, h4, h5⟩ := h.ondisk
    exact ⟨hch, hout, ⟨h1, h2, h3, h4, h5⟩, h.accepted, h.tftpend, h.count, h.slots, h.chunk,
      h.stream, h.ended⟩
  · exact h

theorem filled_ending (s : GetState E.decoder.State) : s.used.filled.ending = s.ending := by
  rw [← used_ending s]
  simp only [GetState.filled]
  split <;> rfl

theorem flag_le (b : Bool) : (if b then 1 else 0) ≤ 1 ∧ (if b then 0 else 1) ≤ 1 := by
  cases b <;> simp

theorem filled_room (h : s.outPos ≤ OUTBUFF) : Room s.filled := by
  simp only [GetState.filled]
  split
  · exact fun hc => Bool.noConfusion hc
  · rename_i hne
    exact fun _ => Nat.lt_of_le_of_ne h hne

/-- When all of the file has been given to the decoder the queue is empty. -/
theorem Boot.queue_empty (h : Boot E rel file p disk₀ s) (hno : s.ending = .no)
    (hall : file.length ≤ s.fed.length + s.availIn.length) : ∀ j, (s.queue.slot j).data = [] := by
  obtain ⟨ids, hids, -, heq⟩ := h.channel.queue
  have hlen := congrArg List.length (heq hno)
  have hpay : (payloads s.accepted).length ≤ file.length := by
    rw [h.accepted]
    simp
  have hin : s.availIn.length ≤ s.inflight.length := by
    simp only [GetState.inflight]
    split
    · rename_i hc
      simp [hc.1]
    · exact Nat.le_refl _
  rw [List.length_append, List.length_append] at hlen
  have hnil : s.queue.content ids = [] := List.length_eq_zero_iff.mp (by omega)
  intro j
  by_cases hj : j ∈ ids
  · exact List.flatMap_eq_nil_iff.mp hnil j hj
  · rw [hids.free j hj]

theorem stream_advance (hZ : E.decoder.Decodes rel) {z o : List Byte} (hrel : rel s.z z o)
    (hpre : s.availIn <+: z) (hroom : s.outPos < OUTBUFF) (hfile : file = s.fed ++ z)
    (hout : p.output = s.produced ++ o) :
    rel (s.advance (E.call s)).z (z.drop (E.call s).consumed) (o.drop (E.call s).out.length) ∧
      file = (s.advance (E.call s)).fed ++ z.drop (E.call s).consumed ∧
      p.output = (s.advance (E.call s)).produced ++ o.drop (E.call s).out.length ∧
      (s.advance (E.call s)).fed.length = s.fed.length + (E.call s).consumed := by
  have hn : 0 < OUTBUFF - s.outPos := by omega
  have hle : (E.call s).consumed ≤ s.availIn.length := hZ.consumed_le s.flush hrel hpre hn
  obtain ⟨o', ho'⟩ : (E.call s).out <+: o := hZ.out_prefix s.flush hrel hpre hn
  have hnext := hZ.next s.flush hrel hpre hn
  obtain ⟨z', rfl⟩ := hpre
  refine ⟨hnext, ?_, ?_, ?_⟩
  · change file = s.fed ++ s.availIn.take (E.call s).consumed ++ (s.availIn ++ z').drop
      (E.call s).consumed
    rw [List.append_assoc, ← List.take_append_of_le_length hle, List.take_append_drop]
    exact hfile
  · change p.output = s.produced ++ (E.call s).out ++ o.drop (E.call s).out.length
    rw [← ho'] at hout ⊢
    rw [hout, List.append_assoc]
    exact congrArg (fun l => s.produced ++ ((E.call s).out ++ l)) List.drop_left.symm
  · change (s.fed ++ s.availIn.take (E.call s).consumed).length = _
    rw [List.length_append, List.length_take, Nat.min_eq_left hle]

theorem Boot.not_ended (h : Boot E rel file p disk₀ s) (hne : s.availIn ≠ []) : s.ending = .no := by
  by_contra hend
  exact hne (h.availIn_of_ended hend)

/-- The stream that the input of a call begins. -/
theorem Boot.input (h : Boot E rel file p disk₀ s) (hne : s.availIn ≠ []) :
    s.flush = .sync ∧ ∃ z o, rel s.z z o ∧ s.availIn <+: z ∧ file = s.fed ++ z ∧
      p.output = s.produced ++ o := by
  obtain ⟨hflush, z, o, hrel, -, hfile, hout⟩ := h.stream (h.not_ended hne)
  have hpre : s.availIn <+: z := by
    have := h.handed
    rw [hfile] at this
    exact (List.prefix_append_right_inj _).mp this
  exact ⟨hflush, z, o, hrel, hpre, hfile, hout⟩

/-- With input and room the decoder reports no error. -/
theorem Boot.call_ret (hZ : E.decoder.Decodes rel) (h : Boot E rel file p disk₀ s)
    (hne : s.availIn ≠ []) (hroom : s.outPos < OUTBUFF) :
    (E.call s).ret = .ok ∨ (E.call s).ret = .streamEnd := by
  obtain ⟨hflush, z, o, hrel, hpre, -, -⟩ := h.input hne
  have hn : 0 < OUTBUFF - s.outPos := Nat.sub_pos_of_lt hroom
  rcases hZ.ret_cases s.flush hrel hpre hn with hr | hr | hr
  · exact Or.inl hr
  · exact Or.inr hr
  · rw [hflush] at hr
    exact absurd (hZ.stuck hrel hpre hn hr).1 hne

theorem Boot.advance_output (hZ : E.decoder.Decodes rel) (h : Boot E rel file p disk₀ s)
    (hne : s.availIn ≠ []) (hroom : s.outPos < OUTBUFF) (hfull : s.dbufFull = false) :
    Output E.decoder (s.advance (E.call s)) := by
  obtain ⟨-, z, o, hrel, hpre, -, -⟩ := h.input hne
  have hout := hZ.out_le s.flush hrel hpre (Nat.sub_pos_of_lt hroom)
  exact h.output.advance (h.not_ended hne) hfull hout

/-- The call in which the stream ends. -/
theorem Boot.finished (hZ : E.decoder.Decodes rel) (h : Boot E rel file p disk₀ s)
    (hne : s.availIn ≠ []) (hroom : s.outPos < OUTBUFF) (hfull : s.dbufFull = false)
    (hret : (E.call s).ret = .streamEnd) :
    Boot E rel file p disk₀ (s.advance (E.call s)).finished ∧
      work file p (s.advance (E.call s)).finished < work file p s := by
  have hno := h.not_ended hne
  obtain ⟨-, z, o, hrel, hpre, hfile, hout⟩ := h.input hne
  have hn : 0 < OUTBUFF - s.outPos := Nat.sub_pos_of_lt hroom
  obtain ⟨-, hfile', hout', hlen⟩ := stream_advance hZ hrel hpre hroom hfile hout
  obtain ⟨hzn, hon⟩ := (hZ.end_iff s.flush hrel hpre hn).mp hret
  have hfed : file = (s.advance (E.call s)).fed := by
    rw [hfile']
    exact (congrArg _ hzn).trans (List.append_nil _)
  have hproduced : p.output = (s.advance (E.call s)).produced := by
    rw [hout']
    exact (congrArg _ hon).trans (List.append_nil _)
  have hadv := h.advance_output hZ hne hroom hfull
  have hqueue : ∀ j, (s.queue.slot j).data = [] := by
    refine h.queue_empty hno ?_
    have hle : (E.call s).consumed ≤ s.availIn.length := hZ.consumed_le s.flush hrel hpre hn
    have hall := congrArg List.length hfed
    omega
  obtain ⟨d1, d2, d3, d4, d5⟩ := h.ondisk
  refine ⟨⟨h.channel.finished hne, ?_, ⟨d1, d2, d3, d4, d5⟩, h.accepted, h.tftpend, h.count,
    h.slots, h.chunk, fun hc => Ending.noConfusion hc,
    fun _ => ⟨hfed.symm, hproduced.symm, h.channel.full_of_input hne, hqueue⟩⟩, ?_⟩
  · exact hadv.finished hno ⟨s.z, s.availIn, OUTBUFF - s.outPos, s.flush, hret, rfl⟩
  · have hfl := congrArg List.length hfed
    have hpl := congrArg List.length hproduced
    have hplen : (s.advance (E.call s)).produced.length =
        s.produced.length + (E.call s).out.length := List.length_append
    simp only [work, GetState.finished, hfull, hno, reduceCtorEq, Bool.false_eq_true, if_false,
      if_true]
    change file.length / TFTPBLOCK + 2 - (s.lastblk + 1).toNat + _ + 1 +
      (if s.compressedFull then 0 else 1) + 0 < _
    omega

/-- A call after which the stream goes on. -/
theorem Boot.used (hZ : E.decoder.Decodes rel) (h : Boot E rel file p disk₀ s)
    (hne : s.availIn ≠ []) (hroom : s.outPos < OUTBUFF) (hfull : s.dbufFull = false)
    (hret : (E.call s).ret = .ok) :
    Boot E rel file p disk₀ (s.advance (E.call s)).used := by
  have hno := h.not_ended hne
  obtain ⟨hflush, z, o, hrel, hpre, hfile, hout⟩ := h.input hne
  have hn : 0 < OUTBUFF - s.outPos := Nat.sub_pos_of_lt hroom
  obtain ⟨hrel', hfile', hout', -⟩ := stream_advance hZ hrel hpre hroom hfile hout
  have hz : z.drop (E.call s).consumed ≠ [] := by
    intro hnil
    rw [hnil] at hrel'
    have hend := (hZ.end_iff s.flush hrel hpre hn).mpr ⟨hnil, hZ.trailer hrel'⟩
    exact ZRet.noConfusion (hret.symm.trans hend)
  have hch := h.channel.used (r := E.call s) hne
  have hused := (h.advance_output hZ hne hroom hfull).used
  obtain ⟨d1, d2, d3, d4, d5⟩ := h.ondisk
  simp only [GetState.used] at hch hused ⊢
  split
  · rename_i hnil
    rw [if_pos hnil] at hch hused
    exact ⟨hch, hused, ⟨d1, d2, d3, d4, d5⟩, h.accepted, h.tftpend, h.count, h.slots,
      fun hc => Bool.noConfusion hc, fun _ => ⟨hflush, _, _, hrel', hz, hfile', hout'⟩,
      fun hc => absurd hno hc⟩
  · rename_i hsome
    rw [if_neg hsome] at hch hused
    exact ⟨hch, hused, ⟨d1, d2, d3, d4, d5⟩, h.accepted, h.tftpend, h.count, h.slots, h.chunk,
      fun _ => ⟨hflush, _, _, hrel', hz, hfile', hout'⟩, fun hc => absurd hno hc⟩

/-- `Z_OK` stands for progress in the stream, whatever becomes of the buffers. -/
theorem Boot.used_work (hZ : E.decoder.Decodes rel) (h : Boot E rel file p disk₀ s)
    (hne : s.availIn ≠ []) (hroom : s.outPos < OUTBUFF) (hfull : s.dbufFull = false)
    (hret : (E.call s).ret = .ok) :
    work file p (s.advance (E.call s)).used.filled < work file p s := by
  have hno := h.not_ended hne
  obtain ⟨-, z, o, hrel, hpre, hfile, hout⟩ := h.input hne
  obtain ⟨-, hfile', hout', hlen⟩ := stream_advance hZ hrel hpre hroom hfile hout
  have hpos : 0 < (E.call s).consumed + (E.call s).out.length :=
    hZ.ok_progress s.flush hrel hpre (Nat.sub_pos_of_lt hroom) hret
  have hplen : (s.advance (E.call s)).produced.length =
      s.produced.length + (E.call s).out.length := List.length_append
  have hfl := congrArg List.length hfile'
  have hpl := congrArg List.length hout'
  rw [List.length_append] at hfl hpl
  have hend : (s.advance (E.call s)).used.filled.ending = .no := (filled_ending _).trans hno
  obtain ⟨hwait, -, hsf, hsp, -⟩ := filled_same (s.advance (E.call s))
  have hwork : work file p s = file.length / TFTPBLOCK + 2 - (s.lastblk + 1).toNat +
      3 * (file.length - s.fed.length + (p.output.length - s.produced.length)) + 0 +
      (if s.compressedFull then 0 else 1) + 2 := by
    simp only [work, hfull, hno, Bool.false_eq_true, if_false, if_true]
  have h1 := (flag_le (s.advance (E.call s)).used.filled.dbufFull).1
  have h2 := (flag_le (s.advance (E.call s)).used.filled.compressedFull).2
  rw [hwork, work, hend, if_pos rfl, hsf, hsp, hwait.1]
  change file.length / TFTPBLOCK + 2 - (s.lastblk + 1).toNat + _ + _ + _ + 2 < _
  omega

theorem Boot.inflateTurn (hZ : E.decoder.Decodes rel) (h : Boot E rel file p disk₀ s)
    (hne : s.availIn ≠ []) (hroom : s.outPos < OUTBUFF) (hfull : s.dbufFull = false) :
    ∃ t, E.inflateTurn s = .go t ∧ Boot E rel file p disk₀ t ∧ Room t ∧ SameWait s t ∧
      work file p t < work file p s := by
  rcases inflateTurn_cases E s with ⟨hret, hf⟩ | ⟨hret, hf⟩ | ⟨hret, hok, -⟩
  · obtain ⟨hboot, hwork⟩ := h.finished hZ hne hroom hfull hret
    exact ⟨_, hf, hboot, fun hc => Bool.noConfusion hc, ⟨rfl, rfl⟩, hwork⟩
  · have hok := (h.call_ret hZ hne hroom).resolve_right hret
    have hused := h.used hZ hne hroom hfull hok
    have hno : (s.advance (E.call s)).used.ending = .no :=
      (used_ending _).trans (h.not_ended hne)
    exact ⟨_, hf, hused.filled hno, filled_room hused.output.outPos_le, (filled_same _).1,
      h.used_work hZ hne hroom hfull hok⟩
  · rcases h.call_ret hZ hne hroom with hr | hr
    · exact absurd hr hok
    · exact absurd hr hret

theorem getEmpty_isSome {q : LinkedQueue NB_BUF Byte} (h : ∀ j, (q.slot j).data = []) :
    ∃ i, q.getEmpty = some i := by
  refine Option.isSome_iff_exists.mp (List.find?_isSome.mpr ⟨⟨0, by decide⟩, List.mem_finRange _, ?_⟩)
  simp [h]

/-- Ten blocks, the first of which may have been cut, are enough for a chunk. -/
theorem Boot.slot_free (h : Boot E rel file p disk₀ s) (hend : s.tftpend = false)
    {ids : List (Fin NB_BUF)} (hids : s.queue.Holds ids)
    (hdata : ∀ i ∈ ids, (s.queue.slot i).data ≠ []) (hlt : (s.queue.content ids).length < INBUFF) :
    ∃ i, s.queue.getEmpty = some i := by
  by_contra hnone
  have hnone : s.queue.getEmpty = none := by
    rw [Option.eq_none_iff_forall_not_mem]
    exact fun i hi => hnone ⟨i, hi⟩
  have hlen := hids.full hnone
  cases ids with
  | nil => simp [NB_BUF] at hlen
  | cons f ids =>
    have hblock : ∀ i ∈ ids, TFTPBLOCK ≤ (s.queue.slot i).data.length := by
      intro i hi
      have hne : i ≠ f := fun he => (List.nodup_cons.mp hids.nodup).1 (he ▸ hi)
      rcases h.slots hend i (by rw [hids.first_eq]; simpa using Ne.symm hne) with hnil | hfull
      · exact absurd hnil (hdata i (by simp [hi]))
      · exact hfull.ge
    have hsum := LinkedQueue.le_content_length hblock
    rw [LinkedQueue.content, List.flatMap_cons, List.length_append, ← LinkedQueue.content] at hlt
    have hten : 10 ≤ ids.length + 1 := hlen
    have hblocks : 1456 * ids.length ≤ (s.queue.content ids).length := hsum
    have hless : (s.queue.slot f).data.length + (s.queue.content ids).length < 8192 := hlt
    omega

theorem Boot.collect (h : Boot E rel file p disk₀ s) (hroom : Room s) (hfull : s.dbufFull = false)
    (hnil : s.availIn = []) (hloaded : s.ending = .no → s.compressedFull = false) :
    ∃ t, s.collect = some t ∧ Boot E rel file p disk₀ t ∧ Room t ∧ SameWait s t ∧
      (work file p t < work file p s ∨ t = s ∧ Idle s) := by
  obtain ⟨ids, hids, hdata, heq⟩ := h.channel.queue
  rcases collect_total hids with ⟨hc, hwhy⟩ | ⟨hcf, q, ids', m, hpos, hle, hd, hq, hcont, hne, hc⟩
  · refine ⟨s, hc, h, hroom, ⟨rfl, rfl⟩, Or.inr ⟨rfl, ?_⟩⟩
    by_cases hno : s.ending = .no
    · have hcf := hloaded hno
      rcases hwhy with hw | ⟨hlt, hempty⟩
      · exact Bool.noConfusion (hw.symm.trans hcf)
      · have hend : s.tftpend = false := by
          by_contra hend
          have hend : s.tftpend = true := by simpa using hend
          obtain ⟨-, z, o, -, hz, hfile, -⟩ := h.stream hno
          have hpay := heq hno
          rw [hempty hend, h.accepted, List.take_of_length_le (h.tftpend.mp hend).le] at hpay
          have hin : s.inflight = [] := by simp [GetState.inflight, hnil, hcf]
          rw [hin, List.append_nil, List.append_nil] at hpay
          rw [hpay] at hfile
          exact hz (List.self_eq_append_right.mp hfile)
        exact ⟨hfull, h.slot_free hend hids (hdata hend) hlt,
          fun hc => Bool.noConfusion (hend.symm.trans hc)⟩
    · refine ⟨hfull, getEmpty_isSome (h.ended hno).2.2.2, fun _ => ?_⟩
      rcases h.output.stage with ⟨hend, -, -⟩ | ⟨-, -, hd, -, -⟩ | ⟨hend, -, -, -⟩
      · exact absurd hend hno
      · exact Bool.noConfusion (hd.symm.trans hfull)
      · exact hend
  · have hno : s.ending = .no := by
      by_contra hno
      exact Bool.noConfusion (hcf.symm.trans (h.ended hno).2.2.1)
    obtain ⟨d1, d2, d3, d4, d5⟩ := h.ondisk
    refine ⟨_, hc, ⟨h.channel.collect hc, h.output.collect hids hc, ⟨d1, d2, d3, d4, d5⟩,
      h.accepted, h.tftpend,
      h.count, fun hend => ?_, fun _ hemp => ?_, h.stream, fun hc => absurd hno hc⟩, hroom,
      ⟨rfl, rfl⟩, Or.inl ?_⟩
    · exact LinkedQueue.drain_data (P := fun d => d = [] ∨ d.length = TFTPBLOCK) (Or.inl rfl)
        (h.slots hend) hd
    · have hlen := congrArg List.length hemp
      rw [List.length_take, List.length_nil] at hlen
      omega
    · simp only [work, hcf, Bool.false_eq_true, if_false, if_true]
      omega

theorem Boot.timeout (h : Boot E rel file p disk₀ s) (n : Nat) :
    Boot E rel file p disk₀ { s with timeout := n } := by
  obtain ⟨d1, d2, d3, d4, d5⟩ := h.ondisk
  exact ⟨h.channel.congr rfl rfl rfl rfl rfl rfl rfl rfl id,
    h.output.congr rfl rfl rfl rfl rfl rfl rfl rfl rfl,
    ⟨d1, d2, d3, d4, d5⟩, h.accepted, h.tftpend, h.count, h.slots, h.chunk, h.stream, h.ended⟩

theorem Boot.oack (h : Boot E rel file p disk₀ s) (hl : s.lastblk = -1) :
    Boot E rel file p disk₀ { s with lastblk := 0 } ∧
      work file p { s with lastblk := 0 } < work file p s := by
  have hnil : s.accepted = [] := by
    rcases h.channel.lastblk with hl' | hl'
    · omega
    · exact hl'.2
  obtain ⟨c1, c2, c3, c4, -⟩ := h.channel
  obtain ⟨d1, d2, d3, d4, d5⟩ := h.ondisk
  refine ⟨⟨⟨c1, c2, c3, c4, Or.inl (by simp [hnil])⟩,
    h.output.congr rfl rfl rfl rfl rfl rfl rfl rfl rfl,
    ⟨d1, d2, d3, d4, d5⟩, h.accepted, h.tftpend, h.count, h.slots, h.chunk, h.stream, h.ended⟩, ?_⟩
  have h1 : ((0 : Int) + 1).toNat = 1 := rfl
  have h2 : ((-1 : Int) + 1).toNat = 0 := rfl
  simp only [work, hl, h1, h2]
  generalize file.length / TFTPBLOCK = blocks
  omega

theorem Boot.accept (h : Boot E rel file p disk₀ s) {i : Fin NB_BUF} {d : Datagram}
    (hi : s.queue.getEmpty = some i) (hend : s.tftpend = false) (hl : 0 ≤ s.lastblk)
    (hblock : (d.block : Int) = s.lastblk + 1)
    (hpay : d.payload = (file.drop (TFTPBLOCK * s.lastblk.toNat)).take TFTPBLOCK) :
    Boot E rel file p disk₀ (s.accept i d) ∧ work file p (s.accept i d) < work file p s := by
  have hlast : s.lastblk = s.accepted.length := by
    rcases h.channel.lastblk with hl' | hl'
    · exact hl'
    · omega
  have hnat : s.lastblk.toNat = s.accepted.length := by omega
  have hle : TFTPBLOCK * s.accepted.length ≤ file.length := by
    by_contra hc
    exact Bool.noConfusion (hend.symm.trans (h.tftpend.mpr (by omega)))
  have hdiv : s.accepted.length ≤ file.length / TFTPBLOCK :=
    (Nat.le_div_iff_mul_le (by decide)).mpr (by rwa [Nat.mul_comm])
  have hplen : d.payload.length = min TFTPBLOCK (file.length - TFTPBLOCK * s.accepted.length) := by
    rw [hpay, hnat, List.length_take, List.length_drop]
  have hacc : (s.accept i d).accepted.length = s.accepted.length + 1 := by
    simp [GetState.accept]
  have hmul : TFTPBLOCK * (s.accepted.length + 1) = TFTPBLOCK * s.accepted.length + TFTPBLOCK :=
    Nat.mul_succ _ _
  have hdata : ∀ j, ((s.accept i d).queue.slot j).data = if j = i then d.payload
      else (s.queue.slot j).data := fun j => LinkedQueue.push_data s.queue i d.payload j
  obtain ⟨ids, hids, -⟩ := h.channel.queue
  obtain ⟨d1, d2, d3, d4, d5⟩ := h.ondisk
  refine ⟨⟨h.channel.accept hi hend hblock (by omega),
    h.output.congr rfl rfl rfl rfl rfl rfl rfl rfl rfl,
    ⟨d1, d2, d3, d4, d5⟩, ?_, ?_, by omega, fun hmore j hj => ?_, h.chunk, h.stream, fun hno => ?_⟩,
    ?_⟩
  · rw [hacc, hmul, List.take_add, ← h.accepted, ← hnat, ← hpay]
    simp [GetState.accept, payloads]
  · rw [hacc, hmul]
    simp only [GetState.accept, decide_eq_true_eq, hplen]
    omega
  · have hlong : ¬ d.payload.length < TFTPBLOCK := by simpa [GetState.accept] using hmore
    rw [hdata]
    split
    · have := d.payload_le
      exact Or.inr (by omega)
    · refine h.slots hend j (fun hfirst => hj ?_)
      have hsome : ∃ k, s.queue.last = some k := by
        cases ids with
        | nil =>
          rw [hids.first_eq] at hfirst
          simp at hfirst
        | cons a l =>
          rw [hids.last_eq]
          exact ⟨_, List.getLast?_eq_some_getLast (by simp)⟩
      obtain ⟨k, hk⟩ := hsome
      change (s.queue.push i d.payload).first = some j
      rw [← hfirst]
      simp [LinkedQueue.push, hk, LinkedQueue.setSlot]
  · obtain ⟨hfed, hprod, hcf, hempty⟩ := h.ended hno
    refine ⟨hfed, hprod, hcf, fun j => ?_⟩
    have hall : file.length ≤ TFTPBLOCK * s.accepted.length := by
      have hh := h.channel.handed.length_le
      rw [h.accepted, List.length_append, hfed, List.length_take] at hh
      omega
    have hnil : d.payload = [] := List.length_eq_zero_iff.mp (by omega)
    rw [hdata, hnil, hempty j]
    simp
  · have hw : ((s.accept i d).lastblk + 1).toNat = (s.lastblk + 1).toNat + 1 := by
      change ((d.block : Int) + 1).toNat = _
      omega
    simp only [work, hw]
    change file.length / TFTPBLOCK + 2 - ((s.lastblk + 1).toNat + 1) + 3 *
      (file.length - s.fed.length +
      (p.output.length - s.produced.length)) + (if s.dbufFull then 1
      else 0) + (if s.compressedFull then 0 else 1) +
      (if s.ending = .no then 2 else 0) < _
    omega

theorem Boot.poll (h : Boot E rel file p disk₀ s) (hroom : Room s) {d : Option Datagram}
    (hd : ∀ d', d = some d' → NextPacket file s.lastblk d') :
    (∃ t, s.poll d = .go t ∧ Boot E rel file p disk₀ t ∧ Room t ∧ work file p t ≤ work file p s ∧
      (Idle s → d.isSome = true → work file p t < work file p s)) ∨
    (∃ t, s.poll d = .ret 0 t ∧ Boot E rel file p disk₀ t ∧ t.ending = .over) := by
  have hstay (hidle : Idle s → d.isSome = true → False) (hp : s.poll d = .go s) :
      ∃ t, s.poll d = .go t ∧ Boot E rel file p disk₀ t ∧ Room t ∧ work file p t ≤ work file p s ∧
        (Idle s → d.isSome = true → work file p t < work file p s) :=
    ⟨s, hp, h, hroom, Nat.le_refl _, fun hi hs => (hidle hi hs).elim⟩
  have htaken {t : GetState E.decoder.State} (hp : s.poll d = t.outer)
      (ht : Boot E rel file p disk₀ t) (hr : Room t)
      (hw : work file p t < work file p s) :
      (∃ t, s.poll d = .go t ∧ Boot E rel file p disk₀ t ∧ Room t ∧ work file p t ≤ work file p s ∧
        (Idle s → d.isSome = true → work file p t < work file p s)) ∨
      (∃ t, s.poll d = .ret 0 t ∧ Boot E rel file p disk₀ t ∧ t.ending = .over) := by
    by_cases he : t.ending = .over
    · exact Or.inr ⟨t, hp.trans (if_pos he), ht, he⟩
    · exact Or.inl ⟨t, hp.trans (if_neg he), ht, hr, hw.le, fun _ _ => hw⟩
  by_cases hfull : s.dbufFull = true
  · refine Or.inl (hstay (fun hi _ => Bool.noConfusion (hfull.symm.trans hi.dbufFull)) ?_)
    simp [GetState.poll, hfull]
  · cases hslot : s.queue.getEmpty with
    | none =>
      refine Or.inl (hstay (fun hi _ => ?_) (by simp [GetState.poll, hfull, hslot]))
      obtain ⟨i, hi⟩ := hi.slot
      simp [hslot] at hi
    | some i =>
      by_cases hend : s.tftpend = true
      · have hp : s.poll d = s.outer := by simp [GetState.poll, hfull, hslot, hend]
        by_cases he : s.ending = .over
        · exact Or.inr ⟨s, hp.trans (if_pos he), h, he⟩
        · exact Or.inl (hstay (fun hi _ => he (hi.finished hend)) (hp.trans (if_neg he)))
      · cases d with
        | none => exact Or.inl (hstay (fun _ hs => Bool.noConfusion hs)
            (by simp [GetState.poll, hfull, hslot, hend]))
        | some d =>
          have hp : s.poll (some d) = (s.receive i d).andThen GetState.outer := by
            simp [GetState.poll, hfull, hslot, hend]
          rcases hd d rfl with ⟨hl, h6⟩ | ⟨hl, h3, hblock, hpay⟩
          · have hrec : s.receive i d = .go { s with timeout := 0, lastblk := 0 } := by
              simp [GetState.receive, h6, hl]
            rw [hrec] at hp
            obtain ⟨hboot, hwork⟩ := (h.timeout 0).oack hl
            exact htaken hp hboot hroom hwork
          · have hrec : s.receive i d = .go (({ s with timeout := 0 }).accept i d) := by
              simp [GetState.receive, h3, hblock]
            rw [hrec] at hp
            obtain ⟨hboot, hwork⟩ := (h.timeout 0).accept hslot (by simpa using hend) hl hblock hpay
            exact htaken hp hboot hroom hwork

end Transfer

end PulseImaging
