import PulseImaging.NewGet
import PulseImaging.StoredStream

/-! What `new_get` hands to `inflate` and to the write loop, whatever is received. -/

namespace PulseImaging

variable {σ : Type}

def Flow.Sat (G A : GetState σ → Prop) (R : Nat → GetState σ → Prop) : Flow σ → Prop
  | .go s => G s
  | .again s => A s
  | .ret code s => R code s

theorem Flow.Sat.andThen {G G' A : GetState σ → Prop} {R : Nat → GetState σ → Prop} {f : Flow σ}
    {k : GetState σ → Flow σ} (h : f.Sat G A R) (hk : ∀ s, G s → (k s).Sat G' A R) :
    (f.andThen k).Sat G' A R := by
  cases f with
  | go s => exact hk s h
  | again s => exact h
  | ret code s => exact h

theorem body_cases {E : GetEnv} {past : Byte} {s : GetState E.decoder.State}
    {f : Flow E.decoder.State} (h : E.body past s = some f) :
    (s.dbufFull = true ∧ ∃ t, s.writeBuffer E.total past = some t ∧ f = .go t) ∨
    (s.dbufFull = false ∧ s.load.outPos < OUTBUFF ∧ s.load.availIn ≠ [] ∧ f = E.inflateTurn s.load) ∨
    (s.dbufFull = false ∧ ¬ (s.load.outPos < OUTBUFF ∧ s.load.availIn ≠ []) ∧
      ∃ t, s.load.collect = some t ∧ f = .go t) := by
  simp only [GetEnv.body] at h
  split at h
  · rename_i hd
    obtain ⟨t, ht, rfl⟩ := Option.map_eq_some_iff.mp h
    exact Or.inl ⟨hd, t, ht, rfl⟩
  · rename_i hd
    have hd : s.dbufFull = false := by simpa using hd
    split at h
    · rename_i hc
      exact Or.inr (Or.inl ⟨hd, hc.1, hc.2, (Option.some.inj h).symm⟩)
    · rename_i hc
      obtain ⟨t, ht, rfl⟩ := Option.map_eq_some_iff.mp h
      exact Or.inr (Or.inr ⟨hd, hc, t, ht, rfl⟩)

/-! ### From the packets to the decoder -/

def payloads (ds : List Datagram) : List Byte := ds.flatMap Datagram.payload

/-- The bytes between the queue and those the decoder has consumed. -/
def GetState.inflight (s : GetState σ) : List Byte :=
  if s.availIn = [] ∧ s.compressedFull then s.compressed else s.availIn

/-- The bytes of the accepted packets, which are numbered from 1, are consumed, in flight
or in the queue, until the stream has ended. -/
structure Channel (s : GetState σ) : Prop where
  idle : s.compressedFull = false → s.availIn = []
  queue : ∃ ids, s.queue.Holds ids ∧ (s.tftpend = false → ∀ i ∈ ids, (s.queue.slot i).data ≠ []) ∧
    (s.ending = .no → payloads s.accepted = s.fed ++ s.inflight ++ s.queue.content ids)
  handed : s.fed ++ s.availIn <+: payloads s.accepted
  blocks : s.accepted.map Datagram.block = List.range' 1 s.accepted.length
  lastblk : s.lastblk = s.accepted.length ∨ s.lastblk = -1 ∧ s.accepted = []

theorem Channel.congr {s t : GetState σ} (h : Channel s) (hq : t.queue = s.queue)
    (hc : t.compressed = s.compressed) (hcf : t.compressedFull = s.compressedFull)
    (ha : t.availIn = s.availIn) (hf : t.fed = s.fed) (hac : t.accepted = s.accepted)
    (hl : t.lastblk = s.lastblk) (ht : t.tftpend = s.tftpend)
    (he : t.ending = .no → s.ending = .no) : Channel t := by
  obtain ⟨ids, hids, hne, heq⟩ := h.queue
  have hin : t.inflight = s.inflight := by rw [GetState.inflight, GetState.inflight, ha, hcf, hc]
  constructor
  · rw [hcf, ha]
    exact h.idle
  · rw [hq, ht, hac, hf, hin]
    exact ⟨ids, hids, hne, fun hn => heq (he hn)⟩
  · rw [hf, ha, hac]
    exact h.handed
  · rw [hac]
    exact h.blocks
  · rw [hl, hac]
    exact h.lastblk

theorem Channel.restart (E : GetEnv) (s : GetState E.decoder.State) : Channel (E.restart s) where
  idle := fun _ => rfl
  queue := ⟨[], LinkedQueue.empty_holds, by simp, fun _ => rfl⟩
  handed := List.prefix_rfl
  blocks := rfl
  lastblk := Or.inr ⟨rfl, rfl⟩

theorem Channel.start (E : GetEnv) (disk : Content) (info : ImageInfo) (alloc buffer : List Byte) :
    Channel (E.start disk info alloc buffer) where
  idle := fun _ => rfl
  queue := ⟨[], LinkedQueue.empty_holds, by simp, fun _ => rfl⟩
  handed := List.prefix_rfl
  blocks := rfl
  lastblk := Or.inr ⟨rfl, rfl⟩

theorem Channel.load {s : GetState σ} (h : Channel s) : Channel s.load := by
  simp only [GetState.load]
  split
  · rename_i hc
    obtain ⟨hno, hfull, hnil⟩ := hc
    obtain ⟨ids, hids, hne, heq⟩ := h.queue
    have hin : s.inflight = s.compressed := by simp [GetState.inflight, hnil, hfull]
    have heq := heq hno
    rw [hin] at heq
    constructor
    · intro hf
      exact Bool.noConfusion (hfull.symm.trans hf)
    · refine ⟨ids, hids, hne, fun _ => ?_⟩
      have hin' : ({ s with availIn := s.compressed } : GetState σ).inflight = s.compressed := by
        simp [GetState.inflight]
      rw [hin']
      exact heq
    · exact heq ▸ List.prefix_append _ _
    · exact h.blocks
    · exact h.lastblk
  · exact h

theorem Channel.full_of_input {s : GetState σ} (h : Channel s) (hne : s.availIn ≠ []) :
    s.compressedFull = true := by
  by_contra hf
  exact hne (h.idle (by simpa using hf))

/-- The bytes given to the decoder are the same before and after a call. -/
theorem handed_advance (s : GetState σ) (r : Inflated σ) :
    (s.advance r).fed ++ (s.advance r).availIn = s.fed ++ s.availIn := by
  simp [GetState.advance]

theorem Channel.finished {s : GetState σ} {r : Inflated σ} (h : Channel s) (hne : s.availIn ≠ []) :
    Channel (s.advance r).finished := by
  have hfull := h.full_of_input hne
  obtain ⟨ids, hids, hdata, -⟩ := h.queue
  refine ⟨fun hf => Bool.noConfusion (hfull.symm.trans hf), ⟨ids, hids, hdata, fun hn => ?_⟩, ?_,
    h.blocks, h.lastblk⟩
  · exact Ending.noConfusion hn
  · change (s.advance r).fed ++ (s.advance r).availIn <+: payloads s.accepted
    rw [handed_advance]
    exact h.handed

theorem Channel.used {s : GetState σ} {r : Inflated σ} (h : Channel s) (hne : s.availIn ≠ []) :
    Channel (s.advance r).used := by
  have hfull := h.full_of_input hne
  obtain ⟨ids, hids, hdata, heq⟩ := h.queue
  have hhanded : (s.advance r).fed ++ (s.advance r).availIn <+: payloads s.accepted := by
    rw [handed_advance]
    exact h.handed
  have hrest : s.ending = .no →
      payloads s.accepted = (s.advance r).fed ++ (s.advance r).availIn ++ s.queue.content ids := by
    intro hn
    rw [handed_advance, heq hn]
    simp [GetState.inflight, hne]
  simp only [GetState.used]
  split
  · rename_i hnil
    refine ⟨fun _ => hnil, ⟨ids, hids, hdata, fun hn => ?_⟩, hhanded, h.blocks, h.lastblk⟩
    have hin : ({ s.advance r with compressedFull := false } : GetState σ).inflight =
        (s.advance r).availIn := by
      simp [GetState.inflight]
    rw [hin]
    exact hrest hn
  · rename_i hsome
    refine ⟨fun hf => Bool.noConfusion (hfull.symm.trans hf), ⟨ids, hids, hdata, fun hn => ?_⟩,
      hhanded, h.blocks, h.lastblk⟩
    have hin : (s.advance r).inflight = (s.advance r).availIn := by simp [GetState.inflight, hsome]
    rw [hin]
    exact hrest hn

theorem Channel.filled {s : GetState σ} (h : Channel s) : Channel s.filled := by
  simp only [GetState.filled]
  split
  · exact h.congr rfl rfl rfl rfl rfl rfl rfl rfl id
  · exact h

theorem inflateTurn_cases (E : GetEnv) (s : GetState E.decoder.State) :
    ((E.call s).ret = .streamEnd ∧ E.inflateTurn s = .go (s.advance (E.call s)).finished) ∨
    ((E.call s).ret ≠ .streamEnd ∧ E.inflateTurn s = .go (s.advance (E.call s)).used.filled) ∨
    ((E.call s).ret ≠ .streamEnd ∧ (E.call s).ret ≠ .ok ∧
      E.inflateTurn s = .again (s.advance (E.call s))) := by
  simp only [GetEnv.inflateTurn]
  by_cases hb : (E.call s).ret = .bufError ∧ (s.advance (E.call s)).outPos = OUTBUFF
  · simp [hb]
  · simp only [hb, if_false]
    by_cases he : (E.call s).ret = .streamEnd
    · simp [he]
    · by_cases hok : (E.call s).ret = .ok <;> simp [he, hok]

theorem totLg_eq {s : GetState σ} {ids : List (Fin NB_BUF)} (h : s.queue.Holds ids) :
    s.totLg = some (s.queue.content ids).length := by
  cases hf : s.queue.first with
  | none =>
    have hids : ids = [] := by
      rw [h.first_eq] at hf
      simpa using hf
    simp [GetState.totLg, hf, hids, LinkedQueue.content]
  | some f => simp only [GetState.totLg, hf, h.total hf]

theorem first_isSome {q : LinkedQueue NB_BUF Byte} {ids : List (Fin NB_BUF)} (h : q.Holds ids)
    (hne : q.content ids ≠ []) : q.first.isSome = true := by
  cases ids with
  | nil => exact absurd rfl hne
  | cons i ids => rw [h.first_eq, List.head?_cons, Option.isSome_some]

/-- There is not enough for a chunk, or the front of the queue is taken. -/
theorem collect_total {s : GetState σ} {ids : List (Fin NB_BUF)} (h : s.queue.Holds ids) :
    (s.collect = some s ∧ (s.compressedFull = true ∨
      (s.queue.content ids).length < INBUFF ∧ (s.tftpend = true → s.queue.content ids = []))) ∨
    (s.compressedFull = false ∧ ∃ q ids' m, 0 < m ∧ m ≤ (s.queue.content ids).length ∧
      LinkedQueue.drain (NB_BUF + 1) s.queue m [] = some (q, (s.queue.content ids).take m) ∧ q.Holds ids' ∧
      q.content ids' = (s.queue.content ids).drop m ∧
      ((∀ i ∈ ids, (s.queue.slot i).data ≠ []) → ∀ i ∈ ids', (q.slot i).data ≠ []) ∧
      s.collect =
        some { s with queue := q, compressed := (s.queue.content ids).take m, compressedFull := true }) := by
  rw [GetState.collect, totLg_eq h, Option.bind_some]
  by_cases hc : (INBUFF ≤ (s.queue.content ids).length ∨ s.tftpend ∧
    0 < (s.queue.content ids).length) ∧ s.queue.first.isSome
  · rw [if_pos hc]
    cases hfull : s.compressedFull with
    | true => exact Or.inl ⟨rfl, Or.inl rfl⟩
    | false =>
      let m := min (if s.tftpend then (s.queue.content ids).length else INBUFF) INBUFF
      have hle : m ≤ (s.queue.content ids).length := by
        simp only [m]
        split
        · exact Nat.min_le_left _ _
        · rename_i hend
          rcases hc.1 with hl | hl
          · exact (Nat.min_le_left _ _).trans hl
          · exact absurd hl.1 hend
      have hpos : 0 < m := by
        have hin : 0 < INBUFF := by decide
        have : 0 < (s.queue.content ids).length := by
          rcases hc.1 with hl | hl
          · omega
          · exact hl.2
        simp only [m]
        split <;> omega
      obtain ⟨q, ids', hd, hq, hcont, hdata⟩ := h.drain hle
        (h.length_le.trans (Nat.le_succ _))
      rw [List.nil_append] at hd
      refine Or.inr ⟨rfl, q, ids', m, hpos, hle, hd, hq, hcont, hdata, ?_⟩
      rw [if_neg (by simp), hd]
      rfl
  · rw [if_neg hc]
    refine Or.inl ⟨rfl, Or.inr ⟨?_, fun hend => ?_⟩⟩
    · by_contra hlen
      have hin : 0 < INBUFF := by decide
      have hne : s.queue.content ids ≠ [] := fun hnil => by
        rw [hnil, List.length_nil] at hlen
        omega
      exact hc ⟨Or.inl (by omega), first_isSome h hne⟩
    · by_contra hne
      exact hc ⟨Or.inr ⟨hend, List.length_pos_iff.mpr hne⟩, first_isSome h hne⟩

theorem collect_cases {s t : GetState σ} {ids : List (Fin NB_BUF)} (h : s.queue.Holds ids)
    (ht : s.collect = some t) :
    t = s ∨ (s.compressedFull = false ∧ ∃ q ids' m, q.Holds ids' ∧
      q.content ids' = (s.queue.content ids).drop m ∧
      ((∀ i ∈ ids, (s.queue.slot i).data ≠ []) → ∀ i ∈ ids', (q.slot i).data ≠ []) ∧
      t = { s with queue := q, compressed := (s.queue.content ids).take m, compressedFull := true }) := by
  rcases collect_total h with ⟨he, -⟩ | ⟨hfull, q, ids', m, -, -, -, hq, hcont, hdata, he⟩
  · exact Or.inl (Option.some.inj (ht.symm.trans he))
  · exact Or.inr ⟨hfull, q, ids', m, hq, hcont, hdata, Option.some.inj (ht.symm.trans he)⟩

theorem Channel.collect {s t : GetState σ} (h : Channel s) (ht : s.collect = some t) : Channel t := by
  obtain ⟨ids, hids, hdata, heq⟩ := h.queue
  rcases collect_cases hids ht with rfl | ⟨hfull, q, ids', m, hq, hcont, hne, rfl⟩
  · exact h
  · have hnil := h.idle hfull
    refine ⟨fun hf => ?_, ⟨ids', hq, fun hend => hne (hdata hend), fun hn => ?_⟩, h.handed, h.blocks, h.lastblk⟩
    · exact Bool.noConfusion hf
    · have hin : s.inflight = [] := by simp [GetState.inflight, hnil, hfull]
      have hin' : ({ s with queue := q, compressed := (s.queue.content ids).take m, compressedFull := true }
          : GetState σ).inflight = (s.queue.content ids).take m := by
        simp [GetState.inflight, hnil]
      rw [hin', hcont]
      have heq := heq hn
      rw [hin, List.append_nil] at heq
      rw [List.append_assoc, List.take_append_drop]
      exact heq

theorem writeBuffer_cases {total : Nat} {past : Byte} {s t : GetState σ}
    (h : s.writeBuffer total past = some t) :
    (s.firstblock = true ∧ t = { s.readHeader with
      outPos := 0, dbufFull := false, ending := if s.ending = .flushing then .over else s.ending }) ∨
    (s.firstblock = false ∧ ∃ x, writeLoop total s.alloc past s.buffer (s.dbufSize / 512)
      (s.dbufSize / 512) 0 s.cursor s.disk = some x ∧
      t = { s with
        cursor := x.1, disk := x.2, written := s.written ++ s.buffer.take (512 * (s.dbufSize / 512))
        outPos := 0, dbufFull := false, ending := if s.ending = .flushing then .over
        else s.ending }) := by
  simp only [GetState.writeBuffer] at h
  obtain ⟨u, hu, rfl⟩ := Option.map_eq_some_iff.mp h
  split at hu
  · rename_i hf
    obtain rfl := Option.some.inj hu
    exact Or.inl ⟨hf, rfl⟩
  · rename_i hf
    obtain ⟨x, hx, rfl⟩ := Option.map_eq_some_iff.mp hu
    exact Or.inr ⟨by simpa using hf, x, hx, rfl⟩

theorem Channel.writeBuffer {total : Nat} {past : Byte} {s t : GetState σ} (h : Channel s)
    (ht : s.writeBuffer total past = some t) : Channel t := by
  have hend : (if s.ending = .flushing then Ending.over else s.ending) = .no → s.ending = .no := by
    split
    · intro hf
      exact Ending.noConfusion hf
    · exact id
  rcases writeBuffer_cases ht with ⟨-, rfl⟩ | ⟨-, x, -, rfl⟩
  · exact h.congr rfl rfl rfl rfl rfl rfl rfl rfl hend
  · exact h.congr rfl rfl rfl rfl rfl rfl rfl rfl hend

theorem Channel.accept {s : GetState σ} {i : Fin NB_BUF} {d : Datagram} (h : Channel s)
    (hi : s.queue.getEmpty = some i) (hend : s.tftpend = false)
    (hblock : (d.block : Int) = s.lastblk + 1) (hzero : ¬ (s.lastblk = -1 ∧ d.block = 0)) :
    Channel (s.accept i d) := by
  obtain ⟨ids, hids, hdata, heq⟩ := h.queue
  have hnot := LinkedQueue.Holds.getEmpty_not_mem (hdata hend) hi
  obtain ⟨hpush, hcont⟩ := hids.push hnot d.payload
  have hpay : payloads (s.accept i d).accepted = payloads s.accepted ++ d.payload := by
    simp [GetState.accept, payloads]
  have hnum : d.block = s.accepted.length + 1 := by
    rcases h.lastblk with hl | ⟨hl, -⟩
    · omega
    · exact absurd ⟨hl, by omega⟩ hzero
  refine ⟨h.idle, ⟨ids ++ [i], hpush, fun hlong j hj => ?_, fun hn => ?_⟩, ?_, ?_, Or.inl ?_⟩
  · have hlong : ¬ d.payload.length < TFTPBLOCK := by simpa [GetState.accept] using hlong
    change ((s.queue.push i d.payload).slot j).data ≠ []
    rw [LinkedQueue.push_data]
    split
    · rintro hnil
      simp [hnil, TFTPBLOCK] at hlong
    · exact hdata hend j (by simp_all)
  · change payloads (s.accept i d).accepted = s.fed ++ s.inflight ++
      (s.queue.push i d.payload).content (ids ++ [i])
    rw [hpay, hcont, heq hn, List.append_assoc _ _ d.payload]
  · rw [hpay]
    exact h.handed.trans (List.prefix_append _ _)
  · change (s.accepted ++ [d]).map Datagram.block = List.range' 1 (s.accepted ++ [d]).length
    rw [List.map_append, h.blocks, List.length_append, List.length_singleton, List.range'_concat]
    simp [hnum, Nat.add_comm]
  · simp [GetState.accept, hnum]

/-! ### From the decoder to the disk -/

/-- Output is in the buffer, has been passed to the write loop, or is the header. -/
structure Pending (s : GetState σ) : Prop where
  header : s.firstblock = true → s.written = [] ∧ s.produced = s.buffer.take s.outPos
  data : s.firstblock = false →
    OUTBUFF ≤ s.produced.length ∧ s.produced.drop OUTBUFF = s.written ++ s.buffer.take s.outPos
  whole : 512 ∣ s.written.length

/-- All sectors after the header have been passed to the write loop. -/
structure Flushed (s : GetState σ) : Prop where
  firstblock : s.firstblock = false
  empty : s.outPos = 0
  whole : 512 ∣ s.written.length
  data : ∃ rest, s.produced.drop OUTBUFF = s.written ++ rest ∧ rest.length < 512

def Inflater.Ended (Z : Inflater) (z : Z.State) : Prop :=
  ∃ z' inp n fl, (Z.inflate z' inp n fl).ret = .streamEnd ∧ z = (Z.inflate z' inp n fl).state

/-- From state `z₀` on, the decoder has consumed the first list and given the second. -/
inductive Inflater.Decoded (Z : Inflater) (z₀ : Z.State) : List Byte → List Byte → Z.State → Prop where
  | init : Z.Decoded z₀ [] [] z₀
  | call {fed out : List Byte} {z : Z.State} (h : Z.Decoded z₀ fed out z) (inp : List Byte) (n : Nat) (fl : Flush) :
      Z.Decoded z₀ (fed ++ inp.take (Z.inflate z inp n fl).consumed) (out ++ (Z.inflate z inp n fl).out)
        (Z.inflate z inp n fl).state

inductive Stage (Z : Inflater) (s : GetState Z.State) : Prop where
  | receiving (hend : s.ending = .no) (hp : Pending s)
      (hfull : s.dbufFull = true → s.dbufSize = OUTBUFF ∧ s.outPos = OUTBUFF)
  | flushing (hend : s.ending = .flushing) (hz : Z.Ended s.z) (hfull : s.dbufFull = true)
      (hsize : s.dbufSize = s.outPos) (hp : Pending s ∨ Flushed s)
  | over (hend : s.ending = .over) (hz : Z.Ended s.z) (hfull : s.dbufFull = false) (hp : Flushed s)

structure Output (Z : Inflater) (s : GetState Z.State) : Prop where
  buffer_length : s.buffer.length = OUTBUFF
  outPos_le : s.outPos ≤ OUTBUFF
  stage : Stage Z s

variable {Z : Inflater} {s t : GetState Z.State}

theorem Output.congr (h : Output Z s) (hb : t.buffer = s.buffer) (ho : t.outPos = s.outPos)
    (hd : t.dbufFull = s.dbufFull) (hs : t.dbufSize = s.dbufSize)
    (hf : t.firstblock = s.firstblock) (he : t.ending = s.ending) (hp : t.produced = s.produced)
    (hw : t.written = s.written) (hz : t.z = s.z) :
    Output Z t := by
  have hpend : Pending s → Pending t := fun ⟨h1, h2, h3⟩ =>
    ⟨by rwa [hf, hw, hp, hb, ho], by rwa [hf, hw, hp, hb, ho], by rwa [hw]⟩
  have hflush : Flushed s → Flushed t := fun ⟨h1, h2, h3, h4⟩ =>
    ⟨by rwa [hf], by rwa [ho], by rwa [hw], by rwa [hp, hw]⟩
  refine ⟨by rw [hb]; exact h.buffer_length, by rw [ho]; exact h.outPos_le, ?_⟩
  rcases h.stage with ⟨hend, hpd, hfull⟩ | ⟨hend, hze, hfull, hsize, hpd⟩ | ⟨hend, hze, hfull, hfl⟩
  · exact .receiving (he.trans hend) (hpend hpd) (by rwa [hd, hs, ho])
  · exact .flushing (he.trans hend) (by rwa [hz]) (hd.trans hfull) (by rwa [hs, ho])
      (hpd.imp hpend hflush)
  · exact .over (he.trans hend) (by rwa [hz]) (hd.trans hfull) (hflush hfl)

theorem Pending.fresh (h : s.firstblock = true) (ho : s.outPos = 0) (hw : s.written = [])
    (hp : s.produced = []) : Pending s :=
  ⟨fun _ => ⟨hw, by simp [ho, hp]⟩, fun hf => Bool.noConfusion (hf.symm.trans h), by simp [hw]⟩

theorem Output.restart {E : GetEnv} {s : GetState E.decoder.State} (h : s.buffer.length = OUTBUFF) :
    Output E.decoder (E.restart s) :=
  ⟨h, Nat.zero_le _, .receiving rfl (Pending.fresh rfl rfl rfl rfl) (fun hf => Bool.noConfusion hf)⟩

theorem Output.start (E : GetEnv) (disk : Content) (info : ImageInfo) {alloc buffer : List Byte}
    (h : buffer.length = OUTBUFF) : Output E.decoder (E.start disk info alloc buffer) :=
  ⟨h, Nat.zero_le _, .receiving rfl (Pending.fresh rfl rfl rfl rfl) (fun hf => Bool.noConfusion hf)⟩

theorem Output.load (h : Output Z s) : Output Z s.load := by
  simp only [GetState.load]
  split
  · exact h.congr rfl rfl rfl rfl rfl rfl rfl rfl rfl
  · exact h

theorem Pending.advance {r : Inflated Z.State} (h : Pending s) (hlen : s.outPos ≤ s.buffer.length) :
    Pending (s.advance r) := by
  have htake : (overlay s.buffer s.outPos r.out).take (s.outPos + r.out.length) =
      s.buffer.take s.outPos ++ r.out := overlay_take_add hlen
  refine ⟨fun hf => ?_, fun hf => ?_, h.whole⟩
  · obtain ⟨hw, hp⟩ := h.header hf
    refine ⟨hw, ?_⟩
    change s.produced ++ r.out = (overlay s.buffer s.outPos r.out).take (s.outPos + r.out.length)
    rw [htake, hp]
  · obtain ⟨hl, hd⟩ := h.data hf
    refine ⟨hl.trans (by simp [GetState.advance]), ?_⟩
    change (s.produced ++ r.out).drop OUTBUFF =
      s.written ++ (overlay s.buffer s.outPos r.out).take (s.outPos + r.out.length)
    rw [htake, List.drop_append_of_le_length hl, hd, List.append_assoc]

/-- After the end of the stream a call changes nothing. -/
theorem Flushed.advance {r : Inflated Z.State} (h : Flushed s) (hr : r.out = []) :
    Flushed (s.advance r) := by
  obtain ⟨rest, hd, hlt⟩ := h.data
  refine ⟨h.firstblock, by simp [GetState.advance, hr, h.empty], h.whole, rest, ?_, hlt⟩
  change (s.produced ++ r.out).drop OUTBUFF = s.written ++ rest
  rw [hr, List.append_nil, hd]

theorem used_ending (s : GetState σ) : s.used.ending = s.ending := by
  simp only [GetState.used]
  split <;> rfl

theorem Output.pending (h : Output Z s) (hno : s.ending = .no) :
    Pending s ∧ (s.dbufFull = true → s.dbufSize = OUTBUFF ∧ s.outPos = OUTBUFF) := by
  rcases h.stage with ⟨-, hp, hfull⟩ | ⟨hend, -, -, -, -⟩ | ⟨hend, -, -, -⟩
  · exact ⟨hp, hfull⟩
  · exact Ending.noConfusion (hno.symm.trans hend)
  · exact Ending.noConfusion (hno.symm.trans hend)

theorem Output.filled (h : Output Z s) (hno : s.ending = .no) : Output Z s.filled := by
  simp only [GetState.filled]
  split
  · rename_i hpos
    obtain ⟨h1, h2, h3⟩ := (h.pending hno).1
    exact ⟨h.buffer_length, h.outPos_le, .receiving hno ⟨h1, h2, h3⟩ (fun _ => ⟨hpos, hpos⟩)⟩
  · exact h

theorem Output.advance {r : Inflated Z.State} (h : Output Z s) (hno : s.ending = .no)
    (hfull : s.dbufFull = false) (hr : r.out.length ≤ OUTBUFF - s.outPos) :
    Output Z (s.advance r) := by
  have hlen := h.buffer_length
  have hpos := h.outPos_le
  refine ⟨(overlay_length (by omega)).trans hlen, ?_,
    .receiving hno ((h.pending hno).1.advance (by omega)) ?_⟩
  · change s.outPos + r.out.length ≤ OUTBUFF
    omega
  · exact fun hd => Bool.noConfusion (hfull.symm.trans hd)

theorem Output.used (h : Output Z s) : Output Z s.used := by
  simp only [GetState.used]
  split
  · exact h.congr rfl rfl rfl rfl rfl rfl rfl rfl rfl
  · exact h

theorem Output.finished (h : Output Z s) (hno : s.ending = .no) (hz : Z.Ended s.z) :
    Output Z s.finished := by
  obtain ⟨h1, h2, h3⟩ := (h.pending hno).1
  exact ⟨h.buffer_length, h.outPos_le, .flushing rfl hz rfl rfl (Or.inl ⟨h1, h2, h3⟩)⟩

theorem Output.finished_again {r : Inflated Z.State} (h : Output Z s) (hfl : Flushed s)
    (hr : r.out = []) (hz : Z.Ended r.state) : Output Z (s.advance r).finished := by
  have hlen := h.buffer_length
  obtain ⟨h1, h2, h3, h4⟩ := hfl.advance hr
  have hb : (s.advance r).buffer.length = OUTBUFF :=
    (overlay_length (by simp [hr, hfl.empty])).trans hlen
  exact ⟨hb, by rw [GetState.finished, h2]; exact Nat.zero_le _,
    .flushing rfl hz rfl rfl (Or.inr ⟨h1, h2, h3, h4⟩)⟩

theorem Output.inflateTurn {E : GetEnv} {s : GetState E.decoder.State} (hZ : E.decoder.EndsOnce)
    (h : Output E.decoder s) (hfull : s.dbufFull = false) :
    (E.inflateTurn s).Sat (Output E.decoder) (fun t => t.buffer.length = OUTBUFF)
      (fun _ _ => False) := by
  have hend : (E.call s).ret = .streamEnd → E.decoder.Ended (s.advance (E.call s)).z :=
    fun hret => ⟨s.z, s.availIn, OUTBUFF - s.outPos, s.flush, hret, rfl⟩
  by_cases hno : s.ending = .no
  · have hadv := h.advance hno hfull (hZ.out_le s.z s.availIn (OUTBUFF - s.outPos) s.flush)
    rcases inflateTurn_cases E s with ⟨hret, hf⟩ | ⟨-, hf⟩ | ⟨-, -, hf⟩ <;> rw [hf]
    · exact hadv.finished hno (hend hret)
    · exact hadv.used.filled (by rw [used_ending]; exact hno)
    · exact hadv.buffer_length
  · rcases h.stage with ⟨hend, -, -⟩ | ⟨-, -, hd, -, -⟩ | ⟨-, ⟨z', inp, n, fl, hret', hz⟩, -, hfl⟩
    · exact absurd hend hno
    · exact Bool.noConfusion (hd.symm.trans hfull)
    · have hret : (E.call s).ret = .streamEnd := by
        rw [GetEnv.call, hz]
        exact hZ.end_final _ _ _ _ _ _ _ hret'
      have hsilent : (E.call s).out = [] := by
        rw [GetEnv.call, hz]
        exact hZ.end_silent _ _ _ _ _ _ _ hret'
      rcases inflateTurn_cases E s with ⟨-, hf⟩ | ⟨hne, -⟩ | ⟨hne, -⟩
      · rw [hf]
        exact h.finished_again hfl hsilent (hend hret)
      · exact absurd hret hne
      · exact absurd hret hne

theorem Output.collect (h : Output Z s) {ids : List (Fin NB_BUF)} (hids : s.queue.Holds ids)
    (ht : s.collect = some t) : Output Z t := by
  rcases collect_cases hids ht with rfl | ⟨-, q, ids', m, -, -, -, rfl⟩
  · exact h
  · exact h.congr rfl rfl rfl rfl rfl rfl rfl rfl rfl

/-- The last sector of a buffer may be incomplete and is then left out. -/
theorem Pending.written (h : Pending s) (hf : s.firstblock = false)
    (hlen : s.outPos ≤ s.buffer.length) :
    ∃ rest, s.produced.drop OUTBUFF = (s.written ++ s.buffer.take (512 * (s.outPos / 512))) ++ rest ∧
      rest.length = s.outPos % 512 ∧
        512 ∣ (s.written ++ s.buffer.take (512 * (s.outPos / 512))).length := by
  have hle : 512 * (s.outPos / 512) ≤ s.outPos := Nat.mul_div_le _ _
  have hsplit : s.buffer.take s.outPos =
      s.buffer.take (512 * (s.outPos / 512)) ++ (s.buffer.take s.outPos).drop
      (512 * (s.outPos / 512)) := by
    have := (List.take_append_drop (512 * (s.outPos / 512)) (s.buffer.take s.outPos)).symm
    rwa [List.take_take, Nat.min_eq_left hle] at this
  refine ⟨(s.buffer.take s.outPos).drop (512 * (s.outPos / 512)), ?_, ?_, ?_⟩
  · rw [List.append_assoc, ← hsplit]
    exact (h.data hf).2
  · rw [List.length_drop, List.length_take]
    omega
  · rw [List.length_append, List.length_take, Nat.min_eq_left (by omega)]
    exact Nat.dvd_add h.whole (Nat.dvd_mul_right _ _)

theorem Output.writeBuffer {total : Nat} {past : Byte} (h : Output Z s) (hfull : s.dbufFull = true)
    (ht : s.writeBuffer total past = some t) : Output Z t := by
  have hlen := h.buffer_length
  have hpos := h.outPos_le
  have hsize : s.dbufSize = s.outPos := by
    rcases h.stage with ⟨-, -, hs⟩ | ⟨-, -, -, hs, -⟩ | ⟨-, -, hs, -⟩
    · rw [(hs hfull).1, (hs hfull).2]
    · exact hs
    · exact Bool.noConfusion (hfull.symm.trans hs)
  rcases writeBuffer_cases ht with ⟨hf, rfl⟩ | ⟨hf, x, -, rfl⟩
  · refine ⟨hlen, Nat.zero_le _, ?_⟩
    rcases h.stage with ⟨hend, hp, hs⟩ | ⟨hend, hz, -, -, hp | hfl⟩ | ⟨-, -, hs, -⟩
    · obtain ⟨hw, hprod⟩ := hp.header hf
      have hle : s.produced.length = OUTBUFF := by
        rw [hprod, (hs hfull).2, List.length_take, hlen, Nat.min_self]
      refine .receiving (by simp [hend]) ⟨fun hc => Bool.noConfusion hc,
        fun _ => ⟨hle.ge, ?_⟩, hp.whole⟩
        (fun hc => Bool.noConfusion hc)
      change s.produced.drop OUTBUFF = s.written ++ s.buffer.take 0
      rw [hw, List.drop_of_length_le hle.le]
      simp
    · obtain ⟨hw, hprod⟩ := hp.header hf
      refine .over (by simp [hend]) hz rfl ⟨rfl, rfl, hp.whole, [], ?_, by simp⟩
      change s.produced.drop OUTBUFF = s.written ++ []
      rw [hw, List.drop_of_length_le]
      · rfl
      · rw [hprod, List.length_take]
        omega
    · exact Bool.noConfusion (hfl.firstblock.symm.trans hf)
    · exact Bool.noConfusion (hfull.symm.trans hs)
  · rw [hsize]
    refine ⟨hlen, Nat.zero_le _, ?_⟩
    rcases h.stage with ⟨hend, hp, hs⟩ | ⟨hend, hz, -, -, hp | hfl⟩ | ⟨-, -, hs, -⟩
    · obtain ⟨rest, hd, hrest, hwhole⟩ := hp.written hf (by omega)
      have hnil : rest = [] := by
        rw [(hs hfull).2] at hrest
        exact List.length_eq_zero_iff.mp hrest
      refine .receiving (by simp [hend]) ⟨fun hc => Bool.noConfusion (hf.symm.trans hc), fun _ =>
        ⟨(hp.data hf).1, ?_⟩, hwhole⟩ (fun hc => Bool.noConfusion hc)
      rw [hnil] at hd
      exact hd
    · obtain ⟨rest, hd, hrest, hwhole⟩ := hp.written hf (by omega)
      exact .over (by simp [hend]) hz rfl ⟨hf, rfl, hwhole, rest, hd, by omega⟩
    · obtain ⟨rest, hd, hrest⟩ := hfl.data
      have hnone : s.written ++ s.buffer.take (512 * (s.outPos / 512)) = s.written := by
        simp [hfl.empty]
      refine .over (by simp [hend]) hz rfl ⟨hf, rfl, ?_, rest, ?_, hrest⟩
      · change 512 ∣ (s.written ++ s.buffer.take (512 * (s.outPos / 512))).length
        rw [hnone]
        exact hfl.whole
      · change s.produced.drop OUTBUFF = s.written ++ s.buffer.take (512 * (s.outPos / 512)) ++ rest
        rw [hnone]
        exact hd
    · exact Bool.noConfusion (hfull.symm.trans hs)

/-! ### Whole runs -/

structure GetInv (E : GetEnv) (s : GetState E.decoder.State) : Prop where
  channel : Channel s
  output : Output E.decoder s
  decoded : E.decoder.Decoded (E.init s.restarts) s.fed s.produced s.z

theorem GetInv.restart {E : GetEnv} {s : GetState E.decoder.State} (h : s.buffer.length = OUTBUFF) :
    GetInv E (E.restart s) :=
  ⟨Channel.restart E s, Output.restart h, .init⟩

theorem GetInv.start (E : GetEnv) (disk : Content) (info : ImageInfo) {alloc buffer : List Byte}
    (h : buffer.length = OUTBUFF) : GetInv E (E.start disk info alloc buffer) :=
  ⟨Channel.start E disk info alloc buffer, Output.start E disk info h, .init⟩

/-- A data packet numbered 0 is taken before the transfer has been acknowledged. -/
def GetState.strayZero (s : GetState σ) (e : Event) : Prop :=
  s.lastblk = -1 ∧ ¬ (e.tick = true ∧ 10 ≤ s.timeout) ∧ ∃ d, e.poll = some d ∧ d.op = 3 ∧ d.block = 0

/-- The parts of the state used by the reception only. -/
def SameWait (s t : GetState σ) : Prop := t.lastblk = s.lastblk ∧ t.timeout = s.timeout

/-- What is known about the decoder. -/
def SameDecoder (s t : GetState σ) : Prop :=
  t.restarts = s.restarts ∧ t.fed = s.fed ∧ t.produced = s.produced ∧ t.z = s.z

theorem load_same (s : GetState σ) : SameWait s s.load ∧ SameDecoder s s.load := by
  simp only [GetState.load]
  split <;> exact ⟨⟨rfl, rfl⟩, rfl, rfl, rfl, rfl⟩

theorem filled_same (s : GetState σ) : SameWait s s.used.filled ∧ SameDecoder s s.used.filled := by
  have hused : SameWait s s.used ∧ SameDecoder s s.used := by
    simp only [GetState.used]
    split <;> exact ⟨⟨rfl, rfl⟩, rfl, rfl, rfl, rfl⟩
  simp only [GetState.filled]
  split <;> exact hused

section Steps

variable {E : GetEnv} {s : GetState E.decoder.State}

theorem SameDecoder.decoded {z₀ : Z.State} {s t : GetState Z.State} (h : SameDecoder s t)
    (hs : Z.Decoded z₀ s.fed s.produced s.z) : Z.Decoded z₀ t.fed t.produced t.z := by
  rw [h.2.1, h.2.2.1, h.2.2.2]
  exact hs

theorem GetInv.load (h : GetInv E s) : GetInv E s.load := by
  obtain ⟨-, hsame⟩ := load_same s
  refine ⟨h.channel.load, h.output.load, ?_⟩
  rw [hsame.1]
  exact hsame.decoded h.decoded

theorem GetInv.inflateTurn (hZ : E.decoder.EndsOnce) (h : GetInv E s) (hfull : s.dbufFull = false)
    (hne : s.availIn ≠ []) :
    (E.inflateTurn s).Sat (fun t => GetInv E t ∧ SameWait s t) (fun t => t.buffer.length = OUTBUFF)
      (fun _ _ => False) := by
  have hdec : E.decoder.Decoded (E.init s.restarts) (s.advance (E.call s)).fed
      (s.advance (E.call s)).produced
      (s.advance (E.call s)).z := h.decoded.call s.availIn (OUTBUFF - s.outPos) s.flush
  have hout := h.output.inflateTurn hZ hfull
  rcases inflateTurn_cases E s with ⟨-, hf⟩ | ⟨-, hf⟩ | ⟨-, -, hf⟩ <;> rw [hf] at hout ⊢
  · exact ⟨⟨h.channel.finished hne, hout, hdec⟩, rfl, rfl⟩
  · obtain ⟨hwait, hsame⟩ := filled_same (s.advance (E.call s))
    refine ⟨⟨(h.channel.used hne).filled, hout, ?_⟩, hwait⟩
    rw [hsame.1]
    exact hsame.decoded hdec
  · exact hout

theorem GetInv.body {past : Byte} {f : Flow E.decoder.State} (hZ : E.decoder.EndsOnce)
    (h : GetInv E s) (hf : E.body past s = some f) :
    f.Sat (fun t => GetInv E t ∧ SameWait s t) (fun t => t.buffer.length = OUTBUFF)
      (fun _ _ => False) := by
  obtain ⟨hwait, -⟩ := load_same s
  rcases body_cases hf with ⟨hfull, t, ht, rfl⟩ | ⟨hfull, -, hne, rfl⟩ | ⟨-, -, t, ht, rfl⟩
  · have hch := h.channel.writeBuffer ht
    have hout := h.output.writeBuffer hfull ht
    rcases writeBuffer_cases ht with ⟨-, rfl⟩ |
      ⟨-, x, -, rfl⟩ <;> exact ⟨⟨hch, hout, h.decoded⟩, rfl, rfl⟩
  · have hfull : s.load.dbufFull = false := by
      simp only [GetState.load]
      split <;> exact hfull
    have hturn := h.load.inflateTurn hZ hfull hne
    simpa only [SameWait, hwait.1, hwait.2] using hturn
  · obtain ⟨ids, hids, -⟩ := h.load.channel.queue
    have hch := h.load.channel.collect ht
    have hout := h.load.output.collect hids ht
    rcases collect_cases hids ht with rfl | ⟨-, q, ids', m, -, -, -, rfl⟩
    · exact ⟨h.load, hwait⟩
    · exact ⟨⟨hch, hout, h.load.decoded⟩, hwait⟩

theorem GetInv.clock {tick : Bool} (h : GetInv E s) :
    (s.clock tick).Sat (fun t => GetInv E t ∧ t.lastblk = s.lastblk ∧
      ¬ (tick = true ∧ 10 ≤ s.timeout))
      (fun t => t.buffer.length = OUTBUFF) (fun _ _ => False) := by
  simp only [GetState.clock]
  split
  · split
    · exact h.output.buffer_length
    · refine ⟨⟨h.channel.congr rfl rfl rfl rfl rfl rfl rfl rfl id,
        h.output.congr rfl rfl rfl rfl rfl rfl rfl rfl rfl, h.decoded⟩, rfl, ?_⟩
      omega
  · rename_i htick
    exact ⟨h, rfl, fun hc => htick hc.1⟩

theorem receive_cases (s : GetState σ) (i : Fin NB_BUF) (d : Datagram) :
    (d.op = 6 ∧ s.lastblk = -1 ∧ s.receive i d = .go { s with timeout := 0, lastblk := 0 }) ∨
    (d.op = 3 ∧ (d.block : Int) = s.lastblk + 1 ∧ s.receive i d =
      .go (({ s with timeout := 0 }).accept i d)) ∨
    s.receive i d = .again { s with timeout := 0 } ∨
      s.receive i d = .ret 1 { s with timeout := 0 } := by
  simp only [GetState.receive]
  by_cases h6 : d.op = 6
  · by_cases hl : s.lastblk = -1 <;> simp [h6, hl]
  · by_cases h3 : d.op = 3
    · by_cases hsame : (d.block : Int) = s.lastblk
      · simp [h3, hsame]
      · by_cases hnext : (d.block : Int) = s.lastblk + 1 <;> simp [h3, hnext, hsame]
    · by_cases h5 : d.op % 256 = 5 <;> simp [h6, h3, h5]

theorem GetInv.receive {i : Fin NB_BUF} {d : Datagram} (h : GetInv E s)
    (hi : s.queue.getEmpty = some i) (hend : s.tftpend = false)
    (hzero : d.op = 3 → ¬ (s.lastblk = -1 ∧ d.block = 0)) :
    (s.receive i d).Sat (GetInv E) (fun t => t.buffer.length = OUTBUFF) (fun code _ => code = 1) := by
  have hout : Output E.decoder { s with timeout := 0 } :=
    h.output.congr rfl rfl rfl rfl rfl rfl rfl rfl rfl
  have hch : Channel { s with timeout := 0 } := h.channel.congr rfl rfl rfl rfl rfl rfl rfl rfl id
  rcases receive_cases s i d with ⟨-, hl, hr⟩ | ⟨h3, hb, hr⟩ | hr | hr <;> rw [hr]
  · refine ⟨⟨hch.idle, hch.queue, hch.handed, hch.blocks, Or.inl ?_⟩,
      hout.congr rfl rfl rfl rfl rfl rfl rfl rfl rfl, h.decoded⟩
    have hnil : s.accepted = [] := by
      rcases h.channel.lastblk with hl' | hl'
      · omega
      · exact hl'.2
    simp [hnil]
  · exact ⟨hch.accept hi hend hb (hzero h3), hout.congr rfl rfl rfl rfl rfl rfl rfl rfl rfl,
      h.decoded⟩
  · exact hout.buffer_length
  · rfl

theorem GetInv.outer (h : GetInv E s) : s.outer.Sat (GetInv E) (fun t => t.buffer.length = OUTBUFF)
    (fun code t => code = 0 → GetInv E t ∧ t.ending = .over) := by
  simp only [GetState.outer]
  split
  · rename_i he
    exact fun _ => ⟨h, he⟩
  · exact h

theorem GetInv.poll {d : Option Datagram} (h : GetInv E s)
    (hzero : ∀ d', d = some d' → d'.op = 3 → ¬ (s.lastblk = -1 ∧ d'.block = 0)) :
    (s.poll d).Sat (GetInv E) (fun t => t.buffer.length = OUTBUFF)
      (fun code t => code = 0 → GetInv E t ∧ t.ending = .over) := by
  simp only [GetState.poll]
  split
  · exact h
  · split
    · exact h
    · rename_i i hi
      split
      · exact h.outer
      · rename_i hend
        cases d with
        | none => exact h
        | some d' =>
          have hrec := h.receive hi (by simpa using hend) (hzero d' rfl)
          dsimp only
          cases hr : s.receive i d' with
          | go t =>
            rw [hr] at hrec
            exact GetInv.outer hrec
          | again t =>
            rw [hr] at hrec
            exact hrec
          | ret code t =>
            rw [hr] at hrec
            intro hcode
            exact absurd (hcode.symm.trans hrec) (by simp)

def Progress.Sat (G : GetState σ → Prop) (R : Nat → GetState σ → Prop) : Progress σ → Prop
  | .running s => G s
  | .returned code s => R code s

theorem GetInv.step {e : Event} {p : Progress E.decoder.State} (hZ : E.decoder.EndsOnce)
    (h : GetInv E s) (hzero : ¬ s.strayZero e) (hp : E.step s e = some p) :
    p.Sat (GetInv E) (fun code t => code = 0 → GetInv E t ∧ t.ending = .over) := by
  simp only [GetEnv.step, GetEnv.turn] at hp
  obtain ⟨f, hf, rfl⟩ := Option.map_eq_some_iff.mp hp
  obtain ⟨b, hb, rfl⟩ := Option.map_eq_some_iff.mp hf
  have hclock : (b.andThen (GetState.clock e.tick)).Sat
      (fun t => GetInv E t ∧ t.lastblk = s.lastblk ∧ ¬ (e.tick = true ∧ 10 ≤ s.timeout))
      (fun t => t.buffer.length = OUTBUFF) (fun _ _ => False) := by
    refine (h.body hZ hb).andThen (fun t ht => ?_)
    have hticked : (t.clock e.tick).Sat _ _ _ := ht.1.clock
    rwa [ht.2.1, ht.2.2] at hticked
  cases hc : b.andThen (GetState.clock e.tick) with
  | go t =>
    rw [hc] at hclock
    obtain ⟨hinv, hlast, htime⟩ := hclock
    have hpoll := hinv.poll (d := e.poll) (fun d hd h3 hz => hzero ⟨hlast ▸ hz.1, htime, d,
      hd, h3, hz.2⟩)
    dsimp only [Flow.andThen]
    cases hr : t.poll e.poll with
    | go u =>
      rw [hr] at hpoll
      exact hpoll
    | again u =>
      rw [hr] at hpoll
      exact GetInv.restart hpoll
    | ret code u =>
      rw [hr] at hpoll
      exact hpoll
  | again t =>
    rw [hc] at hclock
    exact GetInv.restart hclock
  | ret code t =>
    rw [hc] at hclock
    exact absurd hclock id

theorem GetInv.run {evs : List Event} {p : Progress E.decoder.State} (hZ : E.decoder.EndsOnce)
    (h : GetInv E s)
    (hzero : ∀ pre e post t, evs = pre ++ e :: post → E.run s pre = some (.running t) →
      ¬ t.strayZero e)
    (hp : E.run s evs = some p) :
    p.Sat (GetInv E) (fun code t => code = 0 → GetInv E t ∧ t.ending = .over) := by
  induction evs generalizing s with
  | nil =>
    obtain rfl := Option.some.inj hp
    exact h
  | cons e es ih =>
    rw [GetEnv.run] at hp
    obtain ⟨q, hq, hrest⟩ := Option.bind_eq_some_iff.mp hp
    have hstep := h.step hZ (hzero [] e es s rfl rfl) hq
    cases q with
    | running t =>
      refine ih hstep (fun pre e' post u hes hu => ?_) hrest
      refine hzero (e :: pre) e' post u (by rw [hes]; rfl) ?_
      rw [GetEnv.run, hq, Option.bind_some]
      exact hu
    | returned code t =>
      obtain rfl := Option.some.inj hrest
      exact hstep

end Steps

def storedEnv : GetEnv := ⟨storedDecoder.inflater, fun _ => storedDecoder.init, 0, 100⟩

def storedStart : GetState storedEnv.decoder.State :=
  storedEnv.start (fun _ => 0) ⟨false, false, 0, 0, 0⟩ [] (List.replicate OUTBUFF 0)

def oack : Datagram := ⟨6, 0, [], by decide, by decide, by decide⟩

def event (poll : Option Datagram) : Event := ⟨false, poll, 0⟩

def outcome (p : Option (Progress σ)) : Option (Nat × List Nat × List Byte) :=
  match p with
  | some (.returned code s) => some (code, s.accepted.map Datagram.block, s.fed)
  | _ => none

end PulseImaging
