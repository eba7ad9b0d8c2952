import PulseImaging.ImageStream

/-! The decompression loop that `autorestore`, `decompress` and `decompress-test`
share. What a program does with the header block and with the data blocks is its
sink; the loop itself moves input and output buffers through the decoder. -/

namespace PulseImaging

def INSIZE : Nat := 2048

/-- `header` is run on the first full buffer, `flush` on `lg` bytes of data with
the bitmap of the file; `none` stands for a fault. -/
structure Sink (τ : Type) where
  header : τ → List Byte → τ
  flush : τ → List Byte → List Byte → Nat → Option τ

structure Core (τ : Type) where
  sink : τ
  bitmap : List Byte
  bitmaplg : Int
  firstpass : Bool

/-- Loop state. `inp` is what `next_in` and `avail_in` describe, `rem` the unread
part of the file, `outPos` is `TOTALLG - avail_out`. `produced` and `passed` record
all the output of the decoder and the output given to `flush`. -/
structure Unpack (σ τ : Type) where
  z : σ
  inp : List Byte
  rem : List Byte
  buffer : List Byte
  outPos : Nat
  core : Core τ
  produced : List Byte
  passed : List Byte

variable {τ : Type}

def Core.readHeader (K : Sink τ) (c : Core τ) (buffer : List Byte) : Core τ where
  sink := K.header c.sink buffer
  bitmap := (buffer.drop HEADERLG).take ALLOCLG
  bitmaplg := (headerField alloctablelgKey buffer).getD c.bitmaplg
  firstpass := false

/-- A full buffer: the header on the first pass, data later. -/
def Core.block (K : Sink τ) (c : Core τ) (buffer : List Byte) : Option (Core τ) :=
  if c.firstpass then some (c.readHeader K buffer)
  else (K.flush c.sink buffer c.bitmap TOTALLG).map (fun t => { c with sink := t })

variable {σ : Type}

def Unpack.full (K : Sink τ) (s : Unpack σ τ) : Option (Unpack σ τ) :=
  (s.core.block K s.buffer).map (fun c =>
    { s with core := c, outPos := 0, passed := if s.core.firstpass then s.passed else s.passed ++ s.buffer })

def Unpack.refill (s : Unpack σ τ) : Unpack σ τ :=
  if s.inp = [] then { s with inp := s.rem.take INSIZE, rem := s.rem.drop INSIZE } else s

def Unpack.advance (s : Unpack σ τ) (r : Inflated σ) : Unpack σ τ :=
  { s with
    z := r.state
    inp := s.inp.drop r.consumed
    buffer := overlay s.buffer s.outPos r.out
    outPos := s.outPos + r.out.length
    produced := s.produced ++ r.out }

def Unpack.call (Z : Inflater) (s : Unpack Z.State τ) : Inflated Z.State :=
  Z.inflate s.z s.inp (TOTALLG - s.outPos) .sync

def Unpack.turn (Z : Inflater) (K : Sink τ) (s : Unpack Z.State τ) : Option (ZRet × Unpack Z.State τ) :=
  let r := s.call Z
  let s := s.advance r
  if r.ret = .ok then
    (if s.outPos = TOTALLG then s.full K else some s).map (fun s => (r.ret, s.refill))
  else some (r.ret, s)

def Unpack.loop (Z : Inflater) (K : Sink τ) : Nat → Unpack Z.State τ → Option (ZRet × Unpack Z.State τ)
  | 0, _ => none
  | fuel + 1, s => (s.turn Z K).bind (fun x => if x.1 = .ok then Unpack.loop Z K fuel x.2 else some x)

/-- After `Z_STREAM_END` the last, partly filled buffer is flushed; a stream that
ends within its first buffer has a header and no data. -/
def Unpack.ended (K : Sink τ) (s : Unpack σ τ) : Option (Unpack σ τ) :=
  let s := if s.core.firstpass then { s with core := s.core.readHeader K s.buffer, outPos := 0 } else s
  (K.flush s.core.sink s.buffer s.core.bitmap s.outPos).map (fun t =>
    { s with core := { s.core with sink := t }, outPos := 0, passed := s.passed ++ s.buffer.take s.outPos })

def Unpack.start (Z : Inflater) (file buffer : List Byte) (bitmap : List Byte) (t : τ) : Unpack Z.State τ where
  z := Z.init
  inp := file.take INSIZE
  rem := file.drop INSIZE
  buffer := buffer
  outPos := 0
  core := ⟨t, bitmap, 0, true⟩
  produced := []
  passed := []

/-- Codes of one pass over a file: the one that ended the loop and the one of the
closing `inflate(Z_FINISH)`. -/
structure Pass (σ τ : Type) where
  exit : ZRet
  final : ZRet
  state : Unpack σ τ

def Unpack.pass (Z : Inflater) (K : Sink τ) (fuel : Nat) (s : Unpack Z.State τ) :
    Option (Pass Z.State τ) :=
  (Unpack.loop Z K fuel s).bind (fun x =>
    (if x.1 = .streamEnd then x.2.ended K else some x.2).map (fun s =>
      ⟨x.1, (Z.inflate s.z s.inp (TOTALLG - s.outPos) .finish).ret, s⟩))

theorem Unpack.ended_of {K : Sink τ} {s : Unpack σ τ} {c : Core τ} {t : τ}
    (hc : (if s.core.firstpass then s.core.readHeader K s.buffer else s.core) = c)
    (hf : K.flush c.sink s.buffer c.bitmap (if s.core.firstpass then 0 else s.outPos) = some t) :
    ∃ s', s.ended K = some s' ∧ s'.z = s.z ∧ s'.inp = s.inp ∧ s'.outPos = 0 ∧ s'.buffer = s.buffer ∧
      s'.core = { c with sink := t } := by
  cases hfirst : s.core.firstpass with
  | true =>
    rw [hfirst, if_pos rfl] at hc hf
    simp only [Unpack.ended, hfirst, if_true, hc, hf, Option.map_some]
    exact ⟨_, rfl, rfl, rfl, rfl, rfl, rfl⟩
  | false =>
    rw [hfirst, if_neg (by simp)] at hc hf
    subst hc
    simp only [Unpack.ended, hfirst, Bool.false_eq_true, if_false, hf, Option.map_some]
    exact ⟨_, rfl, rfl, rfl, rfl, rfl, rfl⟩

section Turn

variable {Z : Inflater} {K : Sink τ} {s s' : Unpack Z.State τ} {ret : ZRet}

theorem turn_cases (h : s.turn Z K = some (ret, s')) : ret = (s.call Z).ret ∧
    (ret ≠ .ok ∧ s' = s.advance (s.call Z) ∨
      ret = .ok ∧ (s.advance (s.call Z)).outPos ≠ TOTALLG ∧ s' = (s.advance (s.call Z)).refill ∨
      ret = .ok ∧ (s.advance (s.call Z)).outPos = TOTALLG ∧
        ∃ u, (s.advance (s.call Z)).full K = some u ∧ s' = u.refill) := by
  change (if (s.call Z).ret = .ok then
    (if (s.advance (s.call Z)).outPos = TOTALLG then (s.advance (s.call Z)).full K
      else some (s.advance (s.call Z))).map (fun t => ((s.call Z).ret, t.refill))
    else some ((s.call Z).ret, s.advance (s.call Z))) = some (ret, s') at h
  split at h
  · rename_i hok
    obtain ⟨u, hu, he⟩ := Option.map_eq_some_iff.mp h
    obtain ⟨rfl, rfl⟩ := Prod.mk.inj he
    split at hu
    · rename_i hfull
      exact ⟨rfl, Or.inr (Or.inr ⟨hok, hfull, u, hu, rfl⟩)⟩
    · rename_i hfull
      rw [← Option.some.inj hu]
      exact ⟨rfl, Or.inr (Or.inl ⟨hok, hfull, rfl⟩)⟩
  · rename_i hne
    obtain ⟨rfl, rfl⟩ := Prod.mk.inj (Option.some.inj h)
    exact ⟨rfl, Or.inl ⟨hne, rfl⟩⟩

theorem turn_of_ne (h : (s.call Z).ret ≠ .ok) :
    s.turn Z K = some ((s.call Z).ret, s.advance (s.call Z)) :=
  if_neg h

theorem turn_of_room (h : (s.call Z).ret = .ok) (hroom : (s.advance (s.call Z)).outPos ≠ TOTALLG) :
    s.turn Z K = some (.ok, (s.advance (s.call Z)).refill) := by
  refine (if_pos h).trans ?_
  rw [if_neg hroom, Option.map_some, h]

theorem turn_of_full (h : (s.call Z).ret = .ok) (hfull : (s.advance (s.call Z)).outPos = TOTALLG)
    {u : Unpack Z.State τ} (hu : (s.advance (s.call Z)).full K = some u) :
    s.turn Z K = some (.ok, u.refill) := by
  refine (if_pos h).trans ?_
  rw [if_pos hfull, hu, Option.map_some, h]

end Turn

/-! ### Passes over a file of the encoder, complete or cut short -/

section Follow

variable {Z : Inflater} {K : Sink τ} {rel : Z.State → List Byte → List Byte → Prop}

/-- The effect of the first `k` full buffers of the output `o`. -/
def absorb (K : Sink τ) (c : Core τ) (o : List Byte) : Nat → Option (Core τ)
  | 0 => some c
  | k + 1 => (absorb K c o k).bind (fun c => c.block K ((o.drop (k * TOTALLG)).take TOTALLG))

/-- After `k` full buffers the state agrees with the output `o`; `tail` is the part
of the stream that the file lacks. -/
structure Tracks (rel : Z.State → List Byte → List Byte → Prop) (K : Sink τ) (c : Core τ)
    (o tail : List Byte) (k : Nat) (s : Unpack Z.State τ) : Prop where
  absorbed : absorb K c o k = some s.core
  produced : s.produced = o.take (k * TOTALLG + s.outPos)
  buffer_length : s.buffer.length = TOTALLG
  outPos_le : s.outPos ≤ TOTALLG
  in_output : k * TOTALLG + s.outPos ≤ o.length
  buffered : s.buffer.take s.outPos = (o.drop (k * TOTALLG)).take s.outPos
  related : rel s.z (s.inp ++ s.rem ++ tail) (o.drop (k * TOTALLG + s.outPos))

/-- Invariant of the loop. -/
structure Follow (rel : Z.State → List Byte → List Byte → Prop) (K : Sink τ) (c : Core τ)
    (o tail : List Byte) (k : Nat) (s : Unpack Z.State τ) : Prop extends Tracks rel K c o tail k s where
  room : s.outPos < TOTALLG
  refilled : s.inp = [] → s.rem = []
  more : s.inp ++ s.rem ++ tail ≠ []

theorem Unpack.refill_refilled (s : Unpack σ τ) : s.refill.inp = [] → s.refill.rem = [] := by
  intro h
  by_cases hi : s.inp = []
  · simp only [Unpack.refill, hi, if_true] at h ⊢
    have : s.rem = [] := by
      rcases List.take_eq_nil_iff.mp h with h | h
      · simp [INSIZE] at h
      · exact h
    simp [this]
  · simp [Unpack.refill, hi] at h

theorem Unpack.refill_input (s : Unpack σ τ) : s.refill.inp ++ s.refill.rem = s.inp ++ s.rem := by
  by_cases hi : s.inp = []
  · simp [Unpack.refill, hi]
  · simp [Unpack.refill, hi]

theorem Unpack.refill_other (s : Unpack σ τ) : s.refill.core = s.core ∧ s.refill.outPos = s.outPos ∧
    s.refill.buffer = s.buffer ∧ s.refill.produced = s.produced ∧ s.refill.z = s.z ∧
    s.refill.passed = s.passed := by
  by_cases hi : s.inp = [] <;> simp [Unpack.refill, hi]

variable {c : Core τ} {o tail : List Byte} {k : Nat} {s : Unpack Z.State τ}

theorem Unpack.inp_prefix (s : Unpack σ τ) (tail : List Byte) : s.inp <+: s.inp ++ s.rem ++ tail := by
  rw [List.append_assoc]
  exact List.prefix_append _ _

theorem Follow.advance_tracks (hZ : Z.Decodes rel) (h : Follow rel K c o tail k s) :
    Tracks rel K c o tail k (s.advance (s.call Z)) := by
  have hn : 0 < TOTALLG - s.outPos := by have := h.room; omega
  let r := s.call Z
  have hcons : r.consumed ≤ s.inp.length := hZ.consumed_le _ h.related (s.inp_prefix tail) hn
  have hout : r.out.length ≤ TOTALLG - s.outPos := hZ.out_le _ h.related (s.inp_prefix tail) hn
  have hpre : r.out <+: o.drop (k * TOTALLG + s.outPos) :=
    hZ.out_prefix _ h.related (s.inp_prefix tail) hn
  have hnext := hZ.next .sync h.related (s.inp_prefix tail) hn
  have htake : r.out = (o.drop (k * TOTALLG + s.outPos)).take r.out.length :=
    List.prefix_iff_eq_take.mp hpre
  have hlen : r.out.length ≤ o.length - (k * TOTALLG + s.outPos) := by
    have := hpre.length_le
    rwa [List.length_drop] at this
  have hroom := h.room
  have hin := h.in_output
  constructor
  · exact h.absorbed
  · change s.produced ++ r.out = o.take (k * TOTALLG + (s.outPos + r.out.length))
    have hadd : o.take (k * TOTALLG + s.outPos + r.out.length) =
        o.take (k * TOTALLG + s.outPos) ++ r.out := by
      rw [List.take_add, ← htake]
    rw [h.produced, ← Nat.add_assoc, hadd]
  · change (overlay s.buffer s.outPos r.out).length = TOTALLG
    exact (overlay_length (by rw [h.buffer_length]; omega)).trans h.buffer_length
  · change s.outPos + r.out.length ≤ TOTALLG
    omega
  · change k * TOTALLG + (s.outPos + r.out.length) ≤ o.length
    omega
  · change (overlay s.buffer s.outPos r.out).take (s.outPos + r.out.length) =
      (o.drop (k * TOTALLG)).take (s.outPos + r.out.length)
    rw [overlay_take_add (by rw [h.buffer_length]; omega), h.buffered, List.take_add,
      List.drop_drop, ← htake]
  · change rel r.state (s.inp.drop r.consumed ++ s.rem ++ tail)
      (o.drop (k * TOTALLG + (s.outPos + r.out.length)))
    rw [← Nat.add_assoc, ← List.drop_drop, List.append_assoc,
      ← List.drop_append_of_le_length hcons, ← List.append_assoc]
    exact hnext

theorem Tracks.refill (h : Tracks rel K c o tail k s) : Tracks rel K c o tail k s.refill := by
  obtain ⟨hc, ho, hb, hp, hz, _⟩ := s.refill_other
  refine ⟨?_, ?_, ?_, ?_, ?_, ?_, ?_⟩
  · rw [hc]; exact h.absorbed
  · rw [hp, ho]; exact h.produced
  · rw [hb]; exact h.buffer_length
  · rw [ho]; exact h.outPos_le
  · rw [ho]; exact h.in_output
  · rw [hb, ho]; exact h.buffered
  · rw [hz, s.refill_input, ho]; exact h.related

theorem Tracks.full (h : Tracks rel K c o tail k s) (hfull : s.outPos = TOTALLG)
    (habs : ∀ k, k * TOTALLG ≤ o.length → (absorb K c o k).isSome) :
    ∃ s', s.full K = some s' ∧ Tracks rel K c o tail (k + 1) s' ∧ s'.outPos = 0 ∧
      s'.inp = s.inp ∧ s'.rem = s.rem := by
  have hk : (k + 1) * TOTALLG = k * TOTALLG + TOTALLG := Nat.succ_mul k TOTALLG
  have hin := h.in_output
  have hbuf : s.buffer = (o.drop (k * TOTALLG)).take TOTALLG := by
    have hb := h.buffered
    rwa [hfull, List.take_of_length_le h.buffer_length.le] at hb
  obtain ⟨c', hc'⟩ := Option.isSome_iff_exists.mp (habs (k + 1) (by omega))
  have hblock : s.core.block K s.buffer = some c' := by
    rw [absorb, h.absorbed, ← hbuf] at hc'
    exact hc'
  refine ⟨{ s with core := c', outPos := 0, passed := if s.core.firstpass then s.passed
    else s.passed ++ s.buffer },
    by rw [Unpack.full, hblock]; rfl, ⟨hc', ?_, h.buffer_length, Nat.zero_le _, ?_, ?_, ?_⟩,
    rfl, rfl, rfl⟩
  · change s.produced = o.take ((k + 1) * TOTALLG + 0)
    rw [h.produced, hfull, hk, Nat.add_zero]
  · change (k + 1) * TOTALLG + 0 ≤ o.length
    omega
  · change s.buffer.take 0 = _
    simp
  · change rel s.z (s.inp ++ s.rem ++ tail) (o.drop ((k + 1) * TOTALLG + 0))
    have hrel := h.related
    rwa [hfull, ← hk, ← Nat.add_zero ((k + 1) * TOTALLG)] at hrel

theorem Tracks.refill_follow (h : Tracks rel K c o tail k s) (hroom : s.outPos < TOTALLG)
    (hmore : s.inp ++ s.rem ++ tail ≠ []) : Follow rel K c o tail k s.refill :=
  { h.refill with
    room := by
      obtain ⟨-, hout, -⟩ := s.refill_other
      rw [hout]
      exact hroom
    refilled := s.refill_refilled
    more := by
      rw [s.refill_input]
      exact hmore }

theorem Follow.room_pos (h : Follow rel K c o tail k s) : 0 < TOTALLG - s.outPos :=
  Nat.sub_pos_of_lt h.room

theorem Follow.left_eq (hZ : Z.Decodes rel) (h : Follow rel K c o tail k s) :
    (s.inp ++ s.rem ++ tail).drop (s.call Z).consumed =
      (s.advance (s.call Z)).inp ++ s.rem ++ tail := by
  have hcons : (s.call Z).consumed ≤ s.inp.length :=
    hZ.consumed_le .sync h.related (s.inp_prefix tail) h.room_pos
  rw [List.append_assoc, List.drop_append_of_le_length hcons, List.append_assoc]
  rfl

theorem Follow.end_iff (hZ : Z.Decodes rel) (h : Follow rel K c o tail k s) :
    (s.call Z).ret = .streamEnd ↔ (s.advance (s.call Z)).inp ++ s.rem ++ tail = [] ∧
      o.length ≤ k * TOTALLG + (s.advance (s.call Z)).outPos := by
  have hend : (s.call Z).ret = .streamEnd ↔
      (s.inp ++ s.rem ++ tail).drop (s.call Z).consumed = [] ∧
        (o.drop (k * TOTALLG + s.outPos)).drop (s.call Z).out.length = [] :=
    hZ.end_iff .sync h.related (s.inp_prefix tail) h.room_pos
  rw [h.left_eq hZ, List.drop_drop, List.drop_eq_nil_iff, Nat.add_assoc] at hend
  exact hend

/-- `Z_OK` promises that there is more of the stream to read. -/
theorem Follow.more_of_ok (hZ : Z.Decodes rel) (h : Follow rel K c o tail k s)
    (hok : (s.call Z).ret = .ok) : (s.advance (s.call Z)).inp ++ s.rem ++ tail ≠ [] := by
  intro hnil
  have hrel : rel (s.call Z).state ((s.advance (s.call Z)).inp ++ s.rem ++ tail)
      (o.drop (k * TOTALLG + (s.advance (s.call Z)).outPos)) := (h.advance_tracks hZ).related
  rw [hnil] at hrel
  have hend := (h.end_iff hZ).mpr ⟨hnil, List.drop_eq_nil_iff.mp (hZ.trailer hrel)⟩
  exact ZRet.noConfusion (hok.symm.trans hend)

/-- A turn after which the loop goes on: there is less to read, or less to come. -/
theorem Follow.turn_ok (hZ : Z.Decodes rel)
    (habs : ∀ k, k * TOTALLG ≤ o.length → (absorb K c o k).isSome)
    (h : Follow rel K c o tail k s) (hok : (s.call Z).ret = .ok) :
    ∃ s' k', s.turn Z K = some (.ok, s') ∧ Follow rel K c o tail k' s' ∧
      (s'.inp ++ s'.rem ++ tail).length + (o.drop (k' * TOTALLG + s'.outPos)).length <
        (s.inp ++ s.rem ++ tail).length + (o.drop (k * TOTALLG + s.outPos)).length := by
  have ht := h.advance_tracks hZ
  obtain ⟨t, k', hturn, ht', hroom, hinp, hrem, hpos⟩ : ∃ t k',
      s.turn Z K = some (.ok, Unpack.refill t) ∧ Tracks rel K c o tail k' t ∧
        t.outPos < TOTALLG ∧ t.inp = (s.advance (s.call Z)).inp ∧ t.rem = s.rem ∧
        k' * TOTALLG + t.outPos = k * TOTALLG + (s.advance (s.call Z)).outPos := by
    by_cases hfull : (s.advance (s.call Z)).outPos = TOTALLG
    · obtain ⟨t, hu, ht', hzero, hinp, hrem⟩ := ht.full hfull habs
      refine ⟨t, k + 1, turn_of_full hok hfull hu, ht', hzero ▸ TOTALLG_pos, hinp, hrem, ?_⟩
      rw [hzero, hfull, Nat.succ_mul, Nat.add_zero]
    · exact ⟨_, k, turn_of_room hok hfull, ht, lt_of_le_of_ne ht.outPos_le hfull, rfl, rfl, rfl⟩
  obtain ⟨-, hout, -⟩ := t.refill_other
  have hmore : t.inp ++ t.rem ++ tail ≠ [] := by
    rw [hinp, hrem]
    exact h.more_of_ok hZ hok
  refine ⟨t.refill, k', hturn, ht'.refill_follow hroom hmore, ?_⟩
  have hprog : 0 < (s.call Z).consumed + (s.call Z).out.length :=
    hZ.ok_progress .sync h.related (s.inp_prefix tail) h.room_pos hok
  have hcons : (s.call Z).consumed ≤ s.inp.length :=
    hZ.consumed_le .sync h.related (s.inp_prefix tail) h.room_pos
  have hlen : k * TOTALLG + (s.outPos + (s.call Z).out.length) ≤ o.length := ht.in_output
  rw [t.refill_input, hout, hinp, hrem, hpos]
  simp only [Unpack.advance, List.length_append, List.length_drop]
  omega

/-- With the end of the stream the file and its output have come to an end. -/
theorem Follow.turn_end (hZ : Z.Decodes rel) (h : Follow rel K c o tail k s)
    (hse : (s.call Z).ret = .streamEnd) :
    (s.advance (s.call Z)).inp = [] ∧ s.rem = [] ∧ tail = [] ∧
      k * TOTALLG + (s.advance (s.call Z)).outPos = o.length := by
  obtain ⟨hnil, hge⟩ := (h.end_iff hZ).mp hse
  rw [List.append_eq_nil_iff, List.append_eq_nil_iff] at hnil
  exact ⟨hnil.1.1, hnil.1.2, hnil.2, Nat.le_antisymm (h.advance_tracks hZ).in_output hge⟩

/-- A call that can do nothing has read all that the file has of the stream. -/
theorem Follow.turn_stuck (hZ : Z.Decodes rel) (h : Follow rel K c o tail k s)
    (hbe : (s.call Z).ret = .bufError) :
    (s.advance (s.call Z)).inp = [] ∧ s.rem = [] ∧ tail ≠ [] ∧
      (s.advance (s.call Z)).outPos < TOTALLG := by
  obtain ⟨hinp, hout⟩ : s.inp = [] ∧ (s.call Z).out = [] :=
    hZ.stuck h.related (s.inp_prefix tail) h.room_pos hbe
  have hrem := h.refilled hinp
  refine ⟨?_, hrem, fun htail => h.more ?_, ?_⟩
  · simp only [Unpack.advance, hinp, List.drop_nil]
  · rw [hinp, hrem, htail]
    rfl
  · simp only [Unpack.advance, hout, List.length_nil, Nat.add_zero]
    exact h.room

/-- The loop ends: with `Z_STREAM_END` on a complete file, with `Z_BUF_ERROR` on a
file that lacks a part of the stream. -/
theorem Follow.loop_ends (hZ : Z.Decodes rel)
    (habs : ∀ k, k * TOTALLG ≤ o.length → (absorb K c o k).isSome) {fuel : Nat}
    (h : Follow rel K c o tail k s)
    (hfuel : (s.inp ++ s.rem ++ tail).length + (o.drop (k * TOTALLG + s.outPos)).length < fuel) :
    ∃ ret s' k', Unpack.loop Z K fuel s = some (ret, s') ∧ Tracks rel K c o tail k' s' ∧
      s'.inp = [] ∧ s'.rem = [] ∧
      (tail = [] → ret = .streamEnd ∧ k' * TOTALLG + s'.outPos = o.length) ∧
      (tail ≠ [] → ret = .bufError ∧ s'.outPos < TOTALLG) := by
  -- the measure of the induction is the input still to be read plus the output still to come
  induction fuel generalizing k s with
  | zero => omega
  | succ fuel ih =>
    rcases hZ.ret_cases .sync h.related (s.inp_prefix tail) h.room_pos with hok | hse | hbe
    · obtain ⟨t, j, hturn, hf, hless⟩ := h.turn_ok hZ habs hok
      obtain ⟨ret, s', k', hloop, hrest⟩ := ih hf (by omega)
      refine ⟨ret, s', k', ?_, hrest⟩
      rw [Unpack.loop, hturn]
      exact hloop
    · have hret : (s.call Z).ret = .streamEnd := hse
      obtain ⟨hinp, hrem, htail, hout⟩ := h.turn_end hZ hret
      refine ⟨.streamEnd, s.advance (s.call Z), k, ?_, h.advance_tracks hZ, hinp, hrem,
        fun _ => ⟨rfl, hout⟩, fun hne => absurd htail hne⟩
      rw [Unpack.loop, turn_of_ne (by rw [hret]; simp), hret]
      rfl
    · have hret : (s.call Z).ret = .bufError := hbe
      obtain ⟨hinp, hrem, htail, hout⟩ := h.turn_stuck hZ hret
      refine ⟨.bufError, s.advance (s.call Z), k, ?_, h.advance_tracks hZ, hinp, hrem,
        fun hnil => absurd hnil htail, fun _ => ⟨rfl, hout⟩⟩
      rw [Unpack.loop, turn_of_ne (by rw [hret]; simp), hret]
      rfl

end Follow

end PulseImaging
