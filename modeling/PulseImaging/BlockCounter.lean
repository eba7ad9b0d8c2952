import PulseImaging.ImageStream
import PulseImaging.Receive

/-! The size of an image file and the 16-bit block numbers of its transfer. -/

namespace PulseImaging

def BLOCKFLUSH : Nat := 10

/-- How often `compress_data` asks for a full flush, `blocks` being `compressed_blocks` before. -/
def flushes : Nat → List DeflateCall → Nat
  | _, [] => 0
  | blocks, _ :: calls => if BLOCKFLUSH ≤ blocks + 1 then flushes 0 calls + 1 else flushes (blocks + 1) calls

/-- What is assumed of `deflate`: 5 bytes for each stored block of 16383 bytes, and so many for each
flush and for the stream. -/
def Codec.Expands (C : Codec) (perFlush perStream : Nat) : Prop :=
  ∀ calls, Finished calls → (C.deflate calls).length ≤
    (streamInput calls).length + 5 * (((streamInput calls).length + 16382) / 16383) +
      perFlush * flushes BLOCKFLUSH calls + perStream

/-- The packets of a transfer, the last of which may be empty. -/
def tftpBlocks (file : List Byte) : Nat := file.length / TFTPBLOCK + 1

/-! ### The size of a file -/

theorem flushes_le (blocks : Nat) (calls : List DeflateCall) :
    BLOCKFLUSH * flushes blocks calls ≤ calls.length + blocks := by
  induction calls generalizing blocks with
  | nil => exact Nat.zero_le _
  | cons c calls ih =>
    rw [flushes, List.length_cons]
    split
    · have h := ih 0
      simp only [BLOCKFLUSH] at *
      omega
    · have h := ih (blocks + 1)
      omega

theorem indexes_length_le (base : Nat) (bs : List Bool) : (indexes base bs).length ≤ bs.length := by
  induction bs generalizing base with
  | nil => exact Nat.le_refl _
  | cons b bs ih =>
    have h := ih (base + 1)
    rw [indexes, List.length_cons]
    split
    · rw [List.length_cons]
      omega
    · omega

theorem setBits_length_le (slice : List Byte) : (setBits slice).length ≤ 8 * slice.length :=
  (indexes_length_le 0 _).trans (bits_length slice).le

theorem scanBit_true_calls_cases (io : Nat → Outcome) (st : ScanState) :
    (scanBit io st true).calls = st.calls ∨
      (scanBit io st true).calls = st.calls ++ [⟨(scanBit io st true).buffer, false⟩] := by
  simp only [scanBit, if_true]
  split
  · exact Or.inr rfl
  · exact Or.inl rfl

/-- While the bitmap is scanned only full buffers go to `deflate`. -/
theorem scan_full (io : Nat → Outcome) (bs : List Bool) {st : ScanState} (hv : st.Valid)
    (h : ∀ c ∈ st.calls, c.data.length = TOTALLG) :
    ∀ c ∈ (bs.foldl (scanBit io) st).calls, c.data.length = TOTALLG := by
  induction bs generalizing st with
  | nil => exact h
  | cons b bs ih =>
    cases b with
    | false =>
      have hfalse : scanBit io st false = { st with skip := st.skip + 512 } := by simp [scanBit]
      have hv' : ScanState.Valid { st with skip := st.skip + 512 } := ⟨hv.1, hv.2, hv.3, hv.4⟩
      rw [List.foldl_cons, hfalse]
      exact ih hv' h
    | true =>
      obtain ⟨-, -, -, hv', -⟩ := scanBit_true_stream io hv
      rw [List.foldl_cons]
      refine ih hv' (fun c hc => ?_)
      rcases scanBit_true_calls_cases io st with hcalls | hcalls
      · exact h c (hcalls ▸ hc)
      · rw [hcalls, List.mem_append, List.mem_singleton] at hc
        rcases hc with hc | rfl
        · exact h c hc
        · dsimp only
          exact hv'.buffer_length

theorem streamInput_length {n : Nat} {calls : List DeflateCall} (h : ∀ c ∈ calls, c.data.length = n) :
    (streamInput calls).length = calls.length * n := by
  induction calls with
  | nil => exact (Nat.zero_mul n).symm
  | cons c calls ih =>
    rw [streamInput_cons, List.length_append, h c List.mem_cons_self,
      ih (fun d hd => h d (List.mem_cons_of_mem _ hd)), List.length_cons, Nat.succ_mul, Nat.add_comm]

/-- A stream whose calls are full but for the last, of the header and the sectors of a file. -/
structure FullCalls (calls : List DeflateCall) : Prop where
  finished : Finished calls
  full : ∃ pre c, calls = pre ++ [c] ∧ ∀ d ∈ pre, d.data.length = TOTALLG
  size : (streamInput calls).length ≤ TOTALLG + 512 * (8 * ALLOCLG)

theorem FullCalls.length_le {calls : List DeflateCall} (h : FullCalls calls) :
    calls.length ≤ 3749 := by
  obtain ⟨pre, c, rfl, hfull⟩ := h.full
  have hsize := h.size
  rw [streamInput_append, List.length_append, streamInput_length hfull] at hsize
  rw [List.length_append, List.length_singleton]
  simp only [TOTALLG, ALLOCLG] at hsize
  omega

theorem compressFile_full (io : Nat → Outcome) {header bitmap buffer : List Byte} (dev : Device)
    (hheader : header.length = TOTALLG) (hbitmap : bitmap.length ≤ ALLOCLG)
    (hbuf : buffer.length = TOTALLG) :
    FullCalls (compressFile io header bitmap dev buffer).calls := by
  obtain ⟨-, secs, hdata, -⟩ := @compressFile_stream io header bitmap buffer dev hbuf
  obtain ⟨tail, hcalls, htail⟩ := hdata.header_first
  have hv : ScanState.Valid ⟨dev, 0, buffer, 0, [⟨header, false⟩]⟩ :=
    ⟨hbuf, TOTALLG_pos, Nat.dvd_zero _, by simp⟩
  obtain ⟨hv', -⟩ := scan_stream io (bits bitmap) (Nat.le_refl 0) rfl hv
  have hfull := scan_full io (bits bitmap) hv
    (fun c hc => by rw [List.mem_singleton.mp hc]; exact hheader)
  refine ⟨hdata.finished, ?_, ?_⟩
  · simp only [compressFile, scanBitmap_eq, compressEnd_eq hv']
    exact ⟨_, _, rfl, hfull⟩
  · have hsecs : secs.flatten.length = secs.length * 512 := by
      rw [List.length_flatten, List.map_congr_left hdata.secs_length, List.map_const',
        List.sum_replicate, smul_eq_mul]
    have hcount : secs.length ≤ 8 * bitmap.length :=
      hdata.secs_count.trans_le (setBits_length_le bitmap)
    have hstream : (streamInput (compressFile io header bitmap dev buffer).calls).length =
        TOTALLG + secs.length * 512 := by
      rw [hcalls, streamInput_cons, htail, List.length_append, hsecs]
      exact congrArg (· + _) hheader
    rw [hstream]
    omega

theorem compressLoop_full (io : Nat → Outcome) (options : Option (List Byte)) (n i : Nat)
    {first : List Byte} (rest : List Byte) (dev : Device) {buffer : List Byte}
    (hfirst : first.length ≤ 100) (hbuf : buffer.length = TOTALLG) :
    ∀ calls ∈ (compressLoop io options n i first rest dev buffer).files, FullCalls calls := by
  induction n generalizing i first rest dev buffer with
  | zero => exact fun calls hcalls => absurd hcalls List.not_mem_nil
  | succ n ih =>
    obtain ⟨ht, hd, hl⟩ := lg_eq rest
    have hslice : (rest.take ALLOCLG).length ≤ ALLOCLG := List.length_take_le _ _
    have hheader := imageHeader_length
      (headerText_length_lt hfirst (filestring_length_le options i) hslice).le hslice
    intro calls hcalls
    simp only [compressLoop] at hcalls
    rw [ht, hd, hl] at hcalls
    rcases List.mem_cons.mp hcalls with rfl | hcalls
    · exact compressFile_full io dev hheader hslice hbuf
    · exact @ih (i + 1) [] (rest.drop ALLOCLG) _ _ (Nat.zero_le 100)
        (compressFile_stream io dev hbuf).1 calls hcalls

theorem compressVolume_full (io : Nat → Outcome) (options : Option (List Byte)) {info : List Byte}
    (hinfo : info ∈ imagerInfos) (p : PARAMS) (dev : Device) :
    ∀ calls ∈ (compressVolume io options info p dev).files, FullCalls calls :=
  compressLoop_full io options _ 0 p.bitmap dev
    (firststring_length_le hinfo p.nb_sect_lt p.nb_lt) List.length_replicate

/-- With 5 million bytes for all the flushes and the stream the blocks can be numbered with 16 bits. -/
theorem FullCalls.tftpBlocks_le {C : Codec} {perFlush perStream : Nat}
    (hC : C.Expands perFlush perStream) (hsmall : 375 * perFlush + perStream ≤ 5000000)
    {calls : List DeflateCall} (h : FullCalls calls) :
    tftpBlocks (C.deflate calls) ≤ 65535 := by
  have hlen := h.length_le
  have hsize := h.size
  have hflushes : flushes BLOCKFLUSH calls ≤ 375 := by
    have hle := flushes_le BLOCKFLUSH calls
    simp only [BLOCKFLUSH] at *
    omega
  have hexpands := hC calls h.finished
  have hmul := Nat.mul_le_mul_left perFlush hflushes
  simp only [TOTALLG, ALLOCLG] at hsize
  have hbytes : (C.deflate calls).length < 65535 * TFTPBLOCK := by
    simp only [TFTPBLOCK]
    omega
  exact Nat.div_lt_of_lt_mul (by rwa [Nat.mul_comm])

/-! ### The block numbers -/

theorem block_payload_le (file : List Byte) (k : Nat) :
    ((file.drop (TFTPBLOCK * (k - 1))).take TFTPBLOCK).length ≤ TFTPBLOCK := List.length_take_le _ _

theorem block_number_lt (k : Nat) : k % 2 ^ 16 < 2 ^ 16 := Nat.mod_lt _ (by norm_num)

theorem data_op_lt : 3 < 2 ^ 16 := by norm_num

/-- Block `k` as a server sends it, with a number of 16 bits. -/
def serverBlock (file : List Byte) (k : Nat) : Datagram where
  op := 3
  block := k % 2 ^ 16
  payload := (file.drop (TFTPBLOCK * (k - 1))).take TFTPBLOCK
  op_lt := data_op_lt
  block_lt := block_number_lt k
  payload_le := block_payload_le file k

variable {σ : Type}

/-- What is received next: the acknowledgement of the options, then one block after the other. -/
def NextBlock (file : List Byte) (s : GetState σ) (d : Datagram) : Prop :=
  (s.lastblk = -1 ∧ d.op = 6) ∨ (s.lastblk ≠ -1 ∧ d = serverBlock file (s.accepted.length + 1))

/-- How far an attempt has come. -/
structure InOrderState (file : List Byte) (s : GetState σ) : Prop where
  lastblk : s.lastblk = s.accepted.length ∨ s.lastblk = -1 ∧ s.accepted = []
  tftpend : s.tftpend = true ↔ file.length < TFTPBLOCK * s.accepted.length

/-- The fields that only packets change. -/
structure SameBlocks (s t : GetState σ) : Prop where
  lastblk : t.lastblk = s.lastblk
  accepted : t.accepted = s.accepted
  tftpend : t.tftpend = s.tftpend

theorem InOrderState.same {file : List Byte} {s t : GetState σ} (h : InOrderState file s)
    (hst : SameBlocks s t) :
    InOrderState file t :=
  ⟨by rw [hst.lastblk, hst.accepted]; exact h.lastblk,
    by rw [hst.accepted, hst.tftpend]; exact h.tftpend⟩

theorem InOrderState.restart (file : List Byte) (E : GetEnv) (s : GetState E.decoder.State) :
    InOrderState file (E.restart s) := ⟨Or.inr ⟨rfl, rfl⟩, by simp [GetEnv.restart]⟩

theorem InOrderState.start (file : List Byte) (E : GetEnv) (disk : Content) (info : ImageInfo)
    (alloc buffer : List Byte) : InOrderState file (E.start disk info alloc buffer) :=
  ⟨Or.inr ⟨rfl, rfl⟩, by simp [GetEnv.start]⟩

theorem load_blocks (s : GetState σ) : SameBlocks s s.load := by
  simp only [GetState.load]
  split <;> exact ⟨rfl, rfl, rfl⟩

theorem writeBuffer_same {total : Nat} {past : Byte} {s t : GetState σ}
    (h : s.writeBuffer total past = some t) :
    SameBlocks s t := by
  rcases writeBuffer_cases h with ⟨-, rfl⟩ | ⟨-, x, -, rfl⟩
  · exact ⟨rfl, rfl, rfl⟩
  · exact ⟨rfl, rfl, rfl⟩

theorem collect_same {s t : GetState σ} (h : s.collect = some t) : SameBlocks s t := by
  obtain ⟨total, -, h⟩ := Option.bind_eq_some_iff.mp h
  split at h
  · split at h
    · rw [← Option.some.inj h]
      exact ⟨rfl, rfl, rfl⟩
    · obtain ⟨x, -, rfl⟩ := Option.map_eq_some_iff.mp h
      exact ⟨rfl, rfl, rfl⟩
  · rw [← Option.some.inj h]
    exact ⟨rfl, rfl, rfl⟩

theorem inflateTurn_same {E : GetEnv} {s t : GetState E.decoder.State} (h : E.inflateTurn s = .go t) :
    SameBlocks s t := by
  have hused (u : GetState E.decoder.State) : SameBlocks u u.used.filled := by
    simp only [GetState.used, GetState.filled]
    split <;> split <;> exact ⟨rfl, rfl, rfl⟩
  rcases inflateTurn_cases E s with ⟨-, he⟩ | ⟨-, he⟩ | ⟨-, -, he⟩
  · obtain rfl : (s.advance (E.call s)).finished = t := by
      rw [he] at h
      exact Flow.go.inj h
    exact ⟨rfl, rfl, rfl⟩
  · obtain rfl : (s.advance (E.call s)).used.filled = t := by
      rw [he] at h
      exact Flow.go.inj h
    obtain ⟨h1, h2, h3⟩ := hused (s.advance (E.call s))
    exact ⟨h1, h2, h3⟩
  · rw [he] at h
    cases h

/-- Nothing but a packet changes what has been received. -/
theorem polled_same {E : GetEnv} {s t : GetState E.decoder.State} {e : Event}
    {f : Flow E.decoder.State} (hf : E.body e.past s = some f)
    (ht : f.andThen (GetState.clock e.tick) = .go t) : SameBlocks s t := by
  have hclock {u : GetState E.decoder.State} (hu : u.clock e.tick = .go t) : SameBlocks u t := by
    simp only [GetState.clock] at hu
    split at hu
    · split at hu
      · cases hu
      · rw [← Flow.go.inj hu]
        exact ⟨rfl, rfl, rfl⟩
    · rw [← Flow.go.inj hu]
      exact ⟨rfl, rfl, rfl⟩
  have htrans {u : GetState E.decoder.State} (hsu : SameBlocks s u) (hu : u.clock e.tick = .go t) :
      SameBlocks s t := by
    obtain ⟨h1, h2, h3⟩ := hclock hu
    exact ⟨h1.trans hsu.1, h2.trans hsu.2, h3.trans hsu.3⟩
  rcases body_cases hf with ⟨-, u, hu, rfl⟩ | ⟨-, -, -, rfl⟩ | ⟨-, -, u, hu, rfl⟩
  · exact htrans (writeBuffer_same hu) ht
  · cases hturn : E.inflateTurn s.load with
    | go u =>
      rw [hturn] at ht
      obtain ⟨h1, h2, h3⟩ := inflateTurn_same hturn
      obtain ⟨l1, l2, l3⟩ := load_blocks s
      exact htrans ⟨h1.trans l1, h2.trans l2, h3.trans l3⟩ ht
    | again u => rw [hturn] at ht; cases ht
    | ret code u => rw [hturn] at ht; cases ht
  · obtain ⟨l1, l2, l3⟩ := load_blocks s
    obtain ⟨h1, h2, h3⟩ := collect_same hu
    exact htrans ⟨h1.trans l1, h2.trans l2, h3.trans l3⟩ ht

theorem NextBlock.same {file : List Byte} {s t : GetState σ} {d : Datagram} (h : NextBlock file s d)
    (hst : SameBlocks s t) : NextBlock file t d := by
  rw [NextBlock, hst.lastblk, hst.accepted]
  exact h

/-- The number of the block that is expected has not been reduced. -/
theorem InOrderState.block_eq {file : List Byte} {s : GetState σ} (h : InOrderState file s)
    (hfile : tftpBlocks file ≤ 65535) (hend : s.tftpend = false) (hl : s.lastblk ≠ -1) :
    (serverBlock file (s.accepted.length + 1)).block = s.accepted.length + 1 ∧
      s.lastblk + 1 = (s.accepted.length + 1 : Nat) := by
  have hlast : s.lastblk = s.accepted.length := h.lastblk.resolve_right (fun hno => hl hno.1)
  have hle : TFTPBLOCK * s.accepted.length ≤ file.length := by
    by_contra hlt
    exact Bool.noConfusion (hend.symm.trans (h.tftpend.mpr (by omega)))
  have hdiv : s.accepted.length ≤ file.length / TFTPBLOCK :=
    (Nat.le_div_iff_mul_le (by decide)).mpr (by rwa [Nat.mul_comm])
  rw [tftpBlocks] at hfile
  exact ⟨Nat.mod_eq_of_lt (by omega), by rw [hlast]; rfl⟩

theorem InOrderState.receive {file : List Byte} {s : GetState σ} (h : InOrderState file s)
    (hfile : tftpBlocks file ≤ 65535) (hend : s.tftpend = false) {d : Datagram}
    (hd : NextBlock file s d) (i : Fin NB_BUF) :
    (s.lastblk ≠ -1 → s.receive i d = .go (({ s with timeout := 0 }).accept i d)) ∧
      ∃ t, s.receive i d = .go t ∧ InOrderState file t := by
  rcases hd with ⟨hl, h6⟩ | ⟨hl, rfl⟩
  · have hnil : s.accepted = [] := by
      rcases h.lastblk with hlast | hlast
      · omega
      · exact hlast.2
    refine ⟨fun hne => absurd hl hne, { s with timeout := 0, lastblk := 0 },
      by simp [GetState.receive, h6, hl], ?_⟩
    exact ⟨Or.inl (by simp [hnil]), h.tftpend⟩
  · obtain ⟨hblock, hlast⟩ := h.block_eq hfile hend hl
    have h3 : (serverBlock file (s.accepted.length + 1)).op = 3 := rfl
    have hrec : s.receive i (serverBlock file (s.accepted.length + 1)) =
        .go (({ s with timeout := 0 }).accept i (serverBlock file (s.accepted.length + 1))) := by
      have hnext : ((serverBlock file (s.accepted.length + 1)).block : Int) = s.lastblk + 1 := by
        rw [hblock, hlast]
      simp [GetState.receive, h3, hnext]
    refine ⟨fun _ => hrec, _, hrec, Or.inl ?_, ?_⟩
    · simp only [GetState.accept, hblock, List.length_append, List.length_singleton]
    · have hlen : (serverBlock file (s.accepted.length + 1)).payload.length =
          min TFTPBLOCK (file.length - TFTPBLOCK * s.accepted.length) := by
        simp only [serverBlock, List.length_take, List.length_drop, Nat.add_sub_cancel]
      simp only [GetState.accept, decide_eq_true_eq, hlen, List.length_append,
        List.length_singleton, Nat.mul_succ]
      have hblk : 0 < TFTPBLOCK := by decide
      omega

theorem InOrderState.poll {file : List Byte} {s : GetState σ} (h : InOrderState file s)
    (hfile : tftpBlocks file ≤ 65535) {d : Option Datagram}
    (hd : ∀ d', d = some d' → NextBlock file s d') :
    (∃ t, s.poll d = .go t ∧ InOrderState file t) ∨ ∃ t, s.poll d = .ret 0 t := by
  have houter {t : GetState σ} (ht : InOrderState file t) :
      (∃ u, t.outer = .go u ∧ InOrderState file u) ∨ ∃ u, t.outer = .ret 0 u := by
    by_cases hover : t.ending = .over
    · exact Or.inr ⟨t, if_pos hover⟩
    · exact Or.inl ⟨t, if_neg hover, ht⟩
  rw [GetState.poll]
  split
  · exact Or.inl ⟨s, rfl, h⟩
  · cases s.queue.getEmpty with
    | none => exact Or.inl ⟨s, rfl, h⟩
    | some i =>
      dsimp only
      by_cases hend : s.tftpend = true
      · rw [if_pos hend]
        exact houter h
      · rw [if_neg hend]
        cases d with
        | none => exact Or.inl ⟨s, rfl, h⟩
        | some d =>
          obtain ⟨-, t, ht, hstate⟩ := h.receive hfile (Bool.not_eq_true _ ▸ hend) (hd d rfl) i
          dsimp only
          rw [ht]
          exact houter hstate

theorem InOrderState.step {file : List Byte} {E : GetEnv} {s t : GetState E.decoder.State}
    {e : Event} (h : InOrderState file s) (hfile : tftpBlocks file ≤ 65535)
    (he : ∀ d, e.poll = some d → NextBlock file s d) (ht : E.step s e = some (.running t)) :
    InOrderState file t := by
  obtain ⟨f, hf, hres⟩ := Option.map_eq_some_iff.mp ht
  obtain ⟨g, hg, rfl⟩ := Option.map_eq_some_iff.mp hf
  cases hmid : g.andThen (GetState.clock e.tick) with
  | go u =>
    have hsame := polled_same hg hmid
    rw [hmid] at hres
    rcases (h.same hsame).poll hfile (fun d hd => (he d hd).same hsame) with ⟨v, hv, hstate⟩ | ⟨v, hv⟩
    · have hv' : (Flow.go u).andThen (fun s => s.poll e.poll) = .go v := hv
      rw [hv'] at hres
      rw [← Progress.running.inj hres]
      exact hstate
    · have hv' : (Flow.go u).andThen (fun s => s.poll e.poll) = .ret 0 v := hv
      rw [hv'] at hres
      cases hres
  | again u =>
    rw [hmid] at hres
    rw [← Progress.running.inj hres]
    exact InOrderState.restart file E u
  | ret code u =>
    rw [hmid] at hres
    cases hres

/-- The packets of a run come in order. -/
def RunInOrder (file : List Byte) (E : GetEnv) (s : GetState E.decoder.State) (evs : List Event) : Prop :=
  ∀ pre e post t, evs = pre ++ e :: post → E.run s pre = some (.running t) → ∀ d, e.poll = some d → NextBlock file t d

theorem InOrderState.run {file : List Byte} {E : GetEnv} {s t : GetState E.decoder.State}
    {evs : List Event} (h : InOrderState file s) (hfile : tftpBlocks file ≤ 65535)
    (hevs : RunInOrder file E s evs) (ht : E.run s evs = some (.running t)) :
    InOrderState file t := by
  induction evs generalizing s with
  | nil =>
    rw [GetEnv.run] at ht
    rw [← Progress.running.inj (Option.some.inj ht)]
    exact h
  | cons e evs ih =>
    obtain ⟨r, hr, hrest⟩ := Option.bind_eq_some_iff.mp ht
    cases r with
    | returned code u => cases hrest
    | running u =>
      have hstep := h.step hfile (hevs [] e evs s rfl rfl) hr
      refine ih hstep (fun pre e' post v hes hv => ?_) hrest
      refine hevs (e :: pre) e' post v (by rw [hes]; rfl) ?_
      rw [GetEnv.run, hr, Option.bind_some]
      exact hv

/-- An image file has at most 65535 blocks, so the block that is next is always the one that is
expected, and its number has not wrapped. -/
theorem image_fits_block_counter {C : Codec} {perFlush perStream : Nat} (hC : C.Expands perFlush perStream)
    (hsmall : 375 * perFlush + perStream ≤ 5000000) (io : Nat → Outcome) (options : Option (List Byte))
    {info : List Byte} (hinfo : info ∈ imagerInfos) (p : PARAMS) (dev : Device) {calls : List DeflateCall}
    (hcalls : calls ∈ (compressVolume io options info p dev).files) :
    tftpBlocks (C.deflate calls) ≤ 65535 ∧
    ∀ (E : GetEnv) (disk : Content) (image : ImageInfo) (alloc buffer : List Byte) (evs : List Event)
      (s t : GetState E.decoder.State) (e : Event) (f : Flow E.decoder.State),
      RunInOrder (C.deflate calls) E (E.start disk image alloc buffer) evs →
      E.run (E.start disk image alloc buffer) evs = some (.running s) →
      -- `t` is the state in which the packet is received
      E.body e.past s = some f → f.andThen (GetState.clock e.tick) = .go t →
      t.tftpend = false → t.lastblk ≠ -1 → ∀ i,
        (serverBlock (C.deflate calls) (t.accepted.length + 1)).block = t.accepted.length + 1 ∧
        t.lastblk + 1 = (t.accepted.length + 1 : Nat) ∧
        t.receive i (serverBlock (C.deflate calls) (t.accepted.length + 1)) =
          .go (({ t with timeout := 0 }).accept i (serverBlock (C.deflate calls) (t.accepted.length + 1))) := by
  have hfile := (compressVolume_full io options hinfo p dev calls hcalls).tftpBlocks_le hC hsmall
  refine ⟨hfile, fun E disk image alloc buffer evs s t e f hevs hrun hf ht hend hl i => ?_⟩
  have hs := (InOrderState.start (C.deflate calls) E disk image alloc buffer).run hfile hevs hrun
  have hstate := hs.same (polled_same hf ht)
  obtain ⟨hblock, hlast⟩ := hstate.block_eq hfile hend hl
  exact ⟨hblock, hlast, (hstate.receive hfile hend (Or.inr ⟨hl, rfl⟩) i).1 hl⟩

theorem storedBlocks_length_le (fuel : Nat) (data : List Byte) :
    (storedBlocks fuel data).length ≤ data.length + 5 * (data.length / 65535 + 1) := by
  have hblock (last : Bool) (data : List Byte) : (storedBlock last data).length =
      data.length + 5 := by
    rw [storedBlock, List.length_append, Nat.add_comm]
    rfl
  induction fuel generalizing data with
  | zero =>
    rw [storedBlocks, hblock]
    omega
  | succ fuel ih =>
    rw [storedBlocks]
    split
    · rw [hblock]
      omega
    · have h := ih (data.drop 65535)
      rw [List.length_drop] at h
      rw [List.length_append, hblock, List.length_take]
      omega

theorem storedCodec_expands : storedCodec.Expands 0 11 := by
  intro calls _
  have h := storedBlocks_length_le (streamInput calls).length (streamInput calls)
  have hlen : (storedCodec.deflate calls).length =
      2 + (storedBlocks (streamInput calls).length (streamInput calls)).length + 4 := by
    simp [storedCodec, storedDeflate, Adler.bytes]
    omega
  rw [hlen]
  omega

/-- Behind the acknowledgement. -/
def acknowledged : GetState storedEnv.decoder.State := { storedStart with lastblk := 0 }

theorem oack_inOrder (file : List Byte) :
    RunInOrder file storedEnv storedStart [event (some oack)] := by
  intro pre e post t hevs ht d hd
  cases pre with
  | nil =>
    obtain ⟨rfl, -⟩ := List.cons.inj hevs
    obtain rfl := Option.some.inj hd
    obtain rfl := Progress.running.inj (Option.some.inj ht)
    exact Or.inl ⟨rfl, rfl⟩
  | cons x pre => exact absurd (congrArg List.length hevs) (by simp)

/-- The first block of an image of two sectors is accepted behind the acknowledgement. -/
theorem image_fits_block_counter_stored : ∃ calls ∈ (compressVolume allFull none (ascii "FAT32=1")
    ⟨[0x05], 3, by decide, by decide⟩ (openDevice (fun _ => 0))).files, tftpBlocks (storedDeflate calls) ≤ 65535 ∧
      storedEnv.run storedStart [event (some oack)] = some (.running acknowledged) ∧
      ∀ i, (serverBlock (storedDeflate calls) 1).block = 1 ∧
        acknowledged.receive i (serverBlock (storedDeflate calls) 1) =
          .go (acknowledged.accept i (serverBlock (storedDeflate calls) 1)) := by
  have hfile : ∃ calls, calls ∈ (compressVolume allFull none (ascii "FAT32=1")
      ⟨[0x05], 3, by decide, by decide⟩ (openDevice (fun _ => 0))).files := ⟨_, List.mem_cons_self⟩
  obtain ⟨calls, hcalls⟩ := hfile
  obtain ⟨hblocks, hreceive⟩ := image_fits_block_counter storedCodec_expands
    (by norm_num) allFull none
    (by decide) _ _ hcalls
  have hrun : storedEnv.run storedStart [event (some oack)] = some (.running acknowledged) := rfl
  have hbody : storedEnv.body 0 acknowledged = some (.go acknowledged) := rfl
  have haccept := hreceive storedEnv (fun _ => 0) ⟨false, false, 0, 0, 0⟩ []
    (List.replicate OUTBUFF 0) [event (some oack)] acknowledged acknowledged
      (event none) _ (oack_inOrder _) hrun
    hbody rfl rfl (by decide)
  exact ⟨calls, hcalls, hblocks, hrun, fun i => ⟨(haccept i).1, (haccept i).2.2⟩⟩

end PulseImaging
