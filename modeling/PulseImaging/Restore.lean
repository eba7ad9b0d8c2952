import PulseImaging.FlushToDisk
import PulseImaging.Unpack

/-! `restore` of `autorestore.c`: the files of an image are decompressed one after
the other onto the device, a file that does not decompress being fetched again. -/

namespace PulseImaging

/-- The buffers `BUFFER` and `Bitmap`, with whatever an earlier partition left. -/
structure Memory where
  buffer : List Byte
  bitmap : List Byte
  buffer_length : buffer.length = TOTALLG
  bitmap_length : bitmap.length = ALLOCLG

/-- Buffers as they are allocated, all zero. -/
def freshMemory : Memory where
  buffer := List.replicate TOTALLG 0
  bitmap := List.replicate ALLOCLG 0
  buffer_length := List.length_replicate
  bitmap_length := List.length_replicate

structure RestoreSink where
  cp : CurrentParams
  fmax : Int

/-- The bit index is 0 whenever a header is read. -/
def restoreSink (io : Nat → Outcome) : Sink RestoreSink where
  header t buffer := ⟨{ t.cp with bitindex := 0 }, (headerField blocksKey buffer).getD t.fmax⟩
  flush t buffer bitmap lg := (flushToDisk io buffer bitmap t.cp lg).map (fun cp => { t with cp := cp })

structure RestoreState where
  cp : CurrentParams
  fmax : Int
  buffer : List Byte
  bitmap : List Byte

/-- `lseek64(fo, 0, SEEK_CUR)`; a failed call gives -1, and seeking there fails. -/
def startOffset (io : Nat → Outcome) (dev : Device) : Option Nat :=
  if dev.next io = .full then some dev.pos else none

def seekBack (io : Nat → Outcome) (starto : Option Nat) (dev : Device) : Device :=
  match starto with
  | some p => dev.exec io (.seekTo p)
  | none => dev

/-- The seek over the clear bits at the end of a file. -/
def lastFill (io : Nat → Outcome) (bitmaplg : Int) (cp : CurrentParams) : CurrentParams :=
  if bitmaplg ≠ 0 ∧ bitmaplg * 8 > cp.bitindex then
    let s := 512 * (bitmaplg * 8 - cp.bitindex).toNat
    { cp with offset := cp.offset + s, dev := cp.dev.exec io (.skip s) }
  else cp

/-- From the label `start` to the last `inflate`. -/
def restorePass (Z : Inflater) (io : Nat → Outcome) (fuel : Nat) (file : List Byte) (st : RestoreState) :
    Option (Pass Z.State RestoreSink) :=
  Unpack.pass Z (restoreSink io) fuel
    (Unpack.start Z file st.buffer st.bitmap ⟨⟨0, 0, st.cp.dev.exec io .tell, st.cp.maxindex⟩, st.fmax⟩)

/-- The flag says whether the file was taken. -/
def restoreAttempt (Z : Inflater) (io : Nat → Outcome) (fuel : Nat) (file : List Byte) (st : RestoreState) :
    Option (Bool × RestoreState) :=
  (restorePass Z io fuel file st).map (fun p =>
    let t := p.state.core.sink
    let bitmap := p.state.core.bitmap
    if p.final.code < 0 then
      (false, ⟨{ t.cp with dev := seekBack io (startOffset io st.cp.dev) t.cp.dev }, t.fmax,
        p.state.buffer, bitmap⟩)
    else (true, ⟨lastFill io p.state.core.bitmaplg t.cp, t.fmax, p.state.buffer, bitmap⟩))

/-- `get n a` is file `n` as it is found at attempt `a`. A file that cannot be had
at the first attempt ends the loop, one that disappears later is fatal. -/
def restoreLoop (Z : Inflater) (io : Nat → Outcome) (fuel : Nat) (get : Nat → Nat → Option (List Byte)) :
    Nat → Nat → Nat → RestoreState → Option RestoreState
  | 0, _, _, _ => none
  | turns + 1, filenum, attempt, st =>
    match get filenum attempt with
    | none => if attempt = 0 then some st else none
    | some file =>
      (restoreAttempt Z io fuel file st).bind (fun x =>
        if x.1 then
          if x.2.fmax ≠ -1 ∧ (filenum + 1 : Int) ≥ x.2.fmax then some x.2
          else restoreLoop Z io fuel get turns (filenum + 1) 0 x.2
        else restoreLoop Z io fuel get turns filenum (attempt + 1) x.2)

def restore (Z : Inflater) (io : Nat → Outcome) (fuel : Nat) (get : Nat → Nat → Option (List Byte))
    (sect : Nat) (mem : Memory) (dev : Device) : Option RestoreState :=
  restoreLoop Z io fuel get fuel 0 0
    ⟨⟨0, 512 * sect, dev.exec io (.seekTo (512 * sect)), 0⟩, -1, mem.buffer, mem.bitmap⟩

/-! ### What a file of an image does to the device -/

/-- The layout of a decompressed file: a header whose second part is the bitmap. -/
structure Part.Shaped (p : Part) : Prop where
  slice_le : p.slice.length ≤ ALLOCLG
  header_length : p.header.length = TOTALLG
  header_bitmap : p.header.drop HEADERLG = zeroPad ALLOCLG p.slice

/-- What `restore` reads from the header. -/
def Part.lg (p : Part) : Int := (headerField alloctablelgKey p.header).getD 0

def Part.blocks (p : Part) : Option Int := headerField blocksKey p.header

/-- The header of a file is read back: the length of the bitmap part and the number
of files, if the header gives one. -/
structure Part.Readable (p : Part) (blocks : Option Int) : Prop extends p.Shaped where
  alloctablelg : headerField alloctablelgKey p.header = some (p.slice.length : Int)
  blocks_eq : headerField blocksKey p.header = blocks

/-- The sectors of a file with their bit indexes. -/
def Part.items (p : Part) : List (Nat × List Byte) := (setBits p.slice).zip p.secs

/-- The decompressed file. -/
def Part.output (p : Part) : List Byte := p.header ++ p.secs.flatten

structure Part.Sectors (p : Part) : Prop where
  secs_length : ∀ s ∈ p.secs, s.length = 512
  secs_count : p.secs.length = (setBits p.slice).length

theorem FileData.sectors {calls : List DeflateCall} {p : Part} (h : FileData calls p) : p.Sectors :=
  ⟨h.secs_length, h.secs_count⟩

theorem FileData.input {calls : List DeflateCall} {p : Part} (h : FileData calls p) :
    streamInput calls = p.output := by
  obtain ⟨tail, hc, ht⟩ := h.header_first
  rw [hc, streamInput_cons, ht]
  rfl

theorem imageHeader_shaped {text slice : List Byte} (ht : text.length ≤ HEADERLG)
    (hs : slice.length ≤ ALLOCLG) (secs : List (List Byte)) :
    Part.Shaped ⟨imageHeader text slice, slice, secs⟩ := by
  refine ⟨hs, imageHeader_length ht hs, ?_⟩
  rw [imageHeader, List.drop_left' (zeroPad_length ht)]

theorem length_flatten_512 {secs : List (List Byte)} (h : ∀ s ∈ secs, s.length = 512) :
    secs.flatten.length = 512 * secs.length := by
  induction secs with
  | nil => rfl
  | cons s secs ih =>
    rw [List.flatten_cons, List.length_append, h s (by simp), ih (fun t ht => h t (by simp [ht])),
      List.length_cons]
    omega

theorem drop_flatten_512 {secs : List (List Byte)} (h : ∀ s ∈ secs, s.length = 512) (n : Nat) :
    secs.flatten.drop (512 * n) = (secs.drop n).flatten := by
  induction n generalizing secs with
  | zero => rfl
  | succ n ih =>
    cases secs with
    | nil => simp
    | cons s secs =>
      have hs := h s (by simp)
      rw [List.flatten_cons, show 512 * (n + 1) = s.length + 512 * n by omega,
        List.drop_length_add_append, ih (fun t ht => h t (by simp [ht])), List.drop_succ_cons]

theorem take_flatten_512 {secs : List (List Byte)} (h : ∀ s ∈ secs, s.length = 512) (n : Nat) :
    secs.flatten.take (512 * n) = (secs.take n).flatten := by
  induction n generalizing secs with
  | zero => rfl
  | succ n ih =>
    cases secs with
    | nil => simp
    | cons s secs =>
      have hs := h s (by simp)
      rw [List.flatten_cons, show 512 * (n + 1) = s.length + 512 * n by omega,
        List.take_length_add_append, ih (fun t ht => h t (by simp [ht])), List.take_succ_cons,
        List.flatten_cons]

theorem ascends_append {cur : Nat} {a b : List (Nat × List Byte)}
    (h : Ascends cur ((a ++ b).map Prod.fst)) :
    Ascends cur ((writes a).map Prod.fst) ∧ Ascends (visitEnd cur (writes a))
      ((writes b).map Prod.fst) := by
  induction a generalizing cur with
  | nil => exact ⟨trivial, by rwa [writes_fst]⟩
  | cons x a ih =>
    obtain ⟨h1, h2⟩ := ih h.2
    exact ⟨⟨h.1, h1⟩, h2⟩

theorem after_append (io : Nat → Outcome) (cp : CurrentParams) {a b : List (Nat × List Byte)}
    (h : Ascends cp.bitindex ((a ++ b).map Prod.fst)) :
    (cp.after io a).after io b = cp.after io (a ++ b) := by
  obtain ⟨ha, hb⟩ := ascends_append h
  have h1 := le_visitEnd ha
  have h2 := le_visitEnd hb
  simp only [CurrentParams.after, writes_append, visitEnd_append, visit_append, run_append,
    highest, List.foldl_append, CurrentParams.mk.injEq, true_and, and_true]
  omega

theorem remaining_visitEnd {bit : List Byte} {i : Nat} {gs : List Nat} {secs : List (List Byte)}
    (h : remaining bit i = gs) (hl : secs.length = gs.length) (n : Nat) :
    remaining bit (visitEnd i (writes ((gs.zip secs).take n))) = gs.drop n := by
  induction n generalizing i gs secs with
  | zero => simpa [writes, visitEnd] using h
  | succ n ih =>
    cases gs with
    | nil => simpa [writes, visitEnd] using h
    | cons g gs =>
      cases secs with
      | nil => simp at hl
      | cons sec secs =>
        obtain ⟨_, _, htail⟩ := remaining_tail h
        exact ih htail (by simpa using hl)

theorem Part.items_ascends {p : Part} (hp : p.Sectors) : Ascends 0 (p.items.map Prod.fst) := by
  rw [Part.items, List.map_fst_zip hp.secs_count.ge]
  exact setBits_ascends p.slice

theorem Part.items_length {p : Part} (hp : p.Sectors) : ∀ x ∈ p.items, x.2.length = 512 := by
  intro x hx
  exact hp.secs_length _ (List.of_mem_zip (show (x.1, x.2) ∈ (setBits p.slice).zip p.secs from hx)).2

/-! ### Passes over a file -/

section Takes

variable {τ : Type} {K : Sink τ} {p : Part} {t : τ} {T : Nat → τ} {bitmap : List Byte}

/-- What a sink makes of a file: its state is `T n` after the header and `n` sectors. -/
structure Sink.Takes (K : Sink τ) (p : Part) (t : τ) (T : Nat → τ) : Prop where
  header : K.header t p.header = T 0
  flush : ∀ {n m : Nat} {buff junk : List Byte}, n ≤ m → m ≤ p.secs.length →
    buff = ((p.secs.drop n).take (m - n)).flatten ++ junk →
    K.flush (T n) buff (zeroPad ALLOCLG p.slice) (512 * (m - n)) = some (T m)

def Part.coreAt (p : Part) (T : Nat → τ) (n : Nat) : Core τ := ⟨T n, zeroPad ALLOCLG p.slice, p.lg, false⟩

theorem readHeader_eq (hr : p.Shaped) (hK : K.Takes p t T) (b : Bool) :
    Core.readHeader K ⟨t, bitmap, 0, b⟩ p.header = p.coreAt T 0 := by
  have htake : (zeroPad ALLOCLG p.slice).take ALLOCLG = zeroPad ALLOCLG p.slice :=
    List.take_of_length_le (zeroPad_length hr.slice_le).le
  simp only [Core.readHeader, Part.coreAt, hr.header_bitmap, Part.lg, htake, hK.header]

theorem output_length (hr : p.Shaped) (hp : p.Sectors) :
    p.output.length = 512 * (47 + p.secs.length) := by
  rw [Part.output, List.length_append, hr.header_length, length_flatten_512 hp.secs_length,
    TOTALLG_sectors]
  omega

theorem output_header (hr : p.Shaped) : p.output.take TOTALLG = p.header := by
  rw [Part.output, List.take_left' hr.header_length]

theorem output_drop (hr : p.Shaped) (hp : p.Sectors) (k : Nat) :
    p.output.drop ((k + 1) * TOTALLG) = (p.secs.drop (47 * k)).flatten := by
  rw [show (k + 1) * TOTALLG = p.header.length + 512 * (47 * k) by
      rw [hr.header_length, TOTALLG_sectors]; omega,
    Part.output, List.drop_length_add_append, drop_flatten_512 hp.secs_length]

theorem absorb_takes (hr : p.Shaped) (hp : p.Sectors) (hK : K.Takes p t T) {k : Nat}
    (hk : (k + 1) * TOTALLG ≤ p.output.length) :
    absorb K ⟨t, bitmap, 0, true⟩ p.output (k + 1) = some (p.coreAt T (47 * k)) := by
  have hlen := output_length hr hp
  induction k with
  | zero =>
    simp only [absorb, Option.bind_some, Nat.zero_mul, List.drop_zero, output_header hr, Core.block,
      if_true, Nat.mul_zero, readHeader_eq hr hK]
  | succ k ih =>
    have hsecs : 47 * (k + 1) ≤ p.secs.length := by
      rw [TOTALLG_sectors] at hk
      omega
    have hk' : (k + 1) * TOTALLG ≤ p.output.length :=
      (Nat.mul_le_mul_right TOTALLG (Nat.le_succ _)).trans hk
    rw [absorb, ih hk', Option.bind_some, output_drop hr hp]
    have hbuf : ((p.secs.drop (47 * k)).flatten).take TOTALLG =
        ((p.secs.drop (47 * k)).take (47 * (k + 1) - 47 * k)).flatten ++ [] := by
      rw [show 47 * (k + 1) - 47 * k = 47 by omega, List.append_nil, TOTALLG_sectors]
      exact take_flatten_512 (fun s hs => hp.secs_length s (List.mem_of_mem_drop hs)) 47
    have hflush := hK.flush (n := 47 * k) (m := 47 * (k + 1)) (by omega) hsecs hbuf
    have hlg : 512 * (47 * (k + 1) - 47 * k) = TOTALLG := by
      have := TOTALLG_sectors
      omega
    rw [hlg] at hflush
    simp only [Core.block, Part.coreAt, Bool.false_eq_true, if_false, hflush, Option.map_some]

theorem absorb_isSome (hr : p.Shaped) (hp : p.Sectors) (hK : K.Takes p t T) (k : Nat)
    (hk : k * TOTALLG ≤ p.output.length) : (absorb K ⟨t, bitmap, 0, true⟩ p.output k).isSome := by
  cases k with
  | zero => rfl
  | succ k => rw [absorb_takes hr hp hK hk]; rfl

variable {Z : Inflater} {rel : Z.State → List Byte → List Byte → Prop} {file tail buffer : List Byte}

theorem start_follow (hZ : Z.Decodes rel) (hr : p.Shaped) (hp : p.Sectors)
    (hbuf : buffer.length = TOTALLG) (hrel : rel Z.init (file ++ tail) p.output) :
    Follow rel K ⟨t, bitmap, 0, true⟩ p.output tail 0 (Unpack.start Z file buffer bitmap t) := by
  have hsplit : file.take INSIZE ++ file.drop INSIZE ++ tail = file ++ tail := by
    rw [List.take_append_drop]
  have hne : file ++ tail ≠ [] := by
    intro hnil
    rw [hnil] at hrel
    have hlen := output_length hr hp
    rw [hZ.trailer hrel, List.length_nil] at hlen
    omega
  constructor
  · constructor
    · rfl
    · simp [Unpack.start]
    · exact hbuf
    · exact Nat.zero_le _
    · simp [Unpack.start]
    · simp [Unpack.start]
    · simpa [Unpack.start, hsplit] using hrel
  · exact TOTALLG_pos
  · intro hi
    rcases List.take_eq_nil_iff.mp hi with h | h
    · simp [INSIZE] at h
    · simp [Unpack.start, h]
  · simpa [Unpack.start, hsplit] using hne

/-- At the end of a complete stream the last buffer is flushed and every sector has
been taken. -/
theorem ended_complete (hr : p.Shaped) (hp : p.Sectors) (hK : K.Takes p t T) {k : Nat}
    {s : Unpack Z.State τ} (h : Tracks rel K ⟨t, bitmap, 0, true⟩ p.output [] k s)
    (hpos : k * TOTALLG + s.outPos = p.output.length) :
    ∃ s', s.ended K = some s' ∧ s'.z = s.z ∧ s'.inp = s.inp ∧
      s'.outPos = 0 ∧ s'.buffer = s.buffer ∧ s'.core = p.coreAt T p.secs.length := by
  have hlen := output_length hr hp
  have habs := h.absorbed
  have hbuffered := h.buffered
  cases k with
  | zero =>
    rw [Nat.zero_mul, Nat.zero_add] at hpos
    have hz : p.secs.length = 0 := by
      have := h.outPos_le
      rw [TOTALLG_sectors] at this
      omega
    have hfull : s.outPos = TOTALLG := by
      rw [TOTALLG_sectors]
      omega
    rw [hfull, List.take_of_length_le h.buffer_length.le, Nat.zero_mul, List.drop_zero,
      output_header hr] at hbuffered
    have hcore : s.core = ⟨t, bitmap, 0, true⟩ := (Option.some.inj habs).symm
    have hnone : s.buffer = ((p.secs.drop 0).take (0 - 0)).flatten ++ s.buffer := by simp
    have hflush := hK.flush le_rfl (Nat.zero_le _) hnone
    apply Unpack.ended_of (c := p.coreAt T 0)
    · rw [hcore, if_pos rfl, hbuffered, readHeader_eq hr hK]
    · rw [hcore, if_pos rfl, hz]
      exact hflush
  | succ k =>
    have hk : (k + 1) * TOTALLG ≤ p.output.length := (Nat.le_add_right _ _).trans h.in_output
    have hcore : s.core = p.coreAt T (47 * k) :=
      Option.some.inj (habs.symm.trans (absorb_takes hr hp hK hk))
    have hk47 : (k + 1) * TOTALLG = 512 * (47 + 47 * k) := by
      rw [TOTALLG_sectors]
      omega
    have hlg : s.outPos = 512 * (p.secs.length - 47 * k) := by omega
    have hall : ((p.secs.drop (47 * k)).flatten).take s.outPos = (p.secs.drop (47 * k)).flatten := by
      apply List.take_of_length_le
      rw [length_flatten_512 (fun s hs => hp.secs_length s (List.mem_of_mem_drop hs)),
        List.length_drop]
      omega
    rw [output_drop hr hp, hall] at hbuffered
    apply Unpack.ended_of (c := p.coreAt T (47 * k))
    · rw [hcore]
      rfl
    · rw [hcore]
      have hflush := hK.flush (n := 47 * k) (m := p.secs.length) (by omega) (Nat.le_refl _)
        (by
          rw [List.take_of_length_le (by simp), ← hbuffered, List.take_append_drop])
      rw [← hlg] at hflush
      exact hflush

/-- A complete file ends with `Z_STREAM_END`, and the sink has taken all of it. -/
theorem pass_complete (hZ : Z.Decodes rel) (hr : p.Shaped) (hp : p.Sectors) (hK : K.Takes p t T)
    (hbuf : buffer.length = TOTALLG) (hrel : rel Z.init file p.output) {fuel : Nat}
    (hfuel : file.length + p.output.length < fuel) :
    ∃ s, Unpack.pass Z K fuel (Unpack.start Z file buffer bitmap t) =
      some ⟨.streamEnd, .streamEnd, s⟩ ∧
      s.buffer.length = TOTALLG ∧ s.core = p.coreAt T p.secs.length := by
  have hfollow : Follow rel K ⟨t, bitmap, 0, true⟩ p.output [] 0
      (Unpack.start Z file buffer bitmap t) := start_follow hZ hr hp hbuf (by simpa using hrel)
  obtain ⟨ret, s, k, hloop, htracks, hinp, hrem, hend, -⟩ := hfollow.loop_ends hZ
    (absorb_isSome hr hp hK) (by simpa [Unpack.start] using hfuel)
  obtain ⟨rfl, hpos⟩ := hend rfl
  obtain ⟨s', hs', hz, hi, ho, hb, hc⟩ := ended_complete hr hp hK htracks hpos
  have hrelz : rel s'.z [] [] := by
    have := htracks.related
    rw [hinp, hrem, hpos, List.drop_length] at this
    rw [hz]
    exact this
  have hfinal : (Z.inflate s'.z s'.inp (TOTALLG - s'.outPos) .finish).ret = .streamEnd := by
    rw [hi, hinp, ho]
    exact (hZ.end_iff .finish hrelz (List.prefix_refl _) TOTALLG_pos).mpr ⟨by simp, by simp⟩
  refine ⟨s', ?_, by rw [hb]; exact htracks.buffer_length, hc⟩
  rw [Unpack.pass, hloop]
  simp only [Option.bind_some, if_true, hs', Option.map_some, hfinal]

end Takes

/-- The set bits to which the sectors `n` to `m` of a file go. -/
theorem Part.items_next {p : Part} (hp : p.Sectors) {n m : Nat} (hnm : n ≤ m)
    (hm : m ≤ p.secs.length) :
    ∃ gs rest, ((p.secs.drop n).take (m - n)).length = m - n ∧ gs.length = m - n ∧
      remaining (zeroPad ALLOCLG p.slice) (visitEnd 0 (writes (p.items.take n))) = gs ++ rest ∧
      p.items.take m = p.items.take n ++ gs.zip ((p.secs.drop n).take (m - n)) ∧
      Ascends 0 ((p.items.take n ++ gs.zip ((p.secs.drop n).take (m - n))).map Prod.fst) := by
  have hcount := hp.secs_count
  have hrem : remaining (zeroPad ALLOCLG p.slice) (visitEnd 0 (writes (p.items.take n))) =
      ((setBits p.slice).drop n).take (m - n) ++ ((setBits p.slice).drop n).drop (m - n) := by
    rw [List.take_append_drop]
    exact remaining_visitEnd (by rw [remaining_zero, setBits_zeroPad]) hcount n
  have hitems : p.items.take m =
      p.items.take n ++ (((setBits p.slice).drop n).take (m - n)).zip
      ((p.secs.drop n).take (m - n)) := by
    have hadd : p.items.take (n + (m - n)) = p.items.take n ++ (p.items.drop n).take (m - n) :=
      List.take_add
    have hzip : (p.items.drop n).take (m - n) =
        (((setBits p.slice).drop n).take (m - n)).zip ((p.secs.drop n).take (m - n)) := by
      rw [Part.items, List.zip, List.drop_zipWith, List.take_zipWith]
    rw [show n + (m - n) = m by omega] at hadd
    rw [hadd, hzip]
  refine ⟨_, _, by simp; omega, by simp [← hcount]; omega, hrem, hitems, ?_⟩
  rw [← hitems, List.map_take]
  exact (Part.items_ascends hp).take m

theorem flush_items (io : Nat → Outcome) {p : Part} (hp : p.Sectors) {cp : CurrentParams}
    (hcp : cp.bitindex = 0) {n m : Nat} (hnm : n ≤ m) (hm : m ≤ p.secs.length) {buff junk : List Byte}
    (hbuf : buff = ((p.secs.drop n).take (m - n)).flatten ++ junk) :
    flushToDisk io buff (zeroPad ALLOCLG p.slice) (cp.after io (p.items.take n)) (512 * (m - n)) =
      some (cp.after io (p.items.take m)) := by
  obtain ⟨gs, rest, hsecs, hgs, hrem, hitems, hasc⟩ := Part.items_next hp hnm hm
  rw [← hcp] at hrem hasc
  have hbuff : buff.drop 0 = ((p.secs.drop n).take (m - n)).flatten ++ junk := by simpa using hbuf
  have hflush := (@flushLoop_spec io _ _ _ _ _ _ _ (cp.after io (p.items.take n)) hrem
    (hsecs.trans hgs.symm)
    (fun s hs => hp.secs_length s (List.mem_of_mem_drop (List.mem_of_mem_take hs))) hbuff).1
  rw [after_append io cp hasc, ← hitems, hsecs] at hflush
  rw [flushToDisk, show (512 * (m - n) + 511) / 512 = m - n by omega]
  exact hflush

/-- The state after the header and `n` sectors of a file. -/
def Part.coreAfter (io : Nat → Outcome) (p : Part) (t : RestoreSink) (n : Nat) : Core RestoreSink where
  sink := ⟨t.cp.after io (p.items.take n), p.blocks.getD t.fmax⟩
  bitmap := zeroPad ALLOCLG p.slice
  bitmaplg := p.lg
  firstpass := false

section Absorb

variable {io : Nat → Outcome} {p : Part} {t : RestoreSink} {bitmap : List Byte} {Z : Inflater}
  {rel : Z.State → List Byte → List Byte → Prop} {file tail buffer : List Byte}

theorem after_nil (io : Nat → Outcome) (cp : CurrentParams) : cp.after io [] = cp := by
  simp [CurrentParams.after, highest, writes, visit, visitEnd]

theorem restoreSink_takes (io : Nat → Outcome) (hp : p.Sectors) (ht : t.cp.bitindex = 0) :
    (restoreSink io).Takes p t (fun n => (p.coreAfter io t n).sink) where
  header := by
    have hcp : { t.cp with bitindex := 0 } = t.cp := by rw [← ht]
    simp only [restoreSink, Part.coreAfter, Part.blocks, hcp, List.take_zero, after_nil]
  flush hnm hm hbuf := by
    simp only [restoreSink, Part.coreAfter, flush_items io hp ht hnm hm hbuf, Option.map_some]

/-- A file that lacks a part of the stream: some sectors have been sent and the last
code is negative. -/
theorem pass_truncated (hZ : Z.Decodes rel) (hr : p.Shaped) (hp : p.Sectors)
    (ht : t.cp.bitindex = 0) (hbuf : buffer.length = TOTALLG)
    (hrel : rel Z.init (file ++ tail) p.output) (htail : tail ≠ []) {fuel : Nat}
    (hfuel : (file ++ tail).length + p.output.length < fuel) :
    ∃ s n, Unpack.pass Z (restoreSink io) fuel (Unpack.start Z file buffer bitmap t) =
        some ⟨.bufError, .bufError, s⟩ ∧ s.buffer.length = TOTALLG ∧
      s.core.sink.cp = t.cp.after io (p.items.take n) ∧
      (s.core.sink.fmax = t.fmax ∨ s.core.sink.fmax = p.blocks.getD t.fmax) := by
  obtain ⟨ret, s, k, hloop, htracks, hinp, hrem, -, hend⟩ :=
    (start_follow hZ hr hp hbuf hrel).loop_ends hZ (absorb_isSome hr hp (restoreSink_takes io hp ht))
      (by simpa [Unpack.start] using hfuel)
  obtain ⟨rfl, hroom⟩ := hend htail
  have hrelz := htracks.related
  rw [hinp, hrem, List.append_nil, List.nil_append] at hrelz
  have hn : 0 < TOTALLG - s.outPos := by omega
  have hfinal : (Z.inflate s.z [] (TOTALLG - s.outPos) .finish).ret = .bufError := by
    rcases hZ.ret_cases .finish hrelz (List.nil_prefix) hn with h | h | h
    · exact absurd h (hZ.finish_ne_ok hrelz List.nil_prefix hn)
    · have hcons := hZ.consumed_le .finish hrelz List.nil_prefix hn
      have hnil := ((hZ.end_iff .finish hrelz List.nil_prefix hn).mp h).1
      rw [Nat.le_zero.mp hcons, List.drop_zero] at hnil
      exact absurd hnil htail
    · exact h
  have hpass : Unpack.pass Z (restoreSink io) fuel (Unpack.start Z file buffer bitmap t) =
      some ⟨.bufError, .bufError, s⟩ := by
    rw [Unpack.pass, hloop]
    simp [hinp, hfinal]
  cases k with
  | zero =>
    have hcore : s.core = ⟨t, bitmap, 0, true⟩ := (Option.some.inj htracks.absorbed).symm
    refine ⟨s, 0, hpass, htracks.buffer_length, ?_, Or.inl (by rw [hcore])⟩
    rw [hcore, List.take_zero, after_nil]
  | succ k =>
    have hcore := Option.some.inj (htracks.absorbed.symm.trans
      (absorb_takes hr hp (restoreSink_takes io hp ht)
      ((Nat.le_add_right _ _).trans htracks.in_output)))
    exact ⟨s, 47 * k, hpass, htracks.buffer_length, by rw [hcore]; rfl, Or.inr (by rw [hcore]; rfl)⟩

end Absorb

/-! ### Attempts -/

section Attempt

variable {p : Part} {blocks : Option Int} {Z : Inflater} {rel : Z.State → List Byte → List Byte → Prop}
  {file tail : List Byte} {st : RestoreState}

theorem visitEnd_items_le (p : Part) : visitEnd 0 (writes p.items) ≤ 8 * p.slice.length := by
  apply visitEnd_le (Nat.zero_le _)
  intro x hx
  obtain ⟨y, hy, rfl⟩ := List.mem_map.mp hx
  have hy' := (List.of_mem_zip (show (y.1, y.2) ∈ (setBits p.slice).zip p.secs from hy)).1
  exact setBits_lt hy'

theorem items_take_all (p : Part) : p.items.take p.secs.length = p.items := by
  apply List.take_of_length_le
  rw [Part.items, List.length_zip]
  omega

theorem lastFill_eq (io : Nat → Outcome) {lg : Nat} {cp : CurrentParams} (h : cp.bitindex ≤ 8 * lg) :
    lastFill io lg cp = { cp with
      offset := cp.offset + 512 * (8 * lg - cp.bitindex)
      dev := cp.dev.run io (gap cp.bitindex (8 * lg)) } := by
  by_cases heq : 8 * lg = cp.bitindex
  · simp only [lastFill, gap, heq, if_true, run_nil]
    rw [if_neg (by omega)]
    simp
  · have hs : ((lg : Int) * 8 - cp.bitindex).toNat = 8 * lg - cp.bitindex := by omega
    simp only [lastFill, gap, heq, if_false, run_cons, run_nil, hs]
    rw [if_pos (by omega)]

theorem restoreAttempt_taken (io : Nat → Outcome) (hZ : Z.Decodes rel) (hr : p.Shaped)
    (hp : p.Sectors) (hbuf : st.buffer.length = TOTALLG) (hrel : rel Z.init file p.output)
    {fuel : Nat} (hfuel : file.length + p.output.length < fuel) :
    ∃ st', restoreAttempt Z io fuel file st = some (true, st') ∧ st'.buffer.length = TOTALLG ∧
      st'.cp = lastFill io p.lg
        (CurrentParams.after io ⟨0, 0, st.cp.dev.exec io .tell, st.cp.maxindex⟩ p.items) ∧
      st'.fmax = p.blocks.getD st.fmax := by
  let cp : CurrentParams := ⟨0, 0, st.cp.dev.exec io .tell, st.cp.maxindex⟩
  obtain ⟨s, hpass, hsbuf, hcore⟩ := pass_complete (t := ⟨cp, st.fmax⟩)
    hZ hr hp (restoreSink_takes io hp rfl) hbuf hrel hfuel
  rw [Part.coreAt, Part.coreAfter, items_take_all] at hcore
  have hattempt : restoreAttempt Z io fuel file st = some (true,
      ⟨lastFill io p.lg (cp.after io p.items), p.blocks.getD st.fmax, s.buffer, s.core.bitmap⟩) := by
    simp only [restoreAttempt, restorePass]
    rw [hpass, Option.map_some]
    simp [hcore, ZRet.code]
  exact ⟨_, hattempt, hsbuf, rfl, rfl⟩

/-- One visit for each set bit, then the position behind the last bit. -/
theorem restoreAttempt_complete (io : Nat → Outcome) (hZ : Z.Decodes rel) (hr : p.Readable blocks)
    (hp : p.Sectors) (hbuf : st.buffer.length = TOTALLG) (hrel : rel Z.init file p.output)
    {fuel : Nat} (hfuel : file.length + p.output.length < fuel) :
    ∃ st', restoreAttempt Z io fuel file st = some (true, st') ∧ st'.buffer.length = TOTALLG ∧
      st'.cp.dev = st.cp.dev.run io (.tell :: fileVisit p.slice.length (writes p.items)) ∧
      st'.cp.maxindex = highest st.cp.maxindex p.items ∧
      st'.fmax = blocks.getD st.fmax := by
  obtain ⟨st', hatt, hbuf', hcp, hfmax⟩ := restoreAttempt_taken io hZ hr.toShaped hp hbuf hrel hfuel
  rw [Part.lg, hr.alloctablelg, Option.getD_some, lastFill_eq io (visitEnd_items_le p)] at hcp
  refine ⟨st', hatt, hbuf', ?_, by rw [hcp]; rfl, by rw [hfmax, Part.blocks, hr.blocks_eq]⟩
  rw [hcp]
  simp only [CurrentParams.after, run_cons, fileVisit, run_append]

/-- On a truncated file some sectors are sent and the device is moved back. -/
theorem restoreAttempt_truncated (hZ : Z.Decodes rel) (hr : p.Shaped) (hp : p.Sectors)
    (hbuf : st.buffer.length = TOTALLG) (hrel : rel Z.init (file ++ tail) p.output)
    (htail : tail ≠ []) {fuel : Nat} (hfuel : (file ++ tail).length + p.output.length < fuel) :
    ∃ st' n, restoreAttempt Z allFull fuel file st = some (false, st') ∧ st'.buffer.length = TOTALLG ∧
      st'.cp.dev = st.cp.dev.run allFull
        (.tell :: (visit 0 (writes (p.items.take n)) ++ [.seekTo st.cp.dev.pos])) ∧
      (st'.fmax = st.fmax ∨ st'.fmax = p.blocks.getD st.fmax) := by
  let cp : CurrentParams := ⟨0, 0, st.cp.dev.exec allFull .tell, st.cp.maxindex⟩
  obtain ⟨s, n, hpass, hsbuf, hcp, hfmax⟩ := pass_truncated (t := ⟨cp, st.fmax⟩)
    hZ hr hp rfl hbuf hrel htail hfuel
  have hattempt : restoreAttempt Z allFull fuel file st = some (false,
      ⟨{ s.core.sink.cp with dev := s.core.sink.cp.dev.exec allFull (.seekTo st.cp.dev.pos) },
        s.core.sink.fmax, s.buffer, s.core.bitmap⟩) := by
    simp only [restoreAttempt, restorePass]
    rw [hpass, Option.map_some]
    simp [ZRet.code, startOffset, seekBack, Device.next, allFull]
  refine ⟨_, n, hattempt, hsbuf, ?_, hfmax⟩
  simp only [hcp, CurrentParams.after, cp, run_cons, run_append, run_nil]

/-- The sectors from the start of a file up to where the device is left. -/
def Part.extent (p : Part) : Nat :=
  if p.lg ≠ 0 ∧ p.lg * 8 > visitEnd 0 (writes p.items) then (p.lg * 8).toNat else visitEnd 0 (writes p.items)

/-- What a complete file does to a device on which every call succeeds. -/
theorem restoreAttempt_content (hZ : Z.Decodes rel) (hr : p.Shaped) (hp : p.Sectors)
    (hbuf : st.buffer.length = TOTALLG) (hrel : rel Z.init file p.output) {fuel : Nat}
    (hfuel : file.length + p.output.length < fuel) {base : Nat} (hpos : st.cp.dev.pos = 512 * base) :
    ∃ st', restoreAttempt Z allFull fuel file st = some (true, st') ∧ st'.buffer.length = TOTALLG ∧
      st'.cp.dev.content = puts base st.cp.dev.content p.items ∧
      st'.cp.dev.pos = 512 * (base + p.extent) ∧ st'.cp.offset = 512 * p.extent ∧
      st'.cp.bitindex = visitEnd 0 (writes p.items) ∧ st'.fmax = p.blocks.getD st.fmax := by
  obtain ⟨st', hatt, hbuf', hcp, hfmax⟩ := restoreAttempt_taken allFull hZ hr hp hbuf hrel hfuel
  obtain ⟨hc, hv⟩ := run_visit_writes (st.cp.dev.exec allFull .tell)
    (Part.items_ascends hp) (Part.items_length hp) hpos
  refine ⟨st', hatt, hbuf', ?_⟩
  by_cases hfill : p.lg ≠ 0 ∧ p.lg * 8 > visitEnd 0 (writes p.items)
  · rw [hcp.trans (if_pos hfill), Part.extent, if_pos hfill]
    refine ⟨hc, ?_, ?_, rfl, hfmax⟩
    · simp only [CurrentParams.after]
      rw [exec_allFull_pos, Req.target, hv]
      omega
    · simp only [CurrentParams.after]
      omega
  · rw [hcp.trans (if_neg hfill), Part.extent, if_neg hfill]
    exact ⟨hc, hv, by simp [CurrentParams.after], rfl, hfmax⟩

end Attempt

end PulseImaging
