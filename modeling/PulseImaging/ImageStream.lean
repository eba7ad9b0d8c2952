import PulseImaging.CompressVolume
import Mathlib.Data.List.Forall2

/-! What the streams of an image contain: in each file the header block, then
one sector for each set bit of the file's part of the bitmap. -/

namespace PulseImaging

def ScanState.stream (st : ScanState) : List Byte :=
  streamInput st.calls ++ st.buffer.take st.datalg

structure ScanState.Valid (st : ScanState) : Prop where
  buffer_length : st.buffer.length = TOTALLG
  datalg_lt : st.datalg < TOTALLG
  datalg_dvd : 512 ∣ st.datalg
  not_last : ∀ c ∈ st.calls, c.last = false

theorem overlay_length {buf data : List Byte} {off : Nat} (h : off + data.length ≤ buf.length) :
    (overlay buf off data).length = buf.length := by
  simp [overlay]
  omega

theorem overlay_take {buf data : List Byte} {off : Nat} (h : off ≤ buf.length) :
    (overlay buf off data).take off = buf.take off := by
  rw [overlay, List.append_assoc, List.take_append_of_le_length (by simp; omega)]
  simp

theorem overlay_take_add {buf data : List Byte} {off : Nat} (h : off ≤ buf.length) :
    (overlay buf off data).take (off + data.length) = buf.take off ++ data := by
  rw [overlay, List.take_left']
  simp
  omega

theorem streamInput_append (a b : List DeflateCall) :
    streamInput (a ++ b) = streamInput a ++ streamInput b := by
  simp [streamInput]

theorem streamInput_singleton (c : DeflateCall) : streamInput [c] = c.data := by
  simp [streamInput]

theorem streamInput_cons (c : DeflateCall) (cs : List DeflateCall) :
    streamInput (c :: cs) = c.data ++ streamInput cs := by
  simp [streamInput]

theorem got_length_le (io : Nat → Outcome) (d : Device) (n : Nat) : (d.got io n).length ≤ n := by
  rw [Device.got, slice_length]
  exact moved_le _ _

/-- A set bit adds one sector to the stream, the one read if the read was complete. -/
theorem scanBit_true_stream (io : Nat → Outcome) {st : ScanState} (hv : st.Valid) :
    ∃ sec : List Byte, sec.length = 512 ∧ (scanBit io st true).stream = st.stream ++ sec ∧
      (scanBit io st true).Valid ∧ ((seekSkip io st.dev st.skip).next io = .full →
        sec = slice (seekSkip io st.dev st.skip).content (seekSkip io st.dev st.skip).pos 512) := by
  obtain ⟨hbuf, hlt, ⟨k, hk⟩, hlast⟩ := hv
  have hroom : st.datalg + 512 ≤ TOTALLG := by rw [hk, TOTALLG_sectors] at hlt ⊢; omega
  have hgot := got_length_le io (seekSkip io st.dev st.skip) 512
  let buffer := overlay st.buffer st.datalg ((seekSkip io st.dev st.skip).got io 512)
  have hlen : buffer.length = TOTALLG := (overlay_length (by omega)).trans hbuf
  have hpre : buffer.take st.datalg = st.buffer.take st.datalg := overlay_take (by omega)
  have hsplit : buffer.take (st.datalg + 512) =
      st.buffer.take st.datalg ++ (buffer.drop st.datalg).take 512 := by
    rw [List.take_add, hpre]
  refine ⟨(buffer.drop st.datalg).take 512, by simp; omega, ?_, ?_, fun hfull => ?_⟩
  · simp only [scanBit, if_true]
    split
    · rename_i hf
      rw [hf] at hsplit
      simp only [ScanState.stream, streamInput_append, streamInput_singleton, List.take_zero,
        List.append_nil, List.append_assoc]
      rw [← hsplit, List.take_of_length_le hlen.le]
    · simp only [ScanState.stream, List.append_assoc]
      rw [← hsplit]
  · simp only [scanBit, if_true]
    split
    · refine ⟨hlen, TOTALLG_pos, Nat.dvd_zero _, fun c hc => ?_⟩
      rcases List.mem_append.mp hc with hc | hc
      · exact hlast c hc
      · rw [List.mem_singleton.mp hc]
    · rename_i hf
      exact ⟨hlen, by dsimp only; omega, ⟨k + 1, by dsimp only; omega⟩, hlast⟩
  · have hfulllen : ((seekSkip io st.dev st.skip).got io 512).length = 512 := by
      simp [Device.got, hfull]
    have htake := @overlay_take_add st.buffer ((seekSkip io st.dev st.skip).got io 512) st.datalg
      (by omega)
    rw [hfulllen] at htake
    have h := List.append_cancel_left (hsplit.symm.trans htake)
    rw [h, Device.got, hfull, moved_full]

theorem seekSkip_content (io : Nat → Outcome) (dev : Device) (n : Nat) :
    (seekSkip io dev n).content = dev.content := by
  rw [seekSkip]
  split <;> rfl

theorem scanBit_true_calls (io : Nat → Outcome) (st : ScanState) :
    st.calls <+: (scanBit io st true).calls := by
  simp only [scanBit, if_true]
  split
  · exact List.prefix_append _ _
  · exact List.prefix_rfl

theorem trace_gap_filter (io : Nat → Outcome) (d : Device) (cur g : Nat) :
    (trace io d (gap cur g)).filter Call.transfer = [] := by
  simp only [gap]
  split
  · rfl
  · simp [trace, Call.transfer, Req.transfer]

/-- The sectors a scan adds to the stream, paired with its reads. -/
theorem scan_stream (io : Nat → Outcome) (bs : List Bool) {st : ScanState} {cur i : Nat}
    (hle : cur ≤ i) (hskip : st.skip = 512 * (i - cur)) (hv : st.Valid) :
    (bs.foldl (scanBit io) st).Valid ∧ st.calls <+: (bs.foldl (scanBit io) st).calls ∧
    ∃ secs : List (List Byte), (∀ s ∈ secs, s.length = 512) ∧
      (bs.foldl (scanBit io) st).stream = st.stream ++ secs.flatten ∧
      List.Forall₂ (fun c s => c.outcome = .full → s = slice st.dev.content c.pos 512)
        ((trace io st.dev (visit cur (reads (indexes i bs)))).filter Call.transfer) secs := by
  induction bs generalizing st cur i with
  | nil => exact ⟨hv, List.prefix_rfl, [], by simp, by simp, List.Forall₂.nil⟩
  | cons b bs ih =>
    cases b with
    | false =>
      have hfalse : scanBit io st false = { st with skip := st.skip + 512 } := by simp [scanBit]
      have hv' : ScanState.Valid { st with skip := st.skip + 512 } := ⟨hv.1, hv.2, hv.3, hv.4⟩
      have h := ih (show cur ≤ i + 1 by omega) (by dsimp only; omega) hv'
      rw [List.foldl_cons, hfalse]
      simpa only [indexes, Bool.false_eq_true, if_false, ScanState.stream] using h
    | true =>
      obtain ⟨sec, hlen, hstream, hv', hdata⟩ := scanBit_true_stream io hv
      obtain ⟨hd, hz⟩ := scanBit_true_dev io st
      obtain ⟨hvalid, hpre, secs, hlens, hs, hrel⟩ := ih (Nat.le_refl (i + 1))
        (by rw [hz]; omega) hv'
      rw [seekSkip_content] at hdata
      rw [List.foldl_cons]
      refine ⟨hvalid, (scanBit_true_calls io st).trans hpre, sec :: secs, ?_, ?_, ?_⟩
      · intro s hm
        rcases List.mem_cons.mp hm with rfl | hm
        · exact hlen
        · exact hlens s hm
      · rw [hs, hstream, List.flatten_cons, List.append_assoc]
      · have hvis : visit cur (reads (indexes i (true :: bs))) =
            gap cur i ++ .read 512 :: visit (i + 1) (reads (indexes (i + 1) bs)) := rfl
        rw [hd, hskip, seekSkip_eq_gap io st.dev hle] at hrel
        rw [hskip, seekSkip_eq_gap io st.dev hle] at hdata
        rw [hvis, trace_append, List.filter_append, trace_gap_filter, List.nil_append]
        have hcontent : ((st.dev.run io (gap cur i)).exec io (.read 512)).content =
            st.dev.content := by
          rw [← seekSkip_eq_gap io st.dev hle]
          exact seekSkip_content io st.dev _
        rw [hcontent] at hrel
        exact List.Forall₂.cons hdata hrel

structure Part where
  header : List Byte
  slice : List Byte
  secs : List (List Byte)

/-- A finished stream that holds the header, then one sector for each set bit. -/
structure FileData (calls : List DeflateCall) (p : Part) : Prop where
  finished : Finished calls
  secs_length : ∀ s ∈ p.secs, s.length = 512
  secs_count : p.secs.length = (setBits p.slice).length
  header_first : ∃ tail, calls = ⟨p.header, false⟩ :: tail ∧ streamInput tail = p.secs.flatten

theorem compressEnd_eq {st : ScanState} (hv : st.Valid) :
    compressEnd (if 0 < st.datalg then st.calls ++ [⟨st.buffer.take st.datalg, true⟩] else st.calls) =
      st.calls ++ [⟨st.buffer.take st.datalg, true⟩] := by
  have hnone : st.calls.any DeflateCall.last = false := by
    rw [List.any_eq_false]
    intro c hc
    simp [hv.not_last c hc]
  by_cases h : 0 < st.datalg
  · simp [compressEnd, h]
  · have hz : st.datalg = 0 := by omega
    simp [compressEnd, hz, hnone]

theorem trace_fileVisit_filter (io : Nat → Outcome) (d : Device) (lg : Nat)
    (items : List (Nat × Req)) :
    (trace io d (fileVisit lg items)).filter Call.transfer =
      (trace io d (visit 0 items)).filter Call.transfer := by
  rw [fileVisit, trace_append, List.filter_append, trace_gap_filter, List.append_nil]

theorem trace_visit_reads_length (io : Nat → Outcome) (d : Device) (cur : Nat) (gs : List Nat) :
    ((trace io d (visit cur (reads gs))).filter Call.transfer).length = gs.length := by
  induction gs generalizing cur d with
  | nil => rfl
  | cons g gs ih =>
    have hvis : visit cur (reads (g :: gs)) = gap cur g ++ .read 512 :: visit (g + 1) (reads gs) :=
      rfl
    rw [hvis, trace_append, List.filter_append, trace_gap_filter, List.nil_append]
    simp [trace, Call.transfer, Req.transfer]
    exact ih _ _

/-- The stream of one file: its header, then a sector for each set bit, namely
the sector at the place where its read was issued if the read was complete. -/
theorem compressFile_stream (io : Nat → Outcome) {header bitmap buffer : List Byte} (dev : Device)
    (hbuf : buffer.length = TOTALLG) :
    (compressFile io header bitmap dev buffer).buffer.length = TOTALLG ∧
    ∃ secs, FileData (compressFile io header bitmap dev buffer).calls ⟨header, bitmap, secs⟩ ∧
      List.Forall₂ (fun c s => c.outcome = .full → s = slice dev.content c.pos 512)
        ((trace io dev (fileVisit bitmap.length
          (reads (setBits bitmap)))).filter Call.transfer) secs := by
  have hv : ScanState.Valid ⟨dev, 0, buffer, 0, [⟨header, false⟩]⟩ :=
    ⟨hbuf, TOTALLG_pos, Nat.dvd_zero _, by simp⟩
  obtain ⟨hv', ⟨t, ht⟩, secs, hlen, hstream, hrel⟩ := scan_stream io (bits bitmap)
    (Nat.le_refl 0) rfl hv
  simp only [compressFile, scanBitmap_eq, compressEnd_eq hv']
  refine ⟨hv'.buffer_length, secs, ⟨⟨_, _, rfl, rfl, hv'.not_last⟩, hlen, ?_, ?_⟩, ?_⟩
  · rw [← hrel.length_eq]
    exact trace_visit_reads_length io dev 0 _
  · have h0 : ScanState.stream ⟨dev, 0, buffer, 0, [⟨header, false⟩]⟩ = header := by
      simp [ScanState.stream, streamInput]
    rw [h0, ScanState.stream, ← ht, streamInput_append, streamInput_singleton,
      List.append_assoc] at hstream
    refine ⟨t ++ [_], by rw [← ht]; rfl, ?_⟩
    rw [streamInput_append, streamInput_singleton]
    exact List.append_cancel_left hstream
  · rw [trace_fileVisit_filter]
    exact hrel

/-! ### The whole image -/

/-- The `options` file adds no text that a reader would take for a field. -/
def NoKeywords (options : Option (List Byte)) : Prop :=
  ∀ i, ¬ blocksKey <:+: filestring options i ∧ ¬ alloctablelgKey <:+: filestring options i

/-- A first string after which every header is read back, with `blocks` as its
number of files. -/
def FirstText (first : List Byte) (blocks : Option Int) : Prop :=
  ∀ options i lg slice, NoKeywords options → lg ≤ ALLOCLG →
    (headerText first (filestring options i) lg).length < HEADERLG ∧
    headerField alloctablelgKey (imageHeader (headerText first (filestring options i) lg) slice) =
      some (lg : Int) ∧
    headerField blocksKey (imageHeader (headerText first (filestring options i) lg) slice) = blocks

theorem firstText_firststring {info : List Byte} (hi : info ∈ imagerInfos) {nb_sect nb : Nat}
    (hs : nb_sect < 2 ^ 64) (hn : nb < 2 ^ 31) :
    FirstText (firststring nb_sect nb info) (some (nb : Int)) := by
  intro options i lg slice hopt hlg
  have hlt := headerText_length_lt (firststring_length_le hi hs hn)
    (filestring_length_le options i) hlg
  have h0 := headerText_zero_not_mem (firststring_zero_not_mem hi nb_sect nb)
    (filestring_zero_not_mem options i) lg
  exact ⟨hlt, headerField_alloctablelg (alloctablelgKey_absent hi (hopt i).2 nb_sect nb) h0 hlt slice,
    headerField_blocks_first h0 hlt slice⟩

theorem firstText_nil : FirstText [] none := by
  intro options i lg slice hopt hlg
  have hlt := headerText_length_lt (show ([] : List Byte).length ≤ 100 by simp)
    (filestring_length_le options i) hlg
  have h0 := headerText_zero_not_mem (List.not_mem_nil) (filestring_zero_not_mem options i) lg
  exact ⟨hlt, headerField_alloctablelg (hopt i).2 h0 hlt slice,
    headerField_blocks_later (hopt i).1 h0 hlt slice⟩

def Req.stores : Req → Bool
  | .write _ => true
  | _ => false

theorem run_content_of_not_stores (io : Nat → Outcome) (d : Device) {rs : List Req}
    (h : ∀ r ∈ rs, r.stores = false) : (d.run io rs).content = d.content := by
  induction rs generalizing d with
  | nil => rfl
  | cons r rs ih =>
    rw [run_cons, ih _ (fun x hx => h x (by simp [hx]))]
    have hr := h r (by simp)
    cases r <;> simp_all [Req.stores, Device.exec, Req.store]

theorem fileVisit_reads_not_stores (lg : Nat) (gs : List Nat) :
    ∀ r ∈ fileVisit lg (reads gs), r.stores = false := by
  have hgap (cur g : Nat) : ∀ r ∈ gap cur g, r.stores = false := by
    intro r hr
    simp only [gap] at hr
    split at hr
    · simp at hr
    · rw [List.mem_singleton.mp hr]; rfl
  have hvis (cur : Nat) : ∀ r ∈ visit cur (reads gs), r.stores = false := by
    induction gs generalizing cur with
    | nil => simp [reads, visit]
    | cons g gs ih =>
      intro r hr
      rw [show visit cur (reads (g :: gs)) = gap cur g ++ .read 512 :: visit (g + 1)
        (reads gs) from rfl] at hr
      simp only [List.mem_append, List.mem_cons] at hr
      rcases hr with hr | rfl | hr
      · exact hgap _ _ r hr
      · rfl
      · exact ih _ r hr
  intro r hr
  rcases List.mem_append.mp hr with hr | hr
  · exact hvis _ r hr
  · exact hgap _ _ r hr

def headersFrom (options : Option (List Byte)) : Nat → List Byte → List (List Byte) → List (List Byte)
  | _, _, [] => []
  | i, first, s :: ss => imageHeader (headerText first (filestring options i) s.length) s ::
      headersFrom options (i + 1) [] ss

theorem compressLoop_parts (io : Nat → Outcome) (options : Option (List Byte)) (n i : Nat)
    (first rest : List Byte) {buffer : List Byte} (dev : Device) (hbuf : buffer.length = TOTALLG) :
    ∃ parts : List Part,
      List.Forall₂ FileData (compressLoop io options n i first rest dev buffer).files parts ∧
      parts.map Part.slice = bitmapSlices n rest ∧
      parts.map Part.header = headersFrom options i first (bitmapSlices n rest) ∧
      List.Forall₂ (fun c s => c.outcome = .full → s = slice dev.content c.pos 512)
        ((trace io dev (readRequests (bitmapSlices n rest))).filter Call.transfer)
        (parts.flatMap Part.secs) := by
  induction n generalizing i first rest dev buffer with
  | zero => exact ⟨[], List.Forall₂.nil, rfl, rfl, List.Forall₂.nil⟩
  | succ n ih =>
    obtain ⟨ht, hd, hl⟩ := lg_eq rest
    let header := imageHeader (headerText first (filestring options i) (rest.take ALLOCLG).length)
      (rest.take ALLOCLG)
    let out := compressFile io header (rest.take ALLOCLG) dev buffer
    obtain ⟨hb, secs, hdata, hrel⟩ := @compressFile_stream io header
      (rest.take ALLOCLG) buffer dev hbuf
    obtain ⟨parts, hfiles, hslices, hheaders, hreads⟩ := ih (i + 1) [] (rest.drop ALLOCLG) out.dev hb
    have hloop : (compressLoop io options (n + 1) i first rest dev buffer).files =
        out.calls :: (compressLoop io options n (i + 1) []
        (rest.drop ALLOCLG) out.dev out.buffer).files := by
      simp only [compressLoop]
      rw [ht, hd, hl]
    have hdev : out.dev = dev.run io
        (fileVisit (rest.take ALLOCLG).length (reads (setBits (rest.take ALLOCLG)))) :=
      compressFile_dev io header _ dev buffer
    rw [hdev, run_content_of_not_stores io dev (fileVisit_reads_not_stores _ _)] at hreads
    refine ⟨⟨header, rest.take ALLOCLG, secs⟩ :: parts, ?_, ?_, ?_, ?_⟩
    · rw [hloop]
      exact List.Forall₂.cons hdata hfiles
    · rw [List.map_cons, hslices]
      rfl
    · rw [List.map_cons, hheaders]
      rfl
    · rw [show readRequests (bitmapSlices (n + 1) rest) =
        fileVisit (rest.take ALLOCLG).length (reads (setBits (rest.take ALLOCLG))) ++
          readRequests (bitmapSlices n (rest.drop ALLOCLG)) from rfl, trace_append,
          List.filter_append]
      exact List.rel_append hrel hreads

/-- Global bit indexes of consecutive bitmap parts that start at bit `base`. -/
def globalBits (base : Nat) : List (List Byte) → List Nat
  | [] => []
  | s :: ss => (setBits s).map (base + ·) ++ globalBits (base + 8 * s.length) ss

theorem globalBits_eq (base : Nat) (slices : List (List Byte)) :
    globalBits base slices = (setBits slices.flatten).map (base + ·) := by
  induction slices generalizing base with
  | nil => rfl
  | cons s ss ih =>
    rw [globalBits, ih, List.flatten_cons, setBits_append, List.map_append, List.map_map]
    congr 1
    apply List.map_congr_left
    intro x _
    simp only [Function.comp_apply]
    omega

theorem bitmapSlices_flatten {n : Nat} {rest : List Byte} (h : rest.length ≤ n * ALLOCLG) :
    (bitmapSlices n rest).flatten = rest := by
  induction n generalizing rest with
  | zero =>
    have : rest = [] := List.length_eq_zero_iff.mp (by omega)
    simp [this, bitmapSlices]
  | succ n ih =>
    rw [bitmapSlices, List.flatten_cons, ih, List.take_append_drop]
    rw [Nat.succ_mul] at h
    rw [List.length_drop]
    omega

theorem bitmapSlices_length (n : Nat) (rest : List Byte) : (bitmapSlices n rest).length = n := by
  induction n generalizing rest with
  | zero => rfl
  | succ n ih => simp [bitmapSlices, ih]

theorem blockCount_pos {bitmap : List Byte} (h : bitmap ≠ []) : 0 < blockCount bitmap.length := by
  have hlen := List.length_pos_of_ne_nil h
  have hlg : 0 < ALLOCLG := by decide
  exact Nat.div_pos (by omega) hlg

theorem slicesOf_flatten (bitmap : List Byte) : (slicesOf bitmap).flatten = bitmap := by
  apply bitmapSlices_flatten
  simp only [blockCount, ALLOCLG]
  omega

theorem fileVisit_advances {lg : Nat} {items : List (Nat × Req)} (ha : Ascends 0 (items.map Prod.fst))
    (ht : ∀ x ∈ items, x.2.transfer = true) (hlt : ∀ x ∈ items, x.1 < 8 * lg) :
    advances (fileVisit lg items) = 512 * (8 * lg) := by
  have h1 := advances_visit ha ht
  have h2 := advances_gap (visitEnd_le (Nat.zero_le _) hlt)
  simp only [fileVisit, advances_append]
  omega

theorem fileVisit_positions {lg p : Nat} {items : List (Nat × Req)}
    (ha : Ascends 0 (items.map Prod.fst)) (ht : ∀ x ∈ items, x.2.transfer = true) :
    transferPositions p (fileVisit lg items) = items.map (fun x => p + 512 * x.1) := by
  rw [fileVisit, transferPositions_append, transferPositions_gap, List.append_nil]
  exact @transferPositions_visit 0 p items ha ht

theorem setBits_ascends (slice : List Byte) : Ascends 0 (setBits slice) := ascends_indexes 0 _

/-- Each read is meant for the sector of its global bit index. -/
theorem readRequests_positions (p : Nat) (slices : List (List Byte)) :
    transferPositions p (readRequests slices) =
      (setBits slices.flatten).map (fun g => p + 512 * g) := by
  suffices h : ∀ base, transferPositions (p + 512 * base) (readRequests slices) =
      (globalBits base slices).map (fun g => p + 512 * g) by
    have h0 := h 0
    simpa only [globalBits_eq, Nat.zero_add, Nat.mul_zero, Nat.add_zero, List.map_id'] using h0
  induction slices with
  | nil => intro base; rfl
  | cons s ss ih =>
    intro base
    have ha : Ascends 0 ((reads (setBits s)).map Prod.fst) := by
      rw [reads_fst]
      exact setBits_ascends s
    have hlt : ∀ x ∈ reads (setBits s), x.1 < 8 * s.length := by
      intro x hx
      obtain ⟨g, hg, rfl⟩ := List.mem_map.mp hx
      exact setBits_lt hg
    have hadv := fileVisit_advances ha (reads_transfer _) hlt
    rw [show readRequests (s :: ss) = fileVisit s.length (reads (setBits s)) ++ readRequests ss from
      rfl, transferPositions_append, fileVisit_positions ha (reads_transfer _), hadv, globalBits,
      List.map_append, show p + 512 * base + 512 * (8 * s.length) =
      p + 512 * (base + 8 * s.length) by omega, ih]
    congr 1
    simp only [reads, List.map_map]
    apply List.map_congr_left
    intro g _
    simp only [Function.comp_apply]
    omega

theorem readRequests_relative (slices : List (List Byte)) :
    ∀ r ∈ readRequests slices, r.relative = true ∧ 0 < r.advance := by
  intro r hr
  obtain ⟨s, _, hr⟩ := List.mem_flatMap.mp hr
  have ha : Ascends 0 ((reads (setBits s)).map Prod.fst) := by
    rw [reads_fst]
    exact setBits_ascends s
  rcases List.mem_append.mp hr with hr | hr
  · exact ⟨visit_relative (reads_transfer _) r hr, visit_advance_pos ha (reads_transfer _) r hr⟩
  · exact ⟨gap_relative _ _ r hr, gap_advance_pos (visitEnd_setBits_le s) r hr⟩

theorem readRequests_transfer_iff (slices : List (List Byte)) {r : Req}
    (hr : r ∈ readRequests slices) :
    r.transfer = true ↔ r = .read 512 := by
  constructor
  · intro ht
    obtain ⟨s, _, hr⟩ := List.mem_flatMap.mp hr
    have hs := fileVisit_reads_not_stores _ _ r hr
    cases r <;> simp_all [Req.transfer, Req.stores]
  · rintro rfl
    rfl

/-- Reads selected by their outcome stand at their bits' offsets exactly when no
incomplete call precedes one of them. -/
theorem read_positions_iff (io : Nat → Outcome) (q : Outcome → Prop) (p : PARAMS) (c : Content) :
    List.Forall₂ (fun call g => q call.outcome → call.pos = 512 * g)
        ((trace io (openDevice c) (readRequests (slicesOf p.bitmap))).filter Call.transfer)
        (setBits p.bitmap) ↔
      ∀ i j, i < j → (readRequests (slicesOf p.bitmap))[j]? = some (.read 512) → q (io j) →
        io i = .full := by
  let reqs := readRequests (slicesOf p.bitmap)
  have hpos : transferPositions 0 reqs = (setBits p.bitmap).map (fun g => 512 * g) := by
    simpa only [slicesOf_flatten, Nat.zero_add] using readRequests_positions 0 (slicesOf p.bitmap)
  have hrel : ∀ r ∈ reqs, r.relative = true := fun r hr => (readRequests_relative _ r hr).1
  have h := transfers_aligned_iff io q hrel (show (openDevice c).pos ≤ 0 from Nat.le_refl _)
  rw [hpos, List.forall₂_map_right_iff] at h
  rw [h]
  have hlog : (openDevice c).log.length = 0 := rfl
  constructor
  · intro hall i j hij hj hq
    obtain ⟨hlt, _⟩ := List.getElem?_eq_some_iff.mp hj
    have hi : reqs[i]? = some reqs[i] := List.getElem?_eq_getElem (hij.trans hlt)
    have hf := (hall j _ hj rfl (by simpa [hlog] using hq)).2 i _ hij hi
      (readRequests_relative _ _ (List.getElem_mem _)).2
    simpa [hlog] using hf
  · intro hall j r hj ht hq
    have hr := (readRequests_transfer_iff _ (List.mem_of_getElem? hj)).mp ht
    rw [hr] at hj
    refine ⟨rfl, fun i r' hij _ _ => ?_⟩
    rw [hlog, Nat.zero_add] at hq ⊢
    exact hall i j hij hj hq

end PulseImaging
