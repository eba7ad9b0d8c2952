import PulseImaging.ImageFormat
import PulseImaging.SectorVisit

/-! The image writer: `compress_volume` scans the allocation bitmap, reads every
allocated sector and hands header and sectors to the encoder, one stream for
each `ALLOCLG` bytes of bitmap. -/

namespace PulseImaging

/-- Memory after `data` has been stored at offset `off` of `buf`. -/
def overlay (buf : List Byte) (off : Nat) (data : List Byte) : List Byte :=
  buf.take off ++ data ++ buf.drop (off + data.length)

structure ScanState where
  dev : Device
  skip : Nat
  buffer : List Byte
  datalg : Nat
  calls : List DeflateCall

def seekSkip (io : Nat → Outcome) (dev : Device) (skip : Nat) : Device :=
  if skip ≠ 0 then dev.exec io (.skip skip) else dev

/-- One turn of the innermost loop of `compress_volume`. A failed seek or read
is reported and the scan goes on. -/
def scanBit (io : Nat → Outcome) (st : ScanState) (set : Bool) : ScanState :=
  if set then
    let dev := seekSkip io st.dev st.skip
    let buffer := overlay st.buffer st.datalg (dev.got io 512)
    if st.datalg + 512 = TOTALLG then
      ⟨dev.exec io (.read 512), 0, buffer, 0, st.calls ++ [⟨buffer, false⟩]⟩
    else
      ⟨dev.exec io (.read 512), 0, buffer, st.datalg + 512, st.calls⟩
  else { st with skip := st.skip + 512 }

def scanByte (io : Nat → Outcome) (st : ScanState) (b : Byte) : ScanState :=
  masks.foldl (fun st k => scanBit io st (b &&& k != 0)) st

def scanBitmap (io : Nat → Outcome) (st : ScanState) (bitmap : List Byte) : ScanState :=
  bitmap.foldl (scanByte io) st

/-- `compress_end` ends the stream if no earlier call has. -/
def compressEnd (calls : List DeflateCall) : List DeflateCall :=
  if calls.any DeflateCall.last then calls else calls ++ [⟨[], true⟩]

structure FileOutput where
  calls : List DeflateCall
  dev : Device
  buffer : List Byte

def compressFile (io : Nat → Outcome) (header bitmap : List Byte) (dev : Device)
    (buffer : List Byte) : FileOutput :=
  let st := scanBitmap io ⟨dev, 0, buffer, 0, [⟨header, false⟩]⟩ bitmap
  let calls := if 0 < st.datalg then st.calls ++ [⟨st.buffer.take st.datalg, true⟩] else st.calls
  ⟨compressEnd calls, seekSkip io st.dev st.skip, st.buffer⟩

structure Image where
  files : List (List DeflateCall)
  dev : Device

def compressLoop (io : Nat → Outcome) (options : Option (List Byte)) :
    Nat → Nat → List Byte → List Byte → Device → List Byte → Image
  | 0, _, _, _, dev, _ => ⟨[], dev⟩
  | n + 1, i, first, rest, dev, buffer =>
    let lg := if rest.length > ALLOCLG then ALLOCLG else rest.length
    let header := imageHeader (headerText first (filestring options i) lg) (rest.take lg)
    let out := compressFile io header (rest.take lg) dev buffer
    let image := compressLoop io options n (i + 1) [] (rest.drop lg) out.dev out.buffer
    ⟨out.calls :: image.files, image.dev⟩

def compressVolume (io : Nat → Outcome) (options : Option (List Byte)) (info : List Byte)
    (p : PARAMS) (dev : Device) : Image :=
  compressLoop io options (blockCount p.bitmap.length) 0
    (firststring p.nb_sect (blockCount p.bitmap.length) info) p.bitmap dev
    (List.replicate TOTALLG 0)

/-- The freshly opened source device. -/
def openDevice (c : Content) : Device := ⟨c, 0, []⟩

/-! ### The requests of the scan -/

def reads (gs : List Nat) : List (Nat × Req) := gs.map (fun g => (g, Req.read 512))

/-- Visits of one file, then the seek over the clear bits at its end. -/
def fileVisit (lg : Nat) (items : List (Nat × Req)) : List Req :=
  visit 0 items ++ gap (visitEnd 0 items) (8 * lg)

def readRequests (slices : List (List Byte)) : List Req :=
  slices.flatMap (fun s => fileVisit s.length (reads (setBits s)))

/-- The parts of a bitmap that go to the successive image files. -/
def bitmapSlices : Nat → List Byte → List (List Byte)
  | 0, _ => []
  | n + 1, rest => rest.take ALLOCLG :: bitmapSlices n (rest.drop ALLOCLG)

def slicesOf (bitmap : List Byte) : List (List Byte) :=
  bitmapSlices (blockCount bitmap.length) bitmap

theorem reads_fst (gs : List Nat) : (reads gs).map Prod.fst = gs := by
  simp [reads, Function.comp_def]

theorem reads_transfer (gs : List Nat) : ∀ x ∈ reads gs, x.2.transfer = true := by
  intro x hx
  obtain ⟨g, _, rfl⟩ := List.mem_map.mp hx
  rfl

theorem seekSkip_eq_gap (io : Nat → Outcome) (dev : Device) {cur g : Nat} (hle : cur ≤ g) :
    seekSkip io dev (512 * (g - cur)) = dev.run io (gap cur g) := by
  by_cases h : g = cur
  · simp [seekSkip, gap, h]
  · have hne : 512 * (g - cur) ≠ 0 := by omega
    simp [seekSkip, gap, h, hne]

theorem scanBitmap_eq (io : Nat → Outcome) (st : ScanState) (bitmap : List Byte) :
    scanBitmap io st bitmap = (bits bitmap).foldl (scanBit io) st := by
  have hbyte (st : ScanState) (b : Byte) : scanByte io st b = (byteBits b).foldl (scanBit io) st := by
    rw [scanByte, byteBits, List.foldl_map]
  induction bitmap generalizing st with
  | nil => rfl
  | cons b bs ih =>
    rw [bits_cons, List.foldl_append, ← hbyte, ← ih]
    rfl

theorem scanBit_true_dev (io : Nat → Outcome) (st : ScanState) :
    (scanBit io st true).dev = (seekSkip io st.dev st.skip).exec io (.read 512) ∧
      (scanBit io st true).skip = 0 := by
  simp only [scanBit, if_true]
  split <;> exact ⟨rfl, rfl⟩

theorem scan_dev (io : Nat → Outcome) (bs : List Bool) {st : ScanState} {cur i : Nat} (hle : cur ≤ i)
    (hskip : st.skip = 512 * (i - cur)) :
    (bs.foldl (scanBit io) st).dev = st.dev.run io (visit cur (reads (indexes i bs))) ∧
      (bs.foldl (scanBit io) st).skip =
        512 * (i + bs.length - visitEnd cur (reads (indexes i bs))) := by
  induction bs generalizing st cur i with
  | nil => exact ⟨rfl, by simpa [indexes, reads, visitEnd] using hskip⟩
  | cons b bs ih =>
    cases b with
    | false =>
      have hskip' : (scanBit io st false).skip = 512 * (i + 1 - cur) := by
        simp only [scanBit, Bool.false_eq_true, if_false, hskip]
        omega
      have h := ih (by omega) hskip'
      simp only [List.foldl_cons, indexes, Bool.false_eq_true, if_false, List.length_cons]
      rw [h.1, h.2]
      exact ⟨rfl, by rw [Nat.add_right_comm, Nat.add_assoc i]⟩
    | true =>
      obtain ⟨hd, hz⟩ := scanBit_true_dev io st
      have hskip' : (scanBit io st true).skip = 512 * (i + 1 - (i + 1)) := by
        rw [hz]
        omega
      have h := ih (Nat.le_refl _) hskip'
      rw [hskip, seekSkip_eq_gap io st.dev hle] at hd
      simp only [List.foldl_cons, indexes, if_true, List.length_cons]
      rw [h.1, h.2, hd]
      refine ⟨?_, by rw [Nat.add_right_comm, Nat.add_assoc i]; rfl⟩
      rw [show visit cur (reads (i :: indexes (i + 1) bs)) =
        gap cur i ++ .read 512 :: visit (i + 1) (reads (indexes (i + 1) bs)) from rfl,
        run_append, run_cons]

theorem visitEnd_setBits_le (slice : List Byte) :
    visitEnd 0 (reads (setBits slice)) ≤ 8 * slice.length := by
  apply visitEnd_le (Nat.zero_le _)
  intro x hx
  obtain ⟨g, hg, rfl⟩ := List.mem_map.mp hx
  exact setBits_lt hg

/-- The calls a file makes on the device depend on its bitmap only. -/
theorem compressFile_dev (io : Nat → Outcome) (header bitmap : List Byte) (dev : Device)
    (buffer : List Byte) : (compressFile io header bitmap dev buffer).dev =
      dev.run io (fileVisit bitmap.length (reads (setBits bitmap))) := by
  have hskip : ScanState.skip ⟨dev, 0, buffer, 0, [⟨header, false⟩]⟩ = 512 * (0 - 0) := rfl
  have h := scan_dev io (bits bitmap) (Nat.le_refl 0) hskip
  have hle := visitEnd_setBits_le bitmap
  simp only [compressFile, scanBitmap_eq]
  rw [h.1, h.2, fileVisit, run_append, Nat.zero_add, bits_length]
  exact seekSkip_eq_gap io _ hle

theorem lg_eq (rest : List Byte) :
    rest.take (if rest.length > ALLOCLG then ALLOCLG else rest.length) = rest.take ALLOCLG ∧
      rest.drop (if rest.length > ALLOCLG then ALLOCLG else rest.length) = rest.drop ALLOCLG ∧
      (if rest.length > ALLOCLG then ALLOCLG else rest.length) = (rest.take ALLOCLG).length := by
  split
  · simp; omega
  · have hle : rest.length ≤ ALLOCLG := by omega
    simp [List.take_of_length_le hle, List.drop_of_length_le hle]

theorem compressLoop_dev (io : Nat → Outcome) (options : Option (List Byte)) (n i : Nat)
    (first rest : List Byte) (dev : Device) (buffer : List Byte) :
    (compressLoop io options n i first rest dev buffer).dev =
      dev.run io (readRequests (bitmapSlices n rest)) := by
  induction n generalizing i first rest dev buffer with
  | zero => rfl
  | succ n ih =>
    obtain ⟨ht, hd, _⟩ := lg_eq rest
    simp only [compressLoop, bitmapSlices, readRequests, List.flatMap_cons, run_append]
    rw [ih, compressFile_dev, ht, hd]
    rfl

theorem compressVolume_dev (io : Nat → Outcome) (options : Option (List Byte)) (info : List Byte)
    (p : PARAMS) (dev : Device) : (compressVolume io options info p dev).dev =
      dev.run io (readRequests (slicesOf p.bitmap)) :=
  compressLoop_dev io options _ _ _ _ dev _

theorem compressVolume_files_length (io : Nat → Outcome) (options : Option (List Byte))
    (info : List Byte) (p : PARAMS) (dev : Device) :
    (compressVolume io options info p dev).files.length = blockCount p.bitmap.length := by
  have hloop (n i : Nat) (first rest : List Byte) (dev : Device) (buffer : List Byte) :
      (compressLoop io options n i first rest dev buffer).files.length = n := by
    induction n generalizing i first rest dev buffer with
    | zero => rfl
    | succ n ih => simp [compressLoop, ih]
  exact hloop _ _ _ _ _ _

end PulseImaging
