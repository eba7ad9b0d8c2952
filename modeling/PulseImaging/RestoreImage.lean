import PulseImaging.Restore

/-! A whole image through `restore`. The calls on the device depend on the image
only, so they are given as one list of requests for every sequence of outcomes. -/

namespace PulseImaging

def restoreRequests (parts : List Part) : List Req :=
  parts.flatMap (fun p => .tell :: fileVisit p.slice.length (writes p.items))

/-- The files of an image as the encoder wrote them. -/
def imageFiles (C : Codec) (image : Image) : List (List Byte) := image.files.map C.deflate

/-- Every file is found complete at its first attempt. -/
def fetch (files : List (List Byte)) : Nat → Nat → Option (List Byte) := fun n _ => files[n]?

/-- Turns that are enough for every loop of `restore` on an image. -/
def imageFuel (C : Codec) (image : Image) : Nat :=
  (image.files.map (fun calls => (C.deflate calls).length + (streamInput calls).length)).sum +
    image.files.length + 1

theorem lt_imageFuel {C : Codec} {image : Image} {calls : List DeflateCall}
    (h : calls ∈ image.files) :
    (C.deflate calls).length + (streamInput calls).length < imageFuel C image := by
  have := List.le_sum_of_mem (List.mem_map_of_mem
    (f := fun calls => (C.deflate calls).length + (streamInput calls).length) h)
  simp only [imageFuel]
  omega

/-- The parts of an image: `nb` is given by the header of the first file only. -/
structure PartsOf (files : List (List DeflateCall)) (slices : List (List Byte)) (parts : List Part) : Prop where
  data : List.Forall₂ FileData files parts
  slices_eq : parts.map Part.slice = slices
  readable : ∀ (i : Nat) (p : Part), parts[i]? = some p → p.Readable (if i = 0 then some (parts.length : Int) else none)

theorem headersFrom_getElem? {options : Option (List Byte)} {i : Nat} {first : List Byte}
    {slices : List (List Byte)} {j : Nat} {s : List Byte} (h : slices[j]? = some s) :
    (headersFrom options i first slices)[j]? =
      some (imageHeader (headerText (if j = 0 then first else [])
        (filestring options (i + j)) s.length) s) := by
  induction slices generalizing i first j with
  | nil => simp at h
  | cons a slices ih =>
    cases j with
    | zero =>
      rw [List.getElem?_cons_zero, Option.some.injEq] at h
      simp [headersFrom, h]
    | succ j =>
      rw [List.getElem?_cons_succ] at h
      rw [headersFrom, List.getElem?_cons_succ, ih (i := i + 1) h]
      simp [Nat.add_assoc, Nat.add_comm 1 j]

theorem mem_bitmapSlices_length_le {n : Nat} {rest s : List Byte} (h : s ∈ bitmapSlices n rest) :
    s.length ≤ ALLOCLG := by
  induction n generalizing rest with
  | zero => simp [bitmapSlices] at h
  | succ n ih =>
    rcases List.mem_cons.mp h with rfl | h
    · simp
    · exact ih h

/-- The layout of the files of an image, whatever the `options` file adds. -/
theorem compressVolume_layout (io : Nat → Outcome) (options : Option (List Byte))
    {info : List Byte} (hinfo : info ∈ imagerInfos) (p : PARAMS) (dev : Device) :
    ∃ parts, List.Forall₂ FileData (compressVolume io options info p dev).files parts ∧
      parts.map Part.slice = slicesOf p.bitmap ∧
      (∀ i part, parts[i]? = some part → part.Shaped ∧ part.header =
        imageHeader (headerText (if i = 0 then firststring p.nb_sect parts.length info else [])
          (filestring options i) part.slice.length) part.slice) ∧
      List.Forall₂ (fun c s => c.outcome = .full → s = slice dev.content c.pos 512)
        ((trace io dev (readRequests (slicesOf p.bitmap))).filter Call.transfer)
          (parts.flatMap Part.secs) := by
  obtain ⟨parts, hfiles, hslices, hheaders, hreads⟩ := compressLoop_parts io options
    (blockCount p.bitmap.length) 0 (firststring p.nb_sect (blockCount p.bitmap.length) info) p.bitmap
    dev List.length_replicate
  refine ⟨parts, hfiles, hslices, fun i part hi => ?_, hreads⟩
  have hlen : parts.length = blockCount p.bitmap.length := by
    rw [← List.length_map (f := Part.slice), hslices, bitmapSlices_length]
  have hs : (slicesOf p.bitmap)[i]? = some part.slice := by
    rw [slicesOf, ← hslices, List.getElem?_map, hi]
    rfl
  have hh := @headersFrom_getElem? options 0 (firststring p.nb_sect
    (blockCount p.bitmap.length) info) _ _ _ hs
  rw [slicesOf, ← hheaders, List.getElem?_map, hi, Option.map_some, Option.some.injEq, Nat.zero_add,
    ← hlen] at hh
  have hle := mem_bitmapSlices_length_le (List.mem_of_getElem? hs)
  have hfirst : (if i = 0 then firststring p.nb_sect parts.length info else []).length ≤ 100 := by
    split
    · rw [hlen]
      exact firststring_length_le hinfo p.nb_sect_lt p.nb_lt
    · simp
  have hlt := headerText_length_lt hfirst (filestring_length_le options i) hle
  have hshape := imageHeader_shaped hlt.le hle part.secs
  rw [← hh] at hshape
  exact ⟨hshape, hh⟩

/-- An image of one file. -/
theorem compressVolume_single (io : Nat → Outcome) (options : Option (List Byte))
    {info : List Byte} (hinfo : info ∈ imagerInfos) {params : PARAMS} (dev : Device)
    {slice : List Byte} (h : slicesOf params.bitmap = [slice]) :
    ∃ calls p, (compressVolume io options info params dev).files = [calls] ∧
      FileData calls p ∧ p.Shaped ∧
      p.slice = slice ∧
      p.header = imageHeader (headerText (firststring params.nb_sect 1 info)
        (filestring options 0) slice.length)
        slice ∧
      (streamInput calls).length = 512 * (47 + (setBits slice).length) := by
  obtain ⟨parts, hdata, hslices, hlayout, -⟩ := compressVolume_layout io options hinfo params dev
  rw [h] at hslices
  obtain ⟨p, rfl⟩ := List.length_eq_one_iff.mp ((List.length_map Part.slice).symm.trans
    (congrArg List.length hslices))
  obtain ⟨calls, l, hfile, hrest, hfiles⟩ := List.forall₂_cons_right_iff.mp hdata
  obtain rfl := List.forall₂_nil_right_iff.mp hrest
  obtain rfl : p.slice = slice := (List.cons.inj hslices).1
  obtain ⟨hshape, hheader⟩ := hlayout 0 p rfl
  refine ⟨calls, p, hfiles, hfile, hshape, rfl, hheader, ?_⟩
  rw [hfile.input, output_length hshape hfile.sectors, hfile.sectors.secs_count]

/-- `restore` finds in the header of every file of an image the length of its bitmap part, and in that of
the first one the number of files, whatever the `options` file adds. -/
def HeadersRead (options : Option (List Byte)) (info : List Byte) (p : PARAMS) : Prop :=
  ∀ i s, (slicesOf p.bitmap)[i]? = some s →
    let nb := blockCount p.bitmap.length
    let header := imageHeader (headerText (if i = 0 then firststring p.nb_sect nb info else [])
      (filestring options i) s.length) s
    headerField alloctablelgKey header = some (s.length : Int) ∧
      headerField blocksKey header = if i = 0 then some (nb : Int) else none

theorem NoKeywords.headersRead {options : Option (List Byte)} (hopt : NoKeywords options)
    {info : List Byte} (hinfo : info ∈ imagerInfos) (p : PARAMS) : HeadersRead options info p := by
  intro i s hs
  have hle := mem_bitmapSlices_length_le (List.mem_of_getElem? hs)
  have hfirst : FirstText (if i = 0 then firststring p.nb_sect (blockCount p.bitmap.length) info
      else [])
      (if i = 0 then some (blockCount p.bitmap.length : Int) else none) := by
    split
    · exact firstText_firststring hinfo p.nb_sect_lt p.nb_lt
    · exact firstText_nil
  exact (hfirst options i s.length s hopt hle).2

theorem compressVolume_parts (io : Nat → Outcome) {options : Option (List Byte)} {info : List Byte}
    (hinfo : info ∈ imagerInfos) {p : PARAMS} (hread : HeadersRead options info p) (dev : Device) :
    ∃ parts, PartsOf (compressVolume io options info p dev).files (slicesOf p.bitmap) parts ∧
      List.Forall₂ (fun c s => c.outcome = .full → s = slice dev.content c.pos 512)
        ((trace io dev (readRequests (slicesOf p.bitmap))).filter Call.transfer)
          (parts.flatMap Part.secs) := by
  obtain ⟨parts, hfiles, hslices, hlayout, hreads⟩ := compressVolume_layout io options hinfo p dev
  refine ⟨parts, ⟨hfiles, hslices, fun i part hi => ?_⟩, hreads⟩
  obtain ⟨hshape, hh⟩ := hlayout i part hi
  have hlen : parts.length = blockCount p.bitmap.length := by
    rw [← List.length_map (f := Part.slice), hslices, slicesOf, bitmapSlices_length]
  have hs : (slicesOf p.bitmap)[i]? = some part.slice := by
    rw [← hslices, List.getElem?_map, hi]
    rfl
  obtain ⟨hlg, hblocks⟩ := hread i part.slice hs
  rw [hlen] at hh ⊢
  exact ⟨hshape, hh ▸ hlg, hh ▸ hblocks⟩

section Loop

variable {C : Codec} {rel : C.inflater.State → List Byte → List Byte → Prop} {fuel : Nat}

theorem restoreLoop_image (io : Nat → Outcome) (hZ : C.inflater.Decodes rel)
    (hdef : ∀ calls, Finished calls → rel C.inflater.init (C.deflate calls) (streamInput calls))
    {get : Nat → Nat → Option (List Byte)} {files : List (List DeflateCall)} {parts : List Part}
    {i nb : Nat} (hdata : List.Forall₂ FileData files parts) (hne : parts ≠ [])
    (hnb : nb = i + parts.length) (hget : ∀ j, get (i + j) 0 = files[j]?.map C.deflate)
    (hread : ∀ (j : Nat) (p : Part), parts[j]? = some p →
      p.Readable (if i + j = 0 then some (nb : Int) else none))
    (hfuel : ∀ calls ∈ files, (C.deflate calls).length + (streamInput calls).length < fuel)
    {turns : Nat} (hturns : parts.length ≤ turns) {st : RestoreState}
    (hbuf : st.buffer.length = TOTALLG) (hfmax : i = 0 ∨ st.fmax = nb) :
    ∃ st', restoreLoop C.inflater io fuel get turns i 0 st = some st' ∧
      st'.cp.dev = st.cp.dev.run io (restoreRequests parts) ∧
      st'.cp.maxindex = highest st.cp.maxindex (parts.flatMap Part.items) ∧
      st'.fmax = nb := by
  induction hdata generalizing i turns st with
  | nil => exact absurd rfl hne
  | @cons calls p files parts hfile hdata ih =>
    obtain ⟨turns, rfl⟩ : ∃ m, turns = m + 1 := ⟨turns - 1, by simp at hturns; omega⟩
    have hr : p.Readable (if i = 0 then some (nb : Int) else none) := hread 0 p rfl
    have hrel := hdef calls hfile.finished
    have hlt := hfuel calls (by simp)
    rw [hfile.input] at hrel hlt
    obtain ⟨st1, hatt, hbuf1, hdev1, hmax1, hfm1⟩ :=
      restoreAttempt_complete io hZ hr hfile.sectors hbuf hrel hlt
    have hfm : st1.fmax = nb := by
      rw [hfm1]
      rcases hfmax with rfl | hf
      · rfl
      · split
        · rfl
        · exact hf
    have hhead : get i 0 = some (C.deflate calls) := hget 0
    have hrun (ps : List Part) : st1.cp.dev.run io (restoreRequests ps) =
        st.cp.dev.run io (restoreRequests (p :: ps)) := by
      rw [hdev1, ← run_append]
      rfl
    simp only [List.length_cons] at hnb
    cases hparts : parts with
    | nil =>
      subst hparts
      refine ⟨st1, ?_, hrun [], by simpa using hmax1, hfm⟩
      have hstop : st1.fmax ≠ -1 ∧ (i + 1 : Int) ≥ st1.fmax := by
        simp only [List.length_nil] at hnb
        omega
      simp only [restoreLoop, hhead, hatt, Option.bind_some, if_true, if_pos hstop]
    | cons q qs =>
      rw [← hparts]
      have hlen : 0 < parts.length := by simp [hparts]
      obtain ⟨st', hloop, hdev, hmax, hf⟩ := ih (i := i + 1)
        (by simp [hparts]) (by omega)
        (fun j => by rw [Nat.add_assoc, Nat.add_comm 1 j]; exact hget (j + 1))
        (fun j p hp => by
          have := hread (j + 1) p hp
          rwa [if_neg (by omega)] at this ⊢)
        (fun c hc => hfuel c (by simp [hc])) (by simp at hturns; omega) hbuf1 (Or.inr hfm)
      refine ⟨st', ?_, by rw [hdev, hrun], ?_, hf⟩
      · have hgo : ¬ (st1.fmax ≠ -1 ∧ (i + 1 : Int) ≥ st1.fmax) := by
          rintro ⟨_, hge⟩
          omega
        simp only [restoreLoop, hhead, hatt, Option.bind_some, if_true, if_neg hgo]
        exact hloop
      · rw [hmax, hmax1, List.flatMap_cons, highest, highest, highest, List.foldl_append]

end Loop

theorem restore_image (io : Nat → Outcome) {C : Codec} (hC : C.Correct) {image : Image}
    {slices : List (List Byte)} {parts : List Part} (hparts : PartsOf image.files slices parts)
    (sect : Nat) (mem : Memory) (dev : Device) {fuel : Nat} (hfuel : imageFuel C image ≤ fuel) :
    ∃ st, restore C.inflater io fuel (fetch (imageFiles C image)) sect mem dev = some st ∧
      st.cp.dev = dev.run io (.seekTo (512 * sect) :: restoreRequests parts) ∧
      st.cp.maxindex = highest 0 (parts.flatMap Part.items) ∧
      (parts ≠ [] → st.fmax = parts.length) := by
  obtain ⟨rel, hZ, hdef⟩ := hC.follows
  have hsum : ∀ calls ∈ image.files, (C.deflate calls).length + (streamInput calls).length < fuel :=
    fun calls hc => (lt_imageFuel hc).trans_le hfuel
  have hlen := hparts.data.length_eq
  by_cases hne : parts = []
  · subst hne
    obtain ⟨n, rfl⟩ : ∃ n, fuel = n + 1 := ⟨fuel - 1, by simp only [imageFuel] at hfuel; omega⟩
    have hnil : image.files = [] := List.length_eq_zero_iff.mp hlen
    simp [restore, restoreLoop, fetch, imageFiles, hnil, restoreRequests, highest]
  · have hget : ∀ j, fetch (imageFiles C image) (0 + j) 0 = image.files[j]?.map C.deflate :=
      fun j => by
      simp [fetch, imageFiles]
    have hturns : parts.length ≤ fuel := by
      simp only [imageFuel] at hfuel
      omega
    obtain ⟨st, hloop, hdev, hmax, hf⟩ := restoreLoop_image io hZ hdef hparts.data hne
      (Nat.zero_add _).symm hget
      (fun j p hp => by simpa using hparts.readable j p hp) hsum hturns
      (show (RestoreState.mk ⟨0, 512 * sect, dev.exec io (.seekTo (512 * sect)), 0⟩ (-1) mem.buffer
        mem.bitmap).buffer.length = TOTALLG from mem.buffer_length) (Or.inl rfl)
    exact ⟨st, hloop, hdev, hmax, fun _ => hf⟩

end PulseImaging
