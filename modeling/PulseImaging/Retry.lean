import PulseImaging.RoundTrip

/-! Files that are found truncated a number of times before they are complete. A
failed attempt writes a part of the file's own sectors and moves the device back. -/

namespace PulseImaging

/-- File `n` is found as the members of `tries n` first, and complete after that. -/
def fetchRetry (tries : Nat → List (List Byte)) (files : List (List Byte)) : Nat → Nat → Option (List Byte) :=
  fun n a => ((tries n)[a]?).or files[n]?

/-- Every failed attempt finds a proper initial part of its file. -/
def Truncations (tries : Nat → List (List Byte)) (files : List (List Byte)) : Prop :=
  ∀ n, ∀ f ∈ tries n, ∃ file, files[n]? = some file ∧ f <+: file ∧ f ≠ file

theorem content_ext {c c' : Content} (h : ∀ j, slice c (512 * j) 512 = slice c' (512 * j) 512) :
    c = c' := by
  funext b
  have hk : b % 512 < 512 := Nat.mod_lt _ (by decide)
  have hb : 512 * (b / 512) + b % 512 = b := Nat.div_add_mod b 512
  have hs := congrArg (fun l => l[b % 512]?) (h (b / 512))
  simp only [slice_getElem? hk, Option.some.injEq, hb] at hs
  exact hs

/-- Sectors that are stored again leave no trace of an earlier, partial pass. -/
theorem puts_again {base : Nat} {items part : List (Nat × List Byte)} (c : Content)
    (hlen : ∀ x ∈ items, x.2.length = 512) (hnd : (items.map Prod.fst).Nodup)
    (hsub : ∀ x ∈ part, x ∈ items) :
    puts base (puts base c part) items = puts base c items := by
  apply content_ext
  intro j
  by_cases hj : ∃ x ∈ items, j = base + x.1
  · obtain ⟨x, hx, rfl⟩ := hj
    rw [puts_sector_of_mem _ hlen hnd hx, puts_sector_of_mem _ hlen hnd hx]
  · have hnot : ∀ x ∈ items, j ≠ base + x.1 := fun x hx he => hj ⟨x, hx, he⟩
    rw [puts_sector_of_not_mem _ hlen hnot, puts_sector_of_not_mem _ hlen hnot,
      puts_sector_of_not_mem _ (fun x hx => hlen x (hsub x hx)) (fun x hx => hnot x (hsub x hx))]

theorem Part.items_nodup {p : Part} (hp : p.Sectors) : (p.items.map Prod.fst).Nodup := by
  rw [Part.items, List.map_fst_zip hp.secs_count.ge]
  exact setBits_nodup p.slice

/-- What a restore leaves behind: the device, with its position in sectors, and the
variables of `restore`. -/
structure Reached where
  content : Content
  base : Nat
  offset : Nat
  bitindex : Nat
  fmax : Int

structure RestoreState.Shows (st : RestoreState) (v : Reached) : Prop where
  content : st.cp.dev.content = v.content
  pos : st.cp.dev.pos = 512 * v.base
  offset : st.cp.offset = v.offset
  bitindex : st.cp.bitindex = v.bitindex
  fmax : st.fmax = v.fmax

def Part.apply (p : Part) (v : Reached) : Reached where
  content := puts v.base v.content p.items
  base := v.base + p.extent
  offset := 512 * p.extent
  bitindex := visitEnd 0 (writes p.items)
  fmax := p.blocks.getD v.fmax

/-- The files from number `i` on, each complete, until `fmax` is reached or there are no more. -/
def applyAll (i : Nat) : List Part → Reached → Reached
  | [], v => v
  | p :: ps, v =>
    if (p.apply v).fmax ≠ -1 ∧ (i + 1 : Int) ≥ (p.apply v).fmax then p.apply v else applyAll (i + 1) ps (p.apply v)

section Retry

variable {C : Codec} {rel : C.inflater.State → List Byte → List Byte → Prop} {fuel : Nat} {p : Part}
  {file : List Byte}

/-- A failed attempt: the position is restored and a complete pass has the same result
as before. -/
theorem failed_attempt (hZ : C.inflater.Decodes rel) (hr : p.Shaped) (hp : p.Sectors)
    (hrel : rel C.inflater.init file p.output) (hfuel : file.length + p.output.length < fuel)
    {f : List Byte} (hpre : f <+: file) (hne : f ≠ file) {st : RestoreState}
    (hbuf : st.buffer.length = TOTALLG) {base : Nat} (hpos : st.cp.dev.pos = 512 * base) :
    ∃ st', restoreAttempt C.inflater allFull fuel f st = some (false, st') ∧
      st'.buffer.length = TOTALLG ∧
      st'.cp.dev.pos = 512 * base ∧
      puts base st'.cp.dev.content p.items = puts base st.cp.dev.content p.items ∧
      p.blocks.getD st'.fmax = p.blocks.getD st.fmax := by
  obtain ⟨tail, rfl⟩ := hpre
  have htail : tail ≠ [] := by
    rintro rfl
    simp at hne
  obtain ⟨st', n, hatt, hbuf', hdev, hfmax⟩ := restoreAttempt_truncated hZ hr hp hbuf hrel htail hfuel
  have hasc : Ascends 0 ((p.items.take n).map Prod.fst) := by
    rw [List.map_take]
    exact (Part.items_ascends hp).take n
  obtain ⟨hc, -⟩ := run_visit_writes (st.cp.dev.exec allFull .tell) hasc
    (fun x hx => Part.items_length hp x (List.mem_of_mem_take hx)) hpos
  refine ⟨st', hatt, hbuf', ?_, ?_, ?_⟩
  · rw [hdev, run_cons, run_append, run_cons, run_nil, exec_allFull_pos, Req.target, hpos]
  · rw [hdev, run_cons, run_append, run_cons, run_nil]
    change puts base ((st.cp.dev.exec allFull .tell).run allFull _).content p.items = _
    rw [hc]
    exact puts_again _ (Part.items_length hp) (Part.items_nodup hp)
      (fun x hx => List.mem_of_mem_take hx)
  · rcases hfmax with h | h
    · rw [h]
    · rw [h]
      cases p.blocks <;> rfl

/-- The failed attempts of one file, then the complete file. -/
theorem retried_file (hZ : C.inflater.Decodes rel) (hr : p.Shaped) (hp : p.Sectors)
    (hrel : rel C.inflater.init file p.output) (hfuel : file.length + p.output.length < fuel)
    {get : Nat → Nat → Option (List Byte)} {i a : Nat} {tries : List (List Byte)}
    (hget : ∀ k, get i (a + k) = (tries[k]?).or (some file))
    (htries : ∀ f ∈ tries, f <+: file ∧ f ≠ file) {st : RestoreState}
    (hbuf : st.buffer.length = TOTALLG) {v : Reached} (hv : st.Shows v) {turns : Nat}
    (hturns : tries.length < turns) :
    ∃ st1, restoreLoop C.inflater allFull fuel get turns i a st =
        (if st1.fmax ≠ -1 ∧ (i + 1 : Int) ≥ st1.fmax then some st1
          else restoreLoop C.inflater allFull fuel get (turns - tries.length - 1) (i + 1) 0 st1) ∧
      st1.buffer.length = TOTALLG ∧ st1.Shows (p.apply v) := by
  have happly : ∀ {st' : RestoreState}, st'.cp.dev.pos = 512 * v.base →
      puts v.base st'.cp.dev.content p.items = puts v.base v.content p.items →
      p.blocks.getD st'.fmax = p.blocks.getD v.fmax → st'.buffer.length = TOTALLG →
      ∃ st1, restoreLoop C.inflater allFull fuel get turns i a st' =
          (if st1.fmax ≠ -1 ∧ (i + 1 : Int) ≥ st1.fmax then some st1
            else restoreLoop C.inflater allFull fuel get (turns - tries.length - 1) (i + 1) 0 st1) ∧
        st1.buffer.length = TOTALLG ∧ st1.Shows (p.apply v) := by
    clear hv hbuf
    induction tries generalizing a turns with
    | nil =>
      intro st' hpos hcont hfmax hbuf
      obtain ⟨turns, rfl⟩ : ∃ m, turns = m + 1 := ⟨turns - 1, by simp at hturns; omega⟩
      obtain ⟨st1, hatt, hbuf1, hc, hpos1, hoff, hbit, hfm⟩ :=
        restoreAttempt_content hZ hr hp hbuf hrel hfuel hpos
      have hhead : get i a = some file := by simpa using hget 0
      refine ⟨st1, ?_, hbuf1, ⟨hc.trans hcont, hpos1, hoff, hbit, hfm.trans hfmax⟩⟩
      simp only [restoreLoop, hhead, hatt, Option.bind_some, if_true, List.length_nil, Nat.sub_zero,
        Nat.add_sub_cancel]
    | cons f tries ih =>
      intro st' hpos hcont hfmax hbuf
      obtain ⟨turns, rfl⟩ : ∃ m, turns = m + 1 := ⟨turns - 1, by simp at hturns; omega⟩
      obtain ⟨hpre, hne⟩ := htries f (by simp)
      obtain ⟨st2, hatt, hbuf2, hpos2, hputs, hfm⟩ :=
        failed_attempt hZ hr hp hrel hfuel hpre hne hbuf hpos
      have hhead : get i a = some f := by simpa using hget 0
      obtain ⟨st1, hloop, hrest⟩ := ih (a := a + 1)
        (fun k => by rw [Nat.add_assoc, Nat.add_comm 1 k]; simpa using hget (k + 1))
        (fun g hg => htries g (by simp [hg])) (by simp at hturns; omega) hpos2 (hputs.trans hcont)
        (hfm.trans hfmax) hbuf2
      refine ⟨st1, ?_, hrest⟩
      simp only [restoreLoop, hhead, hatt, Option.bind_some, Bool.false_eq_true, if_false, hloop,
        List.length_cons]
      rw [show turns + 1 - (tries.length + 1) - 1 = turns - tries.length - 1 by omega]
  exact happly hv.pos (by rw [hv.content]) (by rw [hv.fmax]) hbuf

/-- Attempts on `m` files from file `i` on. -/
def retryTurns (tries : Nat → List (List Byte)) (i m : Nat) : Nat :=
  ((List.range m).map (fun j => (tries (i + j)).length + 1)).sum

theorem retryTurns_succ (tries : Nat → List (List Byte)) (i m : Nat) :
    retryTurns tries i (m + 1) = (tries i).length + 1 + retryTurns tries (i + 1) m := by
  rw [retryTurns, List.range_succ_eq_map, List.map_cons, List.sum_cons, List.map_map, retryTurns]
  simp only [Function.comp_def, Nat.add_zero, Nat.add_assoc, Nat.add_comm 1]

theorem retried_image (hZ : C.inflater.Decodes rel)
    (hdef : ∀ calls, Finished calls → rel C.inflater.init (C.deflate calls) (streamInput calls))
    {get : Nat → Nat → Option (List Byte)} {tries : Nat → List (List Byte)}
    {files : List (List DeflateCall)} {parts : List Part} {i : Nat}
    (hdata : List.Forall₂ FileData files parts)
    (hget : ∀ j k, get (i + j) k = ((tries (i + j))[k]?).or (files[j]?.map C.deflate))
    (htries : ∀ j, ∀ f ∈ tries (i + j), ∃ calls, files[j]? = some calls ∧ f <+: C.deflate calls ∧
      f ≠ C.deflate calls)
    (hshape : ∀ p ∈ parts, p.Shaped)
    (hfuel : ∀ calls ∈ files, (C.deflate calls).length + (streamInput calls).length < fuel)
    {turns : Nat} (hturns : retryTurns tries i parts.length < turns) {st : RestoreState}
    (hbuf : st.buffer.length = TOTALLG) {v : Reached} (hv : st.Shows v) :
    ∃ st', restoreLoop C.inflater allFull fuel get turns i 0 st = some st' ∧
      st'.Shows (applyAll i parts v) := by
  induction hdata generalizing i turns st v with
  | nil =>
    obtain ⟨turns, rfl⟩ : ∃ m, turns = m + 1 := ⟨turns - 1, by omega⟩
    have hnone : tries i = [] := by
      rw [List.eq_nil_iff_forall_not_mem]
      intro f hf
      obtain ⟨calls, hcalls, -⟩ := htries 0 f hf
      simp at hcalls
    have hstop : get i 0 = none := by simpa [hnone] using hget 0 0
    exact ⟨st, by simp [restoreLoop, hstop], hv⟩
  | @cons calls p files parts hfile hdata ih =>
    rw [List.length_cons, retryTurns_succ] at hturns
    have hrel := hdef calls hfile.finished
    have hlt := hfuel calls (by simp)
    rw [hfile.input] at hrel hlt
    obtain ⟨st1, hloop, hbuf1, hv1⟩ := retried_file (i := i) (a := 0)
      hZ (hshape p (by simp)) hfile.sectors hrel hlt
      (fun k => by simpa using hget 0 k)
      (fun f hf => by
        obtain ⟨calls', hcalls, h⟩ := htries 0 f hf
        rw [List.getElem?_cons_zero, Option.some.injEq] at hcalls
        rwa [← hcalls] at h)
      hbuf hv (by omega : (tries i).length < turns)
    rw [hloop, applyAll, hv1.fmax]
    split
    · exact ⟨st1, rfl, hv1⟩
    · exact ih (i := i + 1) (fun j k => by
          have := hget (j + 1) k
          rwa [show i + (j + 1) = i + 1 + j by omega] at this)
        (fun j f hf => by
          obtain ⟨calls', hcalls, h⟩ := htries (j + 1) f (by rwa [show i + (j + 1) = i + 1 + j by omega])
          exact ⟨calls', hcalls, h⟩)
        (fun q hq => hshape q (by simp [hq])) (fun c hc => hfuel c (by simp [hc])) (by omega) hbuf1 hv1

end Retry

theorem fetchRetry_nil (files : List (List Byte)) : fetchRetry (fun _ => []) files = fetch files := by
  funext n a
  simp [fetchRetry, fetch]

/-- The run of `restore` on an image whose files may be found truncated first. -/
theorem restore_retried {C : Codec} (hC : C.Correct) {image : Image} {parts : List Part}
    (hdata : List.Forall₂ FileData image.files parts) (hshape : ∀ p ∈ parts, p.Shaped)
    {tries : Nat → List (List Byte)} (htries : Truncations tries (imageFiles C image))
    (sect : Nat) (mem : Memory) (dev : Device) {fuel : Nat}
    (hfuel : imageFuel C image + retryTurns tries 0 image.files.length ≤ fuel) :
    ∃ st, restore C.inflater allFull fuel (fetchRetry tries (imageFiles C image)) sect mem dev =
      some st ∧
      st.Shows (applyAll 0 parts ⟨dev.content, sect, 512 * sect, 0, -1⟩) := by
  obtain ⟨rel, hZ, hdef⟩ := hC.follows
  have hpos : 0 < imageFuel C image := by simp [imageFuel]
  have hget : ∀ j k, fetchRetry tries (imageFiles C image) (0 + j) k =
      ((tries (0 + j))[k]?).or (image.files[j]?.map C.deflate) :=
        fun j k => by simp [fetchRetry, imageFiles]
  refine retried_image hZ hdef hdata hget (fun j f hf => ?_) hshape (fun calls hc => ?_)
    (by rw [← hdata.length_eq]; omega) mem.buffer_length ⟨rfl, by simp [Req.target], rfl, rfl, rfl⟩
  · obtain ⟨file, hfile, h⟩ := htries j f (by simpa using hf)
    rw [imageFiles, List.getElem?_map] at hfile
    obtain ⟨calls, hcalls, rfl⟩ := Option.map_eq_some_iff.mp hfile
    exact ⟨calls, hcalls, h⟩
  · have := lt_imageFuel (C := C) hc
    omega

theorem truncations_nil (files : List (List Byte)) : Truncations (fun _ => []) files := by
  intro n f hf
  simp at hf

/-- Failed attempts on truncated files leave no trace on the device, in its position
or in what `restore` remembers. -/
theorem restore_retry_transparent {C : Codec} (hC : C.Correct) (options : Option (List Byte)) {info : List Byte}
    (hinfo : info ∈ imagerInfos) (p : PARAMS) (c : Content) {tries : Nat → List (List Byte)}
    (htries : Truncations tries (imageFiles C (compressVolume allFull options info p (openDevice c))))
    (sect : Nat) (mem : Memory) (dev : Device) {fuel : Nat}
    (hfuel : imageFuel C (compressVolume allFull options info p (openDevice c)) +
      retryTurns tries 0 (compressVolume allFull options info p (openDevice c)).files.length ≤ fuel) :
    ∃ st st₀, restore C.inflater allFull fuel
        (fetchRetry tries (imageFiles C (compressVolume allFull options info p (openDevice c))))
        sect mem dev = some st ∧
      restore C.inflater allFull fuel
        (fetch (imageFiles C (compressVolume allFull options info p (openDevice c)))) sect mem dev = some st₀ ∧
      st.cp.dev.content = st₀.cp.dev.content ∧ st.cp.dev.pos = st₀.cp.dev.pos ∧ st.fmax = st₀.fmax ∧
      st.cp.offset = st₀.cp.offset ∧ st.cp.bitindex = st₀.cp.bitindex := by
  let image := compressVolume allFull options info p (openDevice c)
  obtain ⟨parts, hdata, -, hlayout, -⟩ := compressVolume_layout allFull options hinfo p (openDevice c)
  have hshape : ∀ q ∈ parts, q.Shaped := by
    intro q hq
    obtain ⟨i, hi⟩ := List.mem_iff_getElem?.mp hq
    exact (hlayout i q hi).1
  obtain ⟨st, hst, h⟩ := restore_retried hC hdata hshape htries sect mem dev hfuel
  have hless : retryTurns (fun _ => []) 0 image.files.length ≤
      retryTurns tries 0 image.files.length := List.sum_le_sum (fun j _ => by simp)
  obtain ⟨st₀, hst₀, h₀⟩ := restore_retried hC hdata hshape (truncations_nil _) sect mem dev
    ((Nat.add_le_add_left hless _).trans hfuel)
  rw [fetchRetry_nil] at hst₀
  exact ⟨st, st₀, hst, hst₀, h.content.trans h₀.content.symm, h.pos.trans h₀.pos.symm,
    h.fmax.trans h₀.fmax.symm, h.offset.trans h₀.offset.symm, h.bitindex.trans h₀.bitindex.symm⟩

/-- Its only file is found cut after one byte, then behind the sectors that are written first, then complete. -/
theorem restore_retry_two_failures :
    ∃ calls, smallImage.files = [calls] ∧ ∃ st st₀,
      restore storedCodec.inflater allFull (imageFuel storedCodec smallImage + 3)
        (fetchRetry (fun n => if n = 0 then [[0x78], (storedDeflate calls).take 48500] else [])
          (imageFiles storedCodec smallImage))
        63 freshMemory (openDevice (fun _ => 0)) = some st ∧
      restore storedCodec.inflater allFull (imageFuel storedCodec smallImage + 3)
        (fetch (imageFiles storedCodec smallImage)) 63 freshMemory (openDevice (fun _ => 0)) = some st₀ ∧
      st.cp.dev.content = st₀.cp.dev.content ∧ st.cp.dev.pos = st₀.cp.dev.pos ∧ st.fmax = st₀.fmax := by
  obtain ⟨calls, -, hcalls, -, -, -, -, hlen⟩ := smallImage_file
  have htries : Truncations (fun n => if n = 0 then [[0x78], (storedDeflate calls).take 48500]
      else [])
      (imageFiles storedCodec smallImage) := by
    intro n f hf
    by_cases hn : n = 0
    · subst hn
      refine ⟨storedDeflate calls, by rw [imageFiles, hcalls]; rfl, ?_⟩
      simp only [if_true, List.mem_cons, List.not_mem_nil, or_false] at hf
      rcases hf with rfl | rfl
      · simp [storedDeflate]
      · refine ⟨List.take_prefix _ _, fun he => ?_⟩
        have := congrArg List.length he
        rw [List.length_take, hlen] at this
        omega
    · simp [hn] at hf
  have hturns : retryTurns (fun n => if n = 0 then [[0x78], (storedDeflate calls).take 48500]
      else []) 0
      smallImage.files.length ≤ 3 := by
    rw [hcalls]
    exact Nat.le_refl 3
  obtain ⟨st, st₀, h, h₀, hc, hp, hf, -⟩ := restore_retry_transparent storedCodec_correct none
    nil_mem_imagerInfos gappedSectors (fun _ => 0x55) htries 63 freshMemory (openDevice (fun _ => 0))
    (Nat.add_le_add_left hturns _)
  exact ⟨calls, hcalls, st, st₀, h, h₀, hc, hp, hf⟩

end PulseImaging
