import PulseImaging.BackupFiles
import PulseImaging.RoundTrip

/-! One action of a restore on the disks: the records of a disk, or the files of an image. -/

namespace PulseImaging

variable {δ : Type*} {site : Site δ} {r : RestoreSite} {revosave : List Byte} {dir : ImageDir}
  {source : Store δ} {a : RestoreAction}

/-! ### The files of an image -/

/-- An image says how many files it has, so nothing behind the last one is looked at. -/
theorem restoreLoop_congr {Z : Inflater} {io : Nat → Outcome} {fuel nb : Nat}
    {get get' : Nat → Nat → Option (List Byte)} (hget : ∀ n a, n < nb → get' n a = get n a)
    (hend : ∀ n a, nb ≤ n → get n a = none) {turns n a : Nat} {st st' : RestoreState}
    (hrun : restoreLoop Z io fuel get turns n a st = some st') (hn : n < nb) (hfmax : st'.fmax = nb) :
    restoreLoop Z io fuel get' turns n a st = some st' := by
  induction turns generalizing n a st with
  | zero => cases hrun
  | succ turns ih =>
    rw [restoreLoop] at hrun ⊢
    rw [hget n a hn]
    cases hfile : get n a with
    | none => rwa [hfile] at hrun
    | some file =>
      rw [hfile] at hrun
      dsimp only at hrun ⊢
      cases hattempt : restoreAttempt Z io fuel file st with
      | none => rw [hattempt] at hrun; cases hrun
      | some x =>
        rw [hattempt, Option.bind_some] at hrun
        rw [Option.bind_some]
        split_ifs at hrun ⊢ with htaken hstop
        · exact hrun
        · by_cases hnext : n + 1 < nb
          · exact ih hrun hnext
          · -- behind the last file the loop would have stopped before
            cases turns with
            | zero => cases hrun
            | succ turns =>
              rw [restoreLoop, hend (n + 1) 0 (by omega)] at hrun
              dsimp only at hrun
              rw [if_pos rfl] at hrun
              obtain rfl := Option.some.inj hrun
              exact absurd ⟨by omega, by omega⟩ hstop
        · exact ih hrun hn

theorem imageFiles_length (C : Codec) (options : Option (List Byte)) (info : List Byte) (p : PARAMS) (dev : Device) :
    (imageFiles C (compressVolume allFull options info p dev)).length = blockCount p.bitmap.length := by
  rw [imageFiles, List.length_map, compressVolume_files_length]

/-- A restore from files that are those of an image, whatever else is there. -/
theorem restore_files {C : Codec} (hC : C.Correct) {options : Option (List Byte)} (hopt : NoKeywords options)
    {info : List Byte} (hinfo : info ∈ imagerInfos) {p : PARAMS} (hbitmap : p.bitmap ≠ []) (c : Content) (sect : Nat)
    (mem : Memory) (dev : Device) {get : Nat → Nat → Option (List Byte)}
    (hget : ∀ n a, n < blockCount p.bitmap.length →
      get n a = (imageFiles C (compressVolume allFull options info p (openDevice c)))[n]?)
    {fuel : Nat} (hfuel : imageFuel C (compressVolume allFull options info p (openDevice c)) ≤ fuel) :
    ∃ st, restore C.inflater allFull fuel get sect mem dev = some st ∧
      st.cp.dev.content = puts sect dev.content (savedSectors c p.bitmap) := by
  obtain ⟨st, hst, hcontent, -⟩ := restore_saved hC hopt hinfo p c sect mem dev hfuel
  obtain ⟨parts, hparts, -⟩ := compressVolume_saved hinfo (hopt.headersRead hinfo p) c
  obtain ⟨st', hst', -, -, hfmax⟩ := restore_image allFull hC hparts sect mem dev hfuel
  obtain rfl := Option.some.inj (hst.symm.trans hst')
  have hlen : parts.length = blockCount p.bitmap.length := by
    rw [← List.length_map (f := Part.slice), hparts.slices_eq, slicesOf, bitmapSlices_length]
  have hpos := blockCount_pos hbitmap
  have hend : ∀ n a : Nat, blockCount p.bitmap.length ≤ n →
      fetch (imageFiles C (compressVolume allFull options info p (openDevice c))) n a = none := by
    intro n _ hn
    rw [fetch, List.getElem?_eq_none_iff, imageFiles_length]
    exact hn
  refine ⟨st, restoreLoop_congr hget hend hst hpos ?_, hcontent⟩
  rw [hfmax (by rintro rfl; rw [List.length_nil] at hlen; omega), hlen]

/-- The files of a volume on a device that has its sectors from `sect` on. -/
theorem restoreFiles_copied (hC : site.codec.Correct) (hopt : NoKeywords site.options) {t : Imager} {v : Volume}
    (hinfo : site.info t v ∈ imagerInfos) (hbitmap : (site.params t v).bitmap ≠ []) {fname device : List Byte}
    {sect : Nat}
    (hfiles : ∀ n < blockCount (site.params t v).bitmap.length,
      dir (imageName (revosave ++ ascii "/" ++ fname) n) = (imageFiles site.codec (site.image source t v))[n]?)
    (hplaced : ∀ i ∈ setBits (site.params t v).bitmap,
      (site.views (devPath v.part.device)).place i = (site.views device).place (sect + i)) :
    ∃ n, ∀ fuel ≥ n, ∀ disks, ∃ disks',
      site.restoreFiles r revosave dir fuel a device sect fname disks = some disks' ∧
        Copied source (fun q => ∃ i ∈ setBits (site.params t v).bitmap,
          (site.views (devPath v.part.device)).place i = q) disks disks' := by
  set view := site.views (devPath v.part.device)
  set bitmap := (site.params t v).bitmap
  refine ⟨imageFuel site.codec (site.image source t v), fun fuel hfuel disks => ?_⟩
  obtain ⟨st, hst, hcontent⟩ := restore_files hC hopt hinfo hbitmap (view.read source) sect (r.mem a)
    (openDevice ((site.views device).read disks)) (fun n _ hn => hfiles n hn) hfuel
  refine ⟨_, by rw [Site.restoreFiles, hst, Option.map_some], ?_⟩
  have hcopied : Copied source
      (fun q => ∃ j, (∃ i ∈ setBits bitmap, j = sect + i) ∧ (site.views device).place j = q) disks
      ((site.views device).write st.cp.dev.content disks) := by
    refine (site.views device).write_copied ?_ ?_
    · rintro _ ⟨i, hi, rfl⟩
      rw [hcontent, puts_saved_of_mem hi, SectorView.slice_read, hplaced i hi]
    · intro j hj
      rw [hcontent, puts_saved_of_not_mem fun i hi heq => hj ⟨i, hi, heq⟩]
      rfl
  refine hcopied.congr fun q => ⟨?_, ?_⟩
  · rintro ⟨_, ⟨i, hi, rfl⟩, hq⟩
    exact ⟨i, hi, (hplaced i hi).trans hq⟩
  · rintro ⟨i, hi, hq⟩
    exact ⟨sect + i, ⟨i, hi, rfl⟩, (hplaced i hi).symm.trans hq⟩

/-! ### The records of a disk -/

theorem restoreRaw_more {input : RawInput} {junk : List Byte} {ws : List RawWrite} {fuel : Nat}
    (h : restoreRaw input junk fuel = some ws) : ∃ n, ∀ fuel ≥ n, restoreRaw input junk fuel = some ws := by
  obtain ⟨n, hend, rfl⟩ := restoreRaw_eq_some_iff.mp ⟨fuel, h⟩
  exact ⟨n + 1, fun fuel hfuel => restoreRaw_of_end hend junk hfuel⟩

/-- The sectors that a call files under a path. -/
def sectorsAt (revosave path : List Byte) : SaveEvent → List Nat
  | .saveRaw start stop _ num => if tabsPath revosave num = path then List.range' start (stop + 1 - start) else []
  | _ => []

theorem mem_sectorsAt {path : List Byte} {e : SaveEvent} {s : Nat} :
    s ∈ sectorsAt revosave path e ↔ ∃ start stop fmajor num, e = .saveRaw start stop fmajor num ∧
      tabsPath revosave num = path ∧ start ≤ s ∧ s ≤ stop := by
  constructor
  · intro h
    cases e with
    | saveRaw start stop fmajor num =>
      rw [sectorsAt] at h
      split_ifs at h with hpath
      · have := List.mem_range'_1.mp h
        exact ⟨start, stop, fmajor, num, rfl, hpath, by omega, by omega⟩
      · exact absurd h List.not_mem_nil
    | _ => exact absurd h List.not_mem_nil
  · rintro ⟨start, stop, fmajor, num, rfl, hpath, hle, hlt⟩
    rw [sectorsAt, if_pos hpath]
    exact List.mem_range'_1.mpr (by omega)

/-- Records that were all read from one device. -/
theorem recordsAt_eq {es : List SaveEvent} {path device : List Byte}
    (h : ∀ start stop fmajor num, .saveRaw start stop fmajor num ∈ es → tabsPath revosave num = path →
      fmajor = device) :
    es.flatMap (site.recordsAt source revosave path) =
      (es.flatMap (sectorsAt revosave path)).flatMap (rawRecord ((site.views device).read source)) := by
  induction es with
  | nil => rfl
  | cons e es ih =>
    have hrest := ih fun start stop fmajor num hmem => h start stop fmajor num (List.mem_cons_of_mem e hmem)
    rw [List.flatMap_cons, List.flatMap_cons, List.flatMap_append, ← hrest]
    congr 1
    cases e with
    | saveRaw start stop fmajor num =>
      rw [Site.recordsAt, sectorsAt]
      split_ifs with hpath
      · rw [h start stop fmajor num List.mem_cons_self hpath]
      · rfl
    | _ => rfl

/-- `restore_raw` from records of sectors. -/
theorem restoreRaw_copied {d1 : Nat} {device fname : List Byte} (hdisk : r.hdmap[d1]? = some device)
    {ss : List Nat} (hss : ∀ s ∈ ss, s < 2 ^ 32)
    (hfile : dir (revosave ++ ascii "/" ++ fname) =
      some (ss.flatMap (rawRecord ((site.views device).read source)))) :
    ∃ n, ∀ fuel ≥ n, ∀ disks, ∃ disks',
      site.restoreAction r revosave dir fuel disks (.restoreRaw d1 fname) = some disks' ∧
        Copied source (fun q => ∃ s ∈ ss, (site.views device).place s = q) disks disks' := by
  obtain ⟨fuel, ws, hrun, hwrites⟩ := restoreRaw_copies ((site.views device).read source)
    (r.junk (.restoreRaw d1 fname)) hss
  obtain ⟨n, hn⟩ := restoreRaw_more hrun
  refine ⟨n, fun fuel hfuel disks => ?_⟩
  have hraw := hn fuel hfuel
  refine ⟨(site.views device).write (copySectors ((site.views device).read source) ss
    ((site.views device).read disks)) disks, ?_, ?_⟩
  · simp only [Site.restoreAction, hdisk, Option.bind_some, hfile, Option.elim_some, hraw, Option.map_some, hwrites]
  · refine (site.views device).write_copied (T := (· ∈ ss)) (fun i hi => ?_) fun i hi => ?_
    · rw [slice_copySectors, if_pos hi, SectorView.slice_read]
    · rw [slice_copySectors, if_neg hi]

end PulseImaging
