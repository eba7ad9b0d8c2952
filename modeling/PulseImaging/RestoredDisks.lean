import PulseImaging.RestoreSteps

/-! A restore of a whole backup: the disks get back the sectors that were saved, each at its place, and
no other sector changes. -/

namespace PulseImaging

variable {δ : Type*} {site : Site δ} {m : Machine} {o : SaveOptions}

/-! ### The commands of the restore -/

theorem restoreAction_none (r : RestoreSite) (revosave : List Byte) (dir : ImageDir) (fuel : Nat)
    (disks : Store δ) {a : RestoreAction} (h : a.isCommand = false) :
    site.restoreAction r revosave dir fuel disks a = some disks := by
  cases a <;> first | rfl | cases h

/-- What is restored for a call of the backup. -/
def Site.restoreMeant (site : Site δ) (r : RestoreSite) (revosave : List Byte) (dir : ImageDir) (fuel : Nat)
    (disks : Store δ) (e : SaveEvent) : Option (Store δ) :=
  e.meant.elim (some disks) (site.restoreAction r revosave dir fuel disks)

theorem restoreAll_conftxt (h : OrdinaryBackup m o) (hsolid : PrefixesSolid m o) (r : RestoreSite)
    (junk : List Byte) {hostname date : List Byte} (hhost : Clean hostname) (hdate : Clean date)
    (hlen : ∀ l ∈ conftxtLines hostname date (save m o).trace, l.length < 250) (dir : ImageDir)
    (fuel : Nat) (disks : Store δ) :
    site.restoreAll r o.revosave junk dir (conftxt hostname date (save m o).trace) fuel disks =
      (save m o).trace.foldlM (site.restoreMeant r o.revosave dir fuel) disks := by
  have hskip : ∀ (as : List RestoreAction) (disks : Store δ),
      as.foldlM (site.restoreAction r o.revosave dir fuel) disks =
        (commandsOf as).foldlM (site.restoreAction r o.revosave dir fuel) disks := by
    intro as
    induction as with
    | nil => exact fun _ => rfl
    | cons a as ih =>
      intro disks
      rw [commandsOf, List.filter_cons]
      split_ifs with hcommand
      · rw [List.foldlM_cons, List.foldlM_cons]
        exact congrArg _ (funext ih)
      · rw [List.foldlM_cons, restoreAction_none r o.revosave dir fuel disks
          (Bool.not_eq_true _ ▸ hcommand)]
        exact ih disks
  rw [Site.restoreAll, hskip, commandsOf_conftxt h hsolid false junk hhost hdate hlen,
    List.foldlM_append, List.foldlM_filterMap]
  have hdefault : ∀ x : Option (Store δ), (x.bind fun disks =>
      [RestoreAction.setdefault (ascii "0")].foldlM (site.restoreAction r o.revosave dir fuel) disks) = x := by
    intro x
    cases x <;> rfl
  refine (hdefault _).trans ?_
  congr 1
  funext disks e
  rw [Site.restoreMeant]
  cases e.meant <;> rfl

/-! ### The sectors of a backup -/

/-- What is restored by the command that a call of the backup writes. -/
def Site.savedBy (site : Site δ) (trace : List SaveEvent) : SaveEvent → δ × Nat → Prop
  | .disk num _ _, q => ∃ start stop fmajor, .saveRaw start stop fmajor num ∈ trace ∧
      ∃ s, start ≤ s ∧ s ≤ stop ∧ (site.views fmajor).place s = q
  | .partcopy v, q => ∃ t, .image t v ∈ trace ∧
      ∃ i ∈ setBits (site.params t v).bitmap, (site.views (devPath v.part.device)).place i = q
  | _, _ => False

/-- The sectors of a backup: copies that are filed under a disk, and those of the images. -/
def Site.Saved (site : Site δ) (trace : List SaveEvent) (q : δ × Nat) : Prop :=
  (∃ num part size start stop fmajor s, .disk num part size ∈ trace ∧ .saveRaw start stop fmajor num ∈ trace ∧
    start ≤ s ∧ s ≤ stop ∧ (site.views fmajor).place s = q) ∨
  ∃ t v, .image t v ∈ trace ∧
    ∃ i ∈ setBits (site.params t v).bitmap, (site.views (devPath v.part.device)).place i = q

/-- What a restore relies on: the backup is an ordinary one in which every volume got an image, its ranges and its
file names are sound, and the sectors of a partition are those of its disk from the start of the partition on. -/
structure Restorable (site : Site δ) (m : Machine) (o : SaveOptions) (nb : PartInfo → Nat) : Prop where
  ordinary : OrdinaryBackup m o
  majors : m.MapperMajors
  minors : ∀ p ∈ m.entries, isMapperName p.device = true → 0 ≤ p.minor
  entries : m.entries.Nodup
  ranges : RangesEnd (save m o).trace
  supported : ∀ v ∈ (save m o).volumes, m.imager o v ≠ none
  revosave : o.revosave.length ≤ 56
  apart : NamesDiffer o.revosave (save m o).saved nb
  blocks : ∀ t v, .image t v ∈ (save m o).trace → blockCount (site.params t v).bitmap.length ≤ nb v.part
  codec : site.codec.Correct
  keywords : NoKeywords site.options
  infos : ∀ t v, site.info t v ∈ imagerInfos
  bitmaps : ∀ t v, (site.params t v).bitmap ≠ []
  placed : ∀ t v, .image t v ∈ (save m o).trace → v.isdm = false → ∀ d ∈ (save m o).disks, d.dnum = v.dnum →
    ∀ i ∈ setBits (site.params t v).bitmap,
      (site.views (devPath v.part.device)).place i = (site.views (devPath d.part.device)).place (v.tmin + i)

variable {nb : PartInfo → Nat} {source : Store δ} {dir : ImageDir} {r : RestoreSite}

theorem partVolume_part {st : SaveState} {p : PartInfo} {size : Nat} {v : Volume}
    (h : st.partVolume m o p size = some v) : v.part = p := by
  rw [SaveState.partVolume] at h
  rw [Option.ite_none_left_eq_some] at h
  rw [← Option.some.inj h.2]

theorem volumeOf_part {st : SaveState} {p : PartInfo} {v : Volume} (h : st.volumeOf m o p = some v) :
    v.part = p := by
  rw [SaveState.volumeOf] at h
  rw [Option.ite_none_left_eq_some] at h
  obtain ⟨dev, -, h⟩ := Option.bind_eq_some_iff.mp h.2
  obtain ⟨start, -, h⟩ := Option.bind_eq_some_iff.mp h
  rw [Option.ite_none_left_eq_some] at h
  exact partVolume_part h.2

/-- The entries differ, so that a volume is known by its partition. -/
theorem volumes_part_injective (hentries : m.entries.Nodup) {v w : Volume}
    (hv : v ∈ (save m o).volumes) (hw : w ∈ (save m o).volumes) (h : v.part = w.part) : v = w := by
  obtain ⟨ps, p, qs, heq, hv⟩ := (mem_volumes_iff_turn m o v).mp hv
  obtain ⟨ps', p', qs', heq', hw⟩ := (mem_volumes_iff_turn m o w).mp hw
  have hp : p = p' := (volumeOf_part hv).symm.trans (h.trans (volumeOf_part hw))
  have hnd := hentries
  rw [heq', List.nodup_append, List.nodup_cons] at hnd
  have hnot : p' ∉ ps' := fun hmem => hnd.2.2 p' hmem p' List.mem_cons_self rfl
  have hnot' : p' ∉ qs' := hnd.2.1.1
  rw [heq, hp] at heq'
  obtain ⟨rfl, -, -⟩ := (List.append_cons_inj_of_notMem hnot hnot').mp heq'.symm
  rw [hp] at hv
  exact Option.some.inj (hv.symm.trans hw)

/-- The numbers of the backup are those of the table of the restore. -/
structure Numbered (m : Machine) (o : SaveOptions) (hdmap : List (List Byte)) : Prop where
  few : (save m o).disks.length ≤ 128
  disk : ∀ (k : Nat) (d : NumberedDisk), (save m o).disks[k]? = some d →
    d.dnum = 128 + (k : Int) ∧ hdmap[k]? = some (devPath d.part.device)

theorem Numbered.range {hdmap : List (List Byte)} (h : Numbered m o hdmap) {d : NumberedDisk}
    (hd : d ∈ (save m o).disks) :
    (128 ≤ d.dnum ∧ d.dnum < 256) ∧ hdmap[(d.dnum - 128).toNat]? = some (devPath d.part.device) := by
  obtain ⟨k, hk⟩ := List.getElem?_of_mem hd
  obtain ⟨hnum, hpath⟩ := h.disk k d hk
  have hlt := (List.getElem?_eq_some_iff.mp hk).1
  have hfew := h.few
  rw [show (d.dnum - 128).toNat = k by omega]
  exact ⟨by omega, hpath⟩

theorem Numbered.injective {hdmap : List (List Byte)} (h : Numbered m o hdmap) {d d' : NumberedDisk}
    (hd : d ∈ (save m o).disks) (hd' : d' ∈ (save m o).disks) (heq : d.dnum = d'.dnum) : d = d' := by
  obtain ⟨k, hk⟩ := List.getElem?_of_mem hd
  obtain ⟨k', hk'⟩ := List.getElem?_of_mem hd'
  have hnum := (h.disk k d hk).1
  have hnum' := (h.disk k' d' hk').1
  obtain rfl : k = k' := by omega
  exact Option.some.inj (hk.symm.trans hk')

theorem Numbered.prefixes {hdmap : List (List Byte)} (h : Numbered m o hdmap)
    (hordinary : OrdinaryBackup m o) :
    PrefixesSolid m o := by
  refine hordinary.prefixes_iff.mp fun d hd => ?_
  obtain ⟨⟨hlow, hhigh⟩, -⟩ := h.range hd
  obtain ⟨n, hn⟩ : ∃ n : Nat, d.dnum = n + 128 := ⟨(d.dnum - 128).toNat, by omega⟩
  rw [hn]
  refine (dnum2pre_space_iff (by omega)).mpr ?_
  simp only [spaceLetters, List.mem_cons, List.not_mem_nil, or_false]
  omega

namespace Restorable

variable {t : Imager} {v : Volume}

theorem volume_of_image (hv : .image t v ∈ (save m o).trace) : v ∈ (save m o).volumes :=
  ((image_mem_trace_iff m o t v).mp hv).1

theorem partition_disk (h : Restorable site m o nb) (hn : Numbered m o r.hdmap)
    (hv : v ∈ (save m o).volumes) (hdm : v.isdm = false) :
    ∃ d ∈ (save m o).disks, d.dnum = v.dnum ∧ (128 ≤ v.dnum ∧ v.dnum < 256) ∧
      r.hdmap[(v.dnum - 128).toNat]? = some (devPath d.part.device) := by
  obtain ⟨d, hd, heq⟩ := h.ordinary.partitions v hv hdm
  obtain ⟨hrange, hpath⟩ := hn.range hd
  exact ⟨d, hd, heq.symm, heq ▸ hrange, heq ▸ hpath⟩

/-- The files of a volume have the names that the restore asks for. -/
theorem destfile_eq (h : Restorable site m o nb) (hn : Numbered m o r.hdmap) (hv : v ∈ (save m o).volumes) :
    destfile o.revosave v = o.revosave ++ ascii "/" ++ v.stem := by
  refine Volume.Ordinary.destfile_eq ⟨(volumes_fromEntry m o v hv).2, fun hdm => ?_,
    fun hdm => (h.ordinary.minors v hv hdm).1⟩ h.revosave
  obtain ⟨d, -, -, hrange, -⟩ := h.partition_disk hn hv hdm
  omega

/-- No file of an image is written over. -/
theorem image_files (h : Restorable site m o nb)
    (hdir : BackupDir site source o.revosave (save m o).trace (fun _ => none) dir)
    (hv : .image t v ∈ (save m o).trace) {n : Nat}
    (hlt : n < blockCount (site.params t v).bitmap.length) :
    dir (imageName (destfile o.revosave v) n) =
      (imageFiles site.codec (site.image source t v))[n]? := by
  have hlen : ∀ t v, (imageFiles site.codec (site.image source t v)).length =
      blockCount (site.params t v).bitmap.length := fun t v => imageFiles_length _ _ _ _ _
  have hsome := List.getElem?_eq_getElem (show n <
    (imageFiles site.codec (site.image source t v)).length by
    rwa [hlen])
  rw [hsome]
  refine hdir.images t v n _ hsome (fun t' w j hw hj heq => ?_) (.inr hv)
  have hj' := hlen t' w ▸ hj
  obtain ⟨hpart, -⟩ := h.apart w (mem_saved_iff.mpr ⟨t', hw⟩) v (mem_saved_iff.mpr ⟨t, hv⟩) j
    (lt_of_lt_of_le hj' (h.blocks t' w hw)) n (lt_of_lt_of_le hlt (h.blocks t v hv)) heq
  obtain rfl := volumes_part_injective h.entries (volume_of_image hw) (volume_of_image hv) hpart
  have himager := ((image_mem_trace_iff m o t w).mp hv).2
  have himager' := ((image_mem_trace_iff m o t' w).mp hw).2
  exact ⟨Option.some.inj (himager'.symm.trans himager), rfl⟩

/-- The command of a volume restores its image. -/
theorem volume_restored (h : Restorable site m o nb) (hn : Numbered m o r.hdmap)
    (hdir : BackupDir site source o.revosave (save m o).trace (fun _ => none) dir)
    (hv : .partcopy v ∈ (save m o).trace) : ∃ n, ∀ fuel ≥ n, ∀ disks, ∃ disks',
      site.restoreMeant r o.revosave dir fuel disks (.partcopy v) = some disks' ∧
        Copied source (site.savedBy (save m o).trace (.partcopy v)) disks disks' := by
  have hmem := mem_volumes_iff_partcopy.mpr hv
  obtain ⟨t, ht⟩ := Option.ne_none_iff_exists'.mp (h.supported v hmem)
  have himage := (image_mem_trace_iff m o t v).mpr ⟨hmem, ht⟩
  have hsaved : ∀ q, (∃ i ∈ setBits (site.params t v).bitmap,
      (site.views (devPath v.part.device)).place i = q) ↔
      site.savedBy (save m o).trace (.partcopy v) q := by
    refine fun q => ⟨fun hq => ⟨t, himage, hq⟩, fun ⟨t', himage', hq⟩ => ?_⟩
    obtain rfl := Option.some.inj (((image_mem_trace_iff m o t' v).mp himage').2.symm.trans ht)
    exact hq
  have hfiles : ∀ n < blockCount (site.params t v).bitmap.length,
      dir (imageName (o.revosave ++ ascii "/" ++ v.stem) n) =
        (imageFiles site.codec (site.image source t v))[n]? := by
    intro n hlt
    rw [← h.destfile_eq hn hmem]
    exact h.image_files hdir himage hlt
  cases hdm : v.isdm with
  | false =>
    obtain ⟨d, hd, hnum, -, hpath⟩ := h.partition_disk hn hmem hdm
    obtain ⟨n, hrun⟩ := restoreFiles_copied (a := .restore
      (v.dnum - 128).toNat v.tmin v.stem) h.codec h.keywords
      (h.infos t v) (h.bitmaps t v) hfiles (h.placed t v himage hdm d hd hnum)
    refine ⟨n, fun fuel hfuel disks => ?_⟩
    obtain ⟨disks', hrestored, hcopied⟩ := hrun fuel hfuel disks
    refine ⟨disks', ?_, hcopied.congr hsaved⟩
    have hmeant : SaveEvent.meant (.partcopy v) = some
        (.restore (v.dnum - 128).toNat v.tmin v.stem) := by
      simp only [SaveEvent.meant, Volume.stem, hdm, Bool.false_eq_true, if_false]
    rw [Site.restoreMeant, hmeant, Option.elim_some, Site.restoreAction, hpath, Option.bind_some]
    exact hrestored
  | true =>
    obtain ⟨n, hrun⟩ := restoreFiles_copied (a := .restoreLvm
      (devPath v.part.device) 0 v.stem) h.codec h.keywords
      (h.infos t v) (h.bitmaps t v) hfiles fun i _ => by rw [Nat.zero_add]
    refine ⟨n, fun fuel hfuel disks => ?_⟩
    obtain ⟨disks', hrestored, hcopied⟩ := hrun fuel hfuel disks
    refine ⟨disks', ?_, hcopied.congr hsaved⟩
    have hmeant : SaveEvent.meant (.partcopy v) = some
        (.restoreLvm (devPath v.part.device) 0 v.stem) := by
      simp only [SaveEvent.meant, Volume.stem, hdm, if_true, List.append_nil]
    rw [Site.restoreMeant, hmeant, Option.elim_some, Site.restoreAction]
    exact hrestored

/-- What is filed under the name of a disk was read from it. -/
theorem filed_disk (h : Restorable site m o nb) (hn : Numbered m o r.hdmap) {d : NumberedDisk}
    (hd : d ∈ (save m o).disks) {start stop : Nat} {fmajor : List Byte} {num : Int}
    (he : .saveRaw start stop fmajor num ∈ (save m o).trace)
    (hpath : tabsPath o.revosave num = tabsPath o.revosave d.dnum) :
    num = d.dnum ∧ fmajor = devPath d.part.device := by
  have hname : dnum2pre num = dnum2pre d.dnum :=
    List.append_cancel_right (List.append_cancel_left hpath)
  obtain ⟨hmod, hkind⟩ := (dnum2pre_eq_iff num d.dnum).mp hname
  have hrange := (hn.range hd).1
  rcases (save_filed m o h.majors h.minors).events start stop fmajor num he with rfl | hbig |
    ⟨d', hd', rfl, rfl⟩
  · omega
  · omega
  · have hrange' := (hn.range hd').1
    have hsame : d'.dnum = d.dnum := by omega
    obtain rfl := hn.injective hd' hd hsame
    exact ⟨rfl, rfl⟩

/-- The command of a disk restores the copies of its sectors. -/
theorem disk_restored (h : Restorable site m o nb) (hn : Numbered m o r.hdmap)
    (hdir : BackupDir site source o.revosave (save m o).trace (fun _ => none) dir) {num : Int}
    {p : PartInfo} {size : Nat} (he : .disk num p size ∈ (save m o).trace) :
    ∃ n, ∀ fuel ≥ n, ∀ disks, ∃ disks',
      site.restoreMeant r o.revosave dir fuel disks (.disk num p size) = some disks' ∧
        Copied source (site.savedBy (save m o).trace (.disk num p size)) disks disks' := by
  have hd : ⟨num, p, size⟩ ∈ (save m o).disks := mem_disks_iff.mpr he
  obtain ⟨start, stop, fmajor, hraw⟩ := (save_filed m o h.majors h.minors).copied _ hd
  have hfiled : ∀ start stop fmajor num', .saveRaw start stop fmajor num' ∈ (save m o).trace →
      tabsPath o.revosave num' = tabsPath o.revosave num → fmajor = devPath p.device :=
    fun _ _ _ _ hmem hpath => (h.filed_disk hn hd hmem hpath).2
  have hrecords := hdir.records num
  rw [recordsAt_eq hfiled] at hrecords
  obtain ⟨file, hfile⟩ := Option.isSome_iff_exists.mp
    (hdir.present num (.inr ⟨start, stop, fmajor, hraw⟩))
  rw [hfile, Option.getD_some, Option.getD_none, List.nil_append] at hrecords
  rw [hrecords] at hfile
  have hsectors : ∀ s ∈ (save m o).trace.flatMap (sectorsAt o.revosave (tabsPath o.revosave num)),
      s < 2 ^ 32 := by
    intro s hs
    obtain ⟨e, hmem, hs⟩ := List.mem_flatMap.mp hs
    obtain ⟨start, stop, fmajor, num', rfl, -, -, hle⟩ := mem_sectorsAt.mp hs
    have := (h.ranges start stop fmajor num' hmem).2
    omega
  obtain ⟨n, hrun⟩ := restoreRaw_copied (hn.range hd).2 hsectors hfile
  refine ⟨n, fun fuel hfuel disks => ?_⟩
  obtain ⟨disks', hrestored, hcopied⟩ := hrun fuel hfuel disks
  refine ⟨disks', hrestored, hcopied.congr fun q => ⟨?_, ?_⟩⟩
  · rintro ⟨s, hs, hq⟩
    obtain ⟨e, hmem, hs⟩ := List.mem_flatMap.mp hs
    obtain ⟨start, stop, fmajor, num', rfl, hpath, hle, hlt⟩ := mem_sectorsAt.mp hs
    obtain ⟨rfl, rfl⟩ := h.filed_disk hn hd hmem hpath
    exact ⟨start, stop, _, hmem, s, hle, hlt, hq⟩
  · rintro ⟨start, stop, fmajor, hmem, s, hle, hlt, hq⟩
    obtain rfl := hfiled start stop fmajor num hmem rfl
    exact ⟨s, List.mem_flatMap.mpr ⟨_, hmem, mem_sectorsAt.mpr ⟨start, stop, _, num, rfl, rfl,
      hle, hlt⟩⟩, hq⟩

theorem event_restored (h : Restorable site m o nb) (hn : Numbered m o r.hdmap)
    (hdir : BackupDir site source o.revosave (save m o).trace (fun _ => none) dir) {e : SaveEvent}
    (he : e ∈ (save m o).trace) : ∃ n, ∀ fuel ≥ n, ∀ disks, ∃ disks',
      site.restoreMeant r o.revosave dir fuel disks e = some disks' ∧
        Copied source (site.savedBy (save m o).trace e) disks disks' := by
  cases e with
  | disk num p size => exact h.disk_restored hn hdir he
  | partcopy v => exact h.volume_restored hn hdir he
  | saveRaw start stop fmajor num => exact ⟨0, fun _ _ disks => ⟨disks, rfl, .refl fun q => id⟩⟩
  | image t v => exact ⟨0, fun _ _ disks => ⟨disks, rfl, .refl fun q => id⟩⟩
  | unsupported v => exact ⟨0, fun _ _ disks => ⟨disks, rfl, .refl fun q => id⟩⟩

end Restorable

theorem saved_iff (q : δ × Nat) :
    site.Saved (save m o).trace q ↔ ∃ e ∈ (save m o).trace, site.savedBy (save m o).trace e q := by
  constructor
  · rintro (⟨num, p, size, start, stop, fmajor, s, hdisk, hraw, hle, hlt, hq⟩ | ⟨t, v, himage, hq⟩)
    · exact ⟨_, hdisk, start, stop, fmajor, hraw, s, hle, hlt, hq⟩
    · exact ⟨_, mem_volumes_iff_partcopy.mp (Restorable.volume_of_image himage), t, himage, hq⟩
  · rintro ⟨e, he, hq⟩
    cases e with
    | disk num p size =>
      obtain ⟨start, stop, fmajor, hraw, s, hle, hlt, hq⟩ := hq
      exact .inl ⟨num, p, size, start, stop, fmajor, s, he, hraw, hle, hlt, hq⟩
    | partcopy v =>
      obtain ⟨t, himage, hq⟩ := hq
      exact .inr ⟨t, v, himage, hq⟩
    | saveRaw start stop fmajor num => exact hq.elim
    | image t v => exact hq.elim
    | unsupported v => exact hq.elim

/-- A backup and a restore of a whole machine. The backup comes to its end, and so does the restore by its
`conf.txt`, whatever the disks hold before: then each saved sector is that of the source, and the others are as
before. -/
theorem backup_restored (h : Restorable site m o nb) {rd : RestoreDir}
    (hagree : NumberingAgrees m o rd) (hmap : makehdmap rd m.partitions = some r.hdmap)
    (junk : List Byte) {hostname date : List Byte} (hhost : Clean hostname) (hdate : Clean date)
    (hlen : ∀ l ∈ conftxtLines hostname date (save m o).trace, l.length < 250) (source : Store δ) :
    ∃ dir, site.backup source o.revosave (save m o).trace = some dir ∧
      ∃ n, ∀ fuel ≥ n, ∀ target, ∃ disks,
      site.restoreAll r o.revosave junk dir (conftxt hostname date (save m o).trace) fuel target =
        some disks ∧
        Copied source (site.Saved (save m o).trace) target disks := by
  obtain ⟨map, hmap', hdisks⟩ := hagree
  obtain rfl := Option.some.inj (hmap'.symm.trans hmap)
  have hn : Numbered m o r.hdmap := ⟨h.ordinary.disks, hdisks⟩
  obtain ⟨dir, hbackup, hdir⟩ := backup_dir site source o.revosave h.ranges fun _ => none
  obtain ⟨n, hsteps⟩ := exists_common_bound fun e he => h.event_restored hn hdir he
  refine ⟨dir, hbackup, n, fun fuel hfuel target => ?_⟩
  obtain ⟨disks, hrun, hcopied⟩ := Copied.foldlM (fun e he => hsteps fuel hfuel e he) target
  refine ⟨disks, ?_, hcopied.congr fun q => (saved_iff q).symm⟩
  rw [restoreAll_conftxt h.ordinary (hn.prefixes h.ordinary) r junk hhost hdate hlen]
  exact hrun

/-! ### A disk with a volume group -/

theorem diskFrom_index (start : Nat) (q : Unit × Nat) (i : Nat) :
    (if start ≤ q.2 then some (q.2 - start) else none) = some i ↔ ((), start + i) = q := by
  obtain ⟨⟨⟩, s⟩ := q
  simp only [Option.ite_none_right_eq_some, Option.some.injEq, Prod.mk.injEq, true_and]
  omega

/-- The sectors of one disk from `start` on. -/
def diskFrom (start : Nat) : SectorView Unit where
  place i := ((), start + i)
  index q := if start ≤ q.2 then some (q.2 - start) else none
  index_iff := diskFrom_index start

/-- The logical volume lies in the second partition. -/
def lvmStart (path : List Byte) : Nat :=
  if path = ascii "/dev/sda1" then 2048
  else if path = ascii "/dev/sda2" then 200000000
  else if path = ascii "/dev/mapper/vg0-root" then 200002432
  else 0

theorem lvmBitmap_sectors : 3 < 2 ^ 64 := by decide

theorem lvmBitmap_blocks : blockCount [(0x05 : Byte)].length < 2 ^ 31 := by decide

def lvmSite : Site Unit where
  views path := diskFrom (lvmStart path)
  codec := storedCodec
  options := none
  params _ _ := ⟨[0x05], 3, lvmBitmap_sectors, lvmBitmap_blocks⟩
  info _ _ := []

def lvmRestore : RestoreSite := ⟨[ascii "/dev/sda"], fun _ => freshMemory, fun _ => []⟩

def lvmVolumes : List Volume :=
  [⟨⟨ascii "sda1", 8, 1⟩, 128, 1, false, 2048, 176306175, 0x83⟩,
    ⟨⟨ascii "sda2", 8, 2⟩, 128, 2, false, 200000000, 299999999, 0x8e⟩,
    ⟨⟨ascii "mapper/vg0-root", 253, 3⟩, 0x1003, 0, true, 0, 89999999, 0xFFFFFFFF⟩]

theorem lvmDisk_disks : (save lvmDisk plainSave).disks = [⟨128, ⟨ascii "sda", 8, 0⟩, 400000000⟩] := by
  decide +kernel

theorem lvmDisk_volumes : (save lvmDisk plainSave).volumes = lvmVolumes := by decide +kernel

theorem lvmDisk_ranges : RangesEnd (save lvmDisk plainSave).trace := by
  have hargs : (save lvmDisk plainSave).rawArgs = [(0, 2047), (2048, 4095),
      (200000000, 200002047)] := by
    decide +kernel
  intro start stop fmajor num he
  have hmem : (start, stop) ∈ (save lvmDisk plainSave).rawArgs := List.mem_filterMap.mpr ⟨_, he, rfl⟩
  rw [hargs] at hmem
  simp only [List.mem_cons, Prod.mk.injEq, List.not_mem_nil, or_false] at hmem
  omega

theorem lvmDisk_apart : NamesDiffer plainSave.revosave (save lvmDisk plainSave).saved fun _ => 1 := by
  have hsaved : (save lvmDisk plainSave).saved = lvmVolumes := by decide +kernel
  rw [hsaved]
  unfold NamesDiffer
  decide +kernel

theorem lvmDisk_restorable : Restorable lvmSite lvmDisk plainSave fun _ => 1 where
  ordinary := lvmDisk_ordinary
  majors := by
    unfold Machine.MapperMajors
    decide +kernel
  minors := by decide +kernel
  entries := by decide +kernel
  ranges := lvmDisk_ranges
  supported := by
    rw [lvmDisk_volumes]
    decide +kernel
  revosave := by decide
  apart := lvmDisk_apart
  blocks _ _ _ := (by decide : blockCount 1 ≤ 1)
  codec := storedCodec_correct
  keywords := noKeywords_none
  infos _ _ := nil_mem_imagerInfos
  bitmaps _ _ := List.cons_ne_nil _ _
  placed t v hv hdm d hd _ i _ := by
    have hmem := Restorable.volume_of_image hv
    rw [lvmDisk_volumes, lvmVolumes, List.mem_cons, List.mem_cons, List.mem_singleton] at hmem
    rw [lvmDisk_disks, List.mem_singleton] at hd
    have hstart : lvmStart (devPath (ascii "sda")) = 0 := by decide
    have hstart1 : lvmStart (devPath (ascii "sda1")) = 2048 := by decide
    have hstart2 : lvmStart (devPath (ascii "sda2")) = 200000000 := by decide
    rcases hmem with rfl | rfl | rfl
    · simp only [lvmSite, diskFrom, hd, hstart, hstart1, Nat.zero_add]
    · simp only [lvmSite, diskFrom, hd, hstart, hstart2, Nat.zero_add]
    · cases hdm

theorem lvmDisk_numbering : NumberingAgrees lvmDisk plainSave plainRestore := by
  refine ⟨lvmRestore.hdmap, by decide +kernel, fun k d hd => ?_⟩
  rw [lvmDisk_disks] at hd
  obtain ⟨hk, rfl⟩ := List.getElem?_eq_some_iff.mp hd
  obtain rfl : k = 0 := by
    rw [List.length_singleton] at hk
    omega
  exact ⟨rfl, rfl⟩

theorem lvmDisk_lines :
    ∀ l ∈ conftxtLines (ascii "pc1") (ascii "Mon") (save lvmDisk plainSave).trace, l.length < 250 := by
  decide +kernel

/-- Each sector holds its number. -/
def numberedSectors : Store Unit := fun _ j => UInt8.ofNat (j / 512)

/-- The third sector of the first partition comes back onto empty disks. -/
theorem backup_restored_lvmDisk :
    ∃ dir, lvmSite.backup numberedSectors plainSave.revosave (save lvmDisk plainSave).trace = some dir ∧
      ∃ n disks, lvmSite.restoreAll lvmRestore plainSave.revosave [] dir
          (conftxt (ascii "pc1") (ascii "Mon") (save lvmDisk plainSave).trace) n (fun _ _ => 0) = some disks ∧
        sectorAt disks ((), 2050) = sectorAt numberedSectors ((), 2050) := by
  obtain ⟨dir, hbackup, n, hrestore⟩ := backup_restored lvmDisk_restorable lvmDisk_numbering
    (r := lvmRestore) (by decide +kernel) [] (⟨by decide, by decide⟩ : Clean (ascii "pc1"))
    (⟨by decide, by decide⟩ : Clean (ascii "Mon")) lvmDisk_lines numberedSectors
  obtain ⟨disks, hrun, hcopied⟩ := hrestore n le_rfl fun _ _ => 0
  have himage : .image .e2fs ⟨⟨ascii "sda1", 8, 1⟩, 128, 1, false, 2048, 176306175, 0x83⟩ ∈
      (save lvmDisk plainSave).trace := by decide +kernel
  exact ⟨dir, hbackup, n, disks, hrun, hcopied.copied _ (.inr ⟨_, _, himage, 2, by decide, rfl⟩)⟩

end PulseImaging
