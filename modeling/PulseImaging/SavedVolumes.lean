import PulseImaging.AutoSave

/-! Which volumes `conf.txt` lists and which of them were saved. -/

namespace PulseImaging

/-- The volume of an entry that is not a whole disk, if it is neither too small nor
extended nor excluded. -/
def SaveState.partVolume (st : SaveState) (m : Machine) (o : SaveOptions) (p : PartInfo) (size : Nat) :
    Option Volume :=
  let poff := if st.isdm then 0 else (p.minor % 16).toNat
  let ttype := if st.isdm then 0xFFFFFFFF else m.sfdisk st.majorn poff
  if decide (size ≤ st.alignPartOn) || isExtended ttype || isexcluded o.exclude (st.dnum - 128) poff then none
  else
    some ⟨p, st.dnum, poff, st.isdm, st.geoStart % 2 ^ 32, (st.geoStart + size + (2 ^ 32 - 1)) % 2 ^ 32, ttype⟩

/-- The volume that a turn writes a line for, decided by the state before the turn. -/
def SaveState.volumeOf (st : SaveState) (m : Machine) (o : SaveOptions) (p : PartInfo) : Option Volume :=
  let isdm := isMapperName p.device
  if isdm && !st.shouldBackupLvm then none
  else
    (m.openDev (devPath p.device)).bind fun dev =>
      (if isdm then some 0 else dev.geo).bind fun start =>
        if wholeDisk p || (start == 0 && !isdm) then none
        else { st with isdm := isdm, dnum := st.volumeNum p, geoStart := start }.partVolume m o p dev.size

theorem volumes_savePartInfo (st : SaveState) (poff : Nat) :
    (savePartInfo st poff).volumes = st.volumes := by
  simp [savePartInfo, SaveState.emit, SaveState.volumes, SaveEvent.volume?]

theorem volumes_saveVolume (m : Machine) (o : SaveOptions) (st : SaveState) (v : Volume) :
    (saveVolume m o st v).volumes = st.volumes ++ [v] := by
  have hevents : [SaveEvent.partcopy v, m.imageEvent o v].filterMap SaveEvent.volume? = [v] := by
    simp only [Machine.imageEvent]
    split <;> rfl
  rw [SaveState.volumes, (saveVolume_effect m o st v).2, List.filterMap_append, hevents]
  rfl

theorem volumes_saveEntry_whole (m : Machine) (o : SaveOptions) {st : SaveState} {p : PartInfo}
    (dev : BlockDev) (h : isFirst st p = true) : (saveEntry m o st p dev).volumes = st.volumes := by
  obtain ⟨-, raws, hraws, htrace⟩ := saveEntry_whole m o dev h
  have hdisk : (SaveEvent.disk (gethdbios st.bios dev.size).1 p dev.size).volume? = none := rfl
  rw [SaveState.volumes, htrace, List.filterMap_append, List.filterMap_cons_none hdisk,
    filterMap_raws volume?_raw hraws, List.append_nil]
  rfl

theorem volumes_saveEntry_part (m : Machine) (o : SaveOptions) {st : SaveState} {p : PartInfo}
    (dev : BlockDev) (h : isFirst st p = false) :
    (saveEntry m o st p dev).volumes = st.volumes ++ (st.partVolume m o p dev.size).toList := by
  obtain ⟨hw, hf⟩ := Bool.or_eq_false_iff.mp h
  simp only [saveEntry, SaveState.partVolume, hw, hf, Bool.or_self, Bool.false_eq_true, if_false]
  generalize (if st.isdm then 0 else (p.minor % 16).toNat) = poff
  generalize (if st.isdm then 0xFFFFFFFF else m.sfdisk st.majorn poff) = ttype
  generalize hst : (if st.isdm then st else savePartInfo st poff) = s
  -- the copies of sectors leave everything that decides about the volume
  have hs : s.volumes = st.volumes ∧ s.alignPartOn = st.alignPartOn ∧ s.dnum = st.dnum ∧
      s.isdm = st.isdm ∧ s.geoStart = st.geoStart := by
    rw [← hst]
    split
    · exact ⟨rfl, rfl, rfl, rfl, rfl⟩
    · exact ⟨volumes_savePartInfo st poff, rfl, rfl, rfl, rfl⟩
  obtain ⟨hvol, halign, hnum, hdm, hgeo⟩ := hs
  rw [halign, hnum, hdm, hgeo]
  split
  · rw [hvol, Option.toList_none, List.append_nil]
  · rw [volumes_saveVolume, hvol, Option.toList_some]

/-- A turn once the device is open and its start known. -/
theorem volumes_saveEntry (m : Machine) (o : SaveOptions) {s : SaveState} {p : PartInfo}
    (dev : BlockDev) :
    (saveEntry m o s p dev).volumes = s.volumes ++
      (if wholeDisk p || (s.geoStart == 0 && !s.isdm) then none
        else s.partVolume m o p dev.size).toList := by
  cases hf : isFirst s p with
  | true =>
    have hyes : (wholeDisk p || (s.geoStart == 0 && !s.isdm)) = true := hf
    rw [volumes_saveEntry_whole m o dev hf, if_pos hyes, Option.toList_none, List.append_nil]
  | false =>
    have hno : (wholeDisk p || (s.geoStart == 0 && !s.isdm)) = false := hf
    rw [volumes_saveEntry_part m o dev hf, hno, if_neg Bool.false_ne_true]

theorem saveStep_volumes_whole (m : Machine) (o : SaveOptions) (st : SaveState) {p : PartInfo}
    (h : wholeDisk p = true) : (saveStep m o st p).volumes = st.volumes := by
  have hg : (guessBoundary m st p).volumes = st.volumes := by
    rw [SaveState.volumes, (guessBoundary_agrees m st p).2.1]
    rfl
  have hentry : ∀ (s : SaveState) (dev : BlockDev), s.volumes = st.volumes →
      (saveEntry m o s p dev).volumes = st.volumes := by
    intro s dev hs
    rw [volumes_saveEntry, h, Bool.true_or, if_pos rfl, Option.toList_none, List.append_nil, hs]
  simp only [saveStep, h, if_true]
  split
  · exact hg
  · split
    · exact hg
    · split
      · exact hentry _ _ hg
      · split
        · exact hg
        · exact hentry _ _ hg

theorem saveStep_volumes (m : Machine) (o : SaveOptions) (st : SaveState) (p : PartInfo) :
    (saveStep m o st p).volumes = st.volumes ++ (st.volumeOf m o p).toList := by
  cases hw : wholeDisk p with
  | true =>
    have hnone : st.volumeOf m o p = none := by
      simp only [SaveState.volumeOf, hw, Bool.true_or, if_true, Option.bind_fun_none, ite_self]
    rw [saveStep_volumes_whole m o st hw, hnone, Option.toList_none, List.append_nil]
  | false =>
    simp only [saveStep, SaveState.volumeOf, SaveState.volumeNum, hw, Bool.false_eq_true, if_false]
    cases isMapperName p.device with
    | true =>
      cases hl : st.shouldBackupLvm with
      | false => simp [SaveState.volumes]
      | true =>
        cases m.openDev (devPath p.device) with
        | none => simp [SaveState.volumes]
        | some dev =>
          simp only [Bool.not_true, Bool.and_false, Bool.false_eq_true, if_false, if_true,
            Option.bind_some]
          rw [volumes_saveEntry]
          simp [hw, SaveState.volumes]
    | false =>
      cases m.openDev (devPath p.device) with
      | none => simp [SaveState.volumes]
      | some dev =>
        cases hgeo : dev.geo with
        | none => simp [hgeo, SaveState.volumes]
        | some start =>
          simp only [Bool.false_and, Bool.false_eq_true, if_false, hgeo, Option.bind_some]
          rw [volumes_saveEntry]
          simp [hw, SaveState.volumes]

/-- The lines of a run are those that its turns write. -/
theorem mem_volumes_iff_turn (m : Machine) (o : SaveOptions) (v : Volume) :
    v ∈ (save m o).volumes ↔ ∃ ps p qs, m.entries = ps ++ p :: qs ∧
      (ps.foldl (saveStep m o) (SaveState.start o)).volumeOf m o p = some v := by
  rw [save_eq]
  induction m.entries using List.reverseRecOn with
  | nil => simp [SaveState.volumes, SaveState.start]
  | append_singleton ps p ih =>
    rw [List.foldl_concat, saveStep_volumes, List.mem_append, ih, Option.mem_toList]
    constructor
    · rintro (⟨ps', p', qs, rfl, hv⟩ | hv)
      · exact ⟨ps', p', qs ++ [p], by simp, hv⟩
      · exact ⟨ps, p, [], rfl, hv⟩
    · rintro ⟨ps', p', qs, heq, hv⟩
      rcases List.eq_nil_or_concat qs with rfl | ⟨qs', q, rfl⟩
      · obtain ⟨rfl, hp⟩ := List.append_inj' heq rfl
        obtain rfl : p = p' := by simpa using hp
        exact .inr hv
      · have hcut : ps ++ [p] = (ps' ++ p' :: qs') ++ [q] := by simpa using heq
        exact .inl ⟨ps', p', qs', (List.append_inj' hcut rfl).1, hv⟩

theorem mem_volumes_iff_partcopy {st : SaveState} {v : Volume} :
    v ∈ st.volumes ↔ .partcopy v ∈ st.trace := by
  rw [SaveState.volumes, List.mem_filterMap]
  constructor
  · rintro ⟨e, he, h⟩
    cases e <;> simp_all [SaveEvent.volume?]
  · intro h
    exact ⟨_, h, rfl⟩

/-- Every `partcopy` line is about a volume for which an image command was run and
exited with zero. -/
def ListsSaved (trace : List SaveEvent) (exitCode : Imager → Volume → Nat) : Prop :=
  ∀ v, .partcopy v ∈ trace → ∃ t, .image t v ∈ trace ∧ exitCode t v = 0

/-- Each volume that is not skipped must be recognised by a probe, and the image
command of the tool that is chosen must succeed. -/
theorem conf_lists_saved_iff (m : Machine) (o : SaveOptions) (exitCode : Imager → Volume → Nat) :
    ListsSaved (save m o).trace exitCode ↔
      ∀ ps p qs v, m.entries = ps ++ p :: qs →
        (ps.foldl (saveStep m o) (SaveState.start o)).volumeOf m o p = some v →
        ∃ t, m.imager o v = some t ∧ exitCode t v = 0 := by
  constructor
  · intro h ps p qs v hentries hv
    have hmem := (mem_volumes_iff_turn m o v).mpr ⟨ps, p, qs, hentries, hv⟩
    obtain ⟨t, himage, hexit⟩ := h v (mem_volumes_iff_partcopy.mp hmem)
    exact ⟨t, ((image_mem_trace_iff m o t v).mp himage).2, hexit⟩
  · intro h v hv
    have hmem := mem_volumes_iff_partcopy.mpr hv
    obtain ⟨ps, p, qs, hentries, hturn⟩ := (mem_volumes_iff_turn m o v).mp hmem
    obtain ⟨t, htool, hexit⟩ := h ps p qs v hentries hturn
    exact ⟨t, (image_mem_trace_iff m o t v).mpr ⟨hmem, htool⟩, hexit⟩

/-- A disk with one partition; `probe` says which image tools accept it. -/
def onePart (probe : Imager → Bool) : Machine where
  partitions := ascii "major minor  #blocks  name\n\n   8        0  200000000 sda\n   8        1   88152064 sda1\n"
  mapperDir := none
  lstat := fun _ => none
  openDev := fun path =>
    if path = ascii "/dev/sda" then some ⟨some 0, 400000000, none⟩
    else if path = ascii "/dev/sda1" then some ⟨some 2048, 176304128, none⟩
    else none
  sfdisk := fun _ _ => 0x83
  probe := fun t _ => probe t

/-- The line stands there when no tool accepts the partition, and when the tool that
does fails to write its image. -/
theorem conf_lists_unsaved :
    ¬ ListsSaved (save (onePart fun _ => false) plainSave).trace (fun _ _ => 0) ∧
    ¬ ListsSaved (save (onePart fun t => t == .e2fs) plainSave).trace (fun _ _ => 1) := by
  have hline : ∀ e : Bool, SaveEvent.partcopy ⟨⟨ascii "sda1", 8, 1⟩, 128, 1, false, 2048, 176306175, 0x83⟩ ∈
      (save (onePart fun t => e && t == .e2fs) plainSave).trace := by decide +kernel
  constructor
  · intro h
    obtain ⟨t, himage, -⟩ := h _ (hline false)
    have hnone : (save (onePart fun _ => false) plainSave).saved = [] := by decide +kernel
    exact absurd (mem_saved_iff.mpr ⟨t, himage⟩) (by simp [hnone])
  · intro h
    obtain ⟨t, -, hexit⟩ := h _ (hline true)
    simp at hexit

end PulseImaging
