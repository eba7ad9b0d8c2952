import PulseImaging.BackupSession
import PulseImaging.DiskNumbering
import PulseImaging.RawRanges

/-! Each copy of sectors is filed under the disk that it was read from, over a whole run of `save`. -/

namespace PulseImaging

variable {m : Machine} {o : SaveOptions} {st st' : SaveState} {p : PartInfo}

/-- The copies and the current disk after a turn, in which a disk got a number or a volume was examined. -/
inductive Filing (p : PartInfo) (st st' : SaveState) : Prop
  | disk (num : Int) (size : Nat) (raws : List SaveEvent) (hne : raws ≠ [])
      (hraws : ∀ e ∈ raws, ∃ start stop, e = .saveRaw start stop (devPath p.device) num)
      (htrace : st'.trace = st.trace ++ .disk num p size :: raws) (hdnum : st'.dnum = num)
      (hfmajor : st'.fmajor = devPath p.device)
  | volume (es : List SaveEvent) (hdisks : es.filterMap SaveEvent.disk? = [])
      (hraws : ∀ start stop fmajor num, .saveRaw start stop fmajor num ∈ es →
        fmajor = st'.fmajor ∧ num = st'.dnum)
      (htrace : st'.trace = st.trace ++ es) (hdnum : st'.dnum = st.volumeNum p)
      (hfmajor : st'.fmajor = st.fmajor)

/-- A copy of sectors of the current disk. -/
def SaveState.Copies (st : SaveState) (e : SaveEvent) : Prop := ∃ start stop, e = .saveRaw start stop st.fmajor st.dnum

theorem newDisk_filing (st : SaveState) (p : PartInfo) (dev : BlockDev) :
    (newDisk st p dev).fmajor = devPath p.device ∧
      ∃ raws, (∀ e ∈ raws, (newDisk st p dev).Copies e) ∧
        (newDisk st p dev).trace = st.trace ++ .disk (newDisk st p dev).dnum p dev.size :: raws := by
  cases hldm : dev.ldm with
  | none =>
    simp only [newDisk, hldm]
    exact ⟨rfl, [], by simp, rfl⟩
  | some ldm =>
    simp only [newDisk, hldm]
    refine ⟨rfl, [.saveRaw (ldm.1 % 2 ^ 32) ((ldm.1 + ldm.2 + (2 ^ 32 - 1)) % 2 ^ 32) (devPath p.device)
      (gethdbios st.bios dev.size).1], fun e he => ⟨_, _, List.mem_singleton.mp he⟩, ?_⟩
    exact List.append_assoc _ _ _

theorem savePartInfo_filing (st : SaveState) (poff : Nat) :
    ∃ e, st.Copies e ∧ (savePartInfo st poff).trace = st.trace ++ [e] :=
  ⟨_, ⟨_, _, rfl⟩, rfl⟩

theorem saveVolume_filing (m : Machine) (o : SaveOptions) (st : SaveState) (v : Volume) :
    (saveVolume m o st v).dnum = st.dnum ∧ (saveVolume m o st v).fmajor = st.fmajor := by
  rw [saveVolume]
  cases chooseImager (fun t => m.probe t (devPath v.part.device)) o.revoraw v with
  | none => exact ⟨rfl, rfl⟩
  | some t => cases t <;> exact ⟨rfl, rfl⟩

theorem Copies_image (m : Machine) (o : SaveOptions) (v : Volume) {start stop : Nat} {fmajor : List Byte}
    {num : Int} : .saveRaw start stop fmajor num ∉ [SaveEvent.partcopy v, m.imageEvent o v] := by
  rw [Machine.imageEvent]
  cases m.imager o v <;> simp

theorem disk?_image (m : Machine) (o : SaveOptions) (v : Volume) :
    [SaveEvent.partcopy v, m.imageEvent o v].filterMap SaveEvent.disk? = [] := by
  rw [Machine.imageEvent]
  cases m.imager o v <;> rfl

theorem saveEntry_filing (m : Machine) (o : SaveOptions) {st s : SaveState} {p : PartInfo} (dev : BlockDev)
    (hwhole : s.isdm = true → wholeDisk p = false) (htrace : s.trace = st.trace)
    (hdnum : s.dnum = st.volumeNum p) (hfmajor : s.fmajor = st.fmajor) :
    Filing p st (saveEntry m o s p dev) := by
  rw [saveEntry]
  dsimp only
  generalize hmajor : (if (s.geoStart == 0 && !s.isdm) = true then { s with majorn := devPath p.device } else s) = t
  have ht : t.trace = s.trace ∧ t.dnum = s.dnum ∧ t.fmajor = s.fmajor ∧ t.isdm = s.isdm := by
    rw [← hmajor]
    split <;> exact ⟨rfl, rfl, rfl, rfl⟩
  obtain ⟨httrace, htdnum, htfmajor, htdm⟩ := ht
  generalize (if s.isdm = true then 0 else (p.minor % 16).toNat) = poff
  split
  · rename_i hnew
    have hdm : (newDisk t p dev).isdm = false := by
      rw [(newDisk_keeps t p dev).2.2, htdm]
      cases hs : s.isdm with
      | false => rfl
      | true => simp [hwhole hs, hs] at hnew
    obtain ⟨hf, raws, hraws, hnewtrace⟩ := newDisk_filing t p dev
    obtain ⟨e, ⟨start, stop, rfl⟩, hinfo⟩ := savePartInfo_filing (newDisk t p dev) poff
    rw [hdm, if_neg Bool.false_ne_true]
    refine .disk _ dev.size (raws ++ [.saveRaw start stop (newDisk t p dev).fmajor (newDisk t p dev).dnum])
      (by simp) (fun e he => ?_) ?_ rfl hf
    · rw [← hf]
      rcases List.mem_append.mp he with he | he
      · exact hraws e he
      · exact ⟨start, stop, List.mem_singleton.mp he⟩
    · rw [hinfo, hnewtrace, httrace, htrace, List.append_assoc]
      rfl
  · generalize (if t.isdm = true then 0xFFFFFFFF else m.sfdisk t.majorn poff) = ttype
    generalize hinfo : (if t.isdm = true then t else savePartInfo t poff) = u
    have hu : u.dnum = st.volumeNum p ∧ u.fmajor = st.fmajor ∧ ∃ es, (∀ e ∈ es, t.Copies e) ∧
        u.trace = st.trace ++ es := by
      rw [← hinfo, ← hdnum, ← hfmajor, ← htdnum, ← htfmajor, ← htrace, ← httrace]
      split
      · exact ⟨rfl, rfl, [], by simp, (List.append_nil _).symm⟩
      · obtain ⟨e, he, htrace'⟩ := savePartInfo_filing t poff
        exact ⟨rfl, rfl, [e], fun x hx => List.mem_singleton.mp hx ▸ he, htrace'⟩
    obtain ⟨hunum, hufmajor, es, hes, hutrace⟩ := hu
    have hcopies : ∀ start stop fmajor num, .saveRaw start stop fmajor num ∈ es →
        fmajor = st.fmajor ∧ num = st.volumeNum p := by
      intro start stop fmajor num he
      obtain ⟨a, b, heq⟩ := hes _ he
      cases heq
      exact ⟨htfmajor.trans hfmajor, htdnum.trans hdnum⟩
    have hnodisk : es.filterMap SaveEvent.disk? = [] := by
      refine filterMap_raws disk?_raw fun e he => ?_
      obtain ⟨a, b, rfl⟩ := hes e he
      rfl
    split
    · exact .volume es hnodisk (by rwa [hunum, hufmajor]) hutrace hunum hufmajor
    · generalize Volume.mk p u.dnum poff u.isdm _ _ _ = v
      obtain ⟨-, hvtrace⟩ := saveVolume_effect m o u v
      obtain ⟨hvnum, hvfmajor⟩ := saveVolume_filing m o u v
      refine .volume (es ++ [.partcopy v, m.imageEvent o v]) ?_ (fun start stop fmajor num he => ?_)
        (by rw [hvtrace, hutrace, List.append_assoc]) (hvnum.trans hunum) (hvfmajor.trans hufmajor)
      · rw [List.filterMap_append, hnodisk, disk?_image]
        rfl
      · rw [hvnum, hvfmajor, hunum, hufmajor]
        exact hcopies _ _ _ _ ((List.mem_append.mp he).resolve_right (Copies_image m o v))

theorem saveStep_filing (m : Machine) (o : SaveOptions) (st : SaveState) {p : PartInfo}
    (hmajor : isMapperName p.device = true → wholeDisk p = false) : Filing p st (saveStep m o st p) := by
  rw [saveStep]
  dsimp only
  generalize hguess : (if wholeDisk p = true then guessBoundary m st p else st) = g
  have hg : g.trace = st.trace ∧ g.dnum = st.dnum ∧ g.fmajor = st.fmajor := by
    rw [← hguess]
    split
    · rw [guessBoundary]
      split
      · exact ⟨rfl, rfl, rfl⟩
      · split <;> exact ⟨rfl, rfl, rfl⟩
    · exact ⟨rfl, rfl, rfl⟩
  obtain ⟨htrace, hdnum, hfmajor⟩ := hg
  generalize hnumber : (if isMapperName p.device = true then 0x1000 + p.minor else g.dnum) = number
  have hnum : number = st.volumeNum p := by rw [← hnumber, SaveState.volumeNum, hdnum]
  have hskip : ∀ s : SaveState, s.trace = st.trace → s.dnum = st.volumeNum p → s.fmajor = st.fmajor →
      Filing p st s := fun s ht hn hf =>
    .volume [] rfl (fun _ _ _ _ he => absurd he List.not_mem_nil) (ht.trans (List.append_nil _).symm) hn hf
  split
  · exact hskip _ htrace hnum hfmajor
  · cases m.openDev (devPath p.device) with
    | none => exact hskip _ htrace hnum hfmajor
    | some dev =>
      dsimp only
      split
      · exact saveEntry_filing m o dev hmajor htrace hnum hfmajor
      · cases dev.geo with
        | none => exact hskip _ htrace hnum hfmajor
        | some start => exact saveEntry_filing m o dev hmajor htrace hnum hfmajor

/-- A number is that of a disk, under which the sectors of its device are filed, or it is none. -/
def FiledUnder (disks : List NumberedDisk) (num : Int) (fmajor : List Byte) : Prop :=
  num = 127 ∨ 0x1000 ≤ num ∨ ∃ d ∈ disks, d.dnum = num ∧ fmajor = devPath d.part.device

structure SaveState.Filed (st : SaveState) : Prop where
  events : ∀ start stop fmajor num, .saveRaw start stop fmajor num ∈ st.trace → FiledUnder st.disks num fmajor
  current : FiledUnder st.disks st.dnum st.fmajor
  copied : ∀ d ∈ st.disks, ∃ start stop fmajor, .saveRaw start stop fmajor d.dnum ∈ st.trace

theorem FiledUnder.mono {disks disks' : List NumberedDisk} {num : Int} {fmajor : List Byte}
    (h : FiledUnder disks num fmajor) (hsub : ∀ d ∈ disks, d ∈ disks') : FiledUnder disks' num fmajor :=
  h.imp_right fun h => h.imp_right fun ⟨d, hd, heq⟩ => ⟨d, hsub d hd, heq⟩

theorem Filing.filed (h : Filing p st st') (hminor : isMapperName p.device = true → 0 ≤ p.minor)
    (hst : st.Filed) : st'.Filed := by
  cases h with
  | disk num size raws hne hraws htrace hdnum hfmajor =>
    have hraw : ∀ e ∈ raws, e.isRaw = true := by
      intro e he
      obtain ⟨a, b, rfl⟩ := hraws e he
      rfl
    have hdisks : st'.disks = st.disks ++ [⟨num, p, size⟩] := by
      rw [SaveState.disks, htrace, List.filterMap_append, List.filterMap_cons, filterMap_raws disk?_raw hraw]
      rfl
    have hsub : ∀ d ∈ st.disks, d ∈ st'.disks := fun d hd => hdisks ▸ List.mem_append_left _ hd
    have hnew : ⟨num, p, size⟩ ∈ st'.disks := hdisks ▸ List.mem_append_right _ List.mem_cons_self
    refine ⟨fun a b fmajor num' he => ?_, ?_, fun d hd => ?_⟩
    · rw [htrace, List.mem_append, List.mem_cons] at he
      rcases he with he | he | he
      · exact (hst.events a b fmajor num' he).mono hsub
      · cases he
      · obtain ⟨a', b', heq⟩ := hraws _ he
        cases heq
        exact .inr (.inr ⟨_, hnew, rfl, rfl⟩)
    · rw [hdnum, hfmajor]
      exact .inr (.inr ⟨_, hnew, rfl, rfl⟩)
    · rw [hdisks, List.mem_append, List.mem_singleton] at hd
      rcases hd with hd | rfl
      · obtain ⟨a, b, fmajor, he⟩ := hst.copied d hd
        exact ⟨a, b, fmajor, htrace ▸ List.mem_append_left _ he⟩
      · obtain ⟨e, he⟩ := List.exists_mem_of_ne_nil raws hne
        obtain ⟨a, b, rfl⟩ := hraws e he
        exact ⟨a, b, _, htrace ▸ List.mem_append_right _ (List.mem_cons_of_mem _ he)⟩
  | volume es hnodisk hraws htrace hdnum hfmajor =>
    have hdisks : st'.disks = st.disks := by
      rw [SaveState.disks, htrace, List.filterMap_append, hnodisk, List.append_nil]
      rfl
    have hcurrent : FiledUnder st'.disks st'.dnum st'.fmajor := by
      rw [hdisks, hdnum, hfmajor, SaveState.volumeNum]
      split
      · rename_i hdm
        have := hminor hdm
        exact .inr (.inl (by omega))
      · exact hst.current
    refine ⟨fun a b fmajor num he => ?_, hcurrent, fun d hd => ?_⟩
    · rw [htrace, List.mem_append] at he
      rcases he with he | he
      · rw [hdisks]
        exact hst.events a b fmajor num he
      · obtain ⟨rfl, rfl⟩ := hraws a b fmajor num he
        exact hcurrent
    · rw [hdisks] at hd
      obtain ⟨a, b, fmajor, he⟩ := hst.copied d hd
      exact ⟨a, b, fmajor, htrace ▸ List.mem_append_left _ he⟩

/-- The copies of a whole run. -/
theorem save_filed (m : Machine) (o : SaveOptions) (hmajors : m.MapperMajors)
    (hminors : ∀ p ∈ m.entries, isMapperName p.device = true → 0 ≤ p.minor) : (save m o).Filed := by
  rw [save_eq]
  have hstart : (SaveState.start o).Filed :=
    ⟨fun _ _ _ _ he => absurd he List.not_mem_nil, .inl rfl, fun _ hd => absurd hd List.not_mem_nil⟩
  have hsteps : ∀ ps : List PartInfo, (∀ p ∈ ps, p ∈ m.entries) →
      ∀ st : SaveState, st.Filed → (ps.foldl (saveStep m o) st).Filed := by
    intro ps
    induction ps with
    | nil => exact fun _ st hst => hst
    | cons p ps ih =>
      intro hps st hst
      have hp := hps p List.mem_cons_self
      refine ih (fun q hq => hps q (List.mem_cons_of_mem p hq)) _ ?_
      exact (saveStep_filing m o st fun hdm => wholeDisk_mapper hdm (hmajors p hp hdm)).filed (hminors p hp) hst
  exact hsteps m.entries (fun _ hp => hp) _ hstart

end PulseImaging
