import PulseImaging.OpenPartition
import Mathlib.Logic.Relation

/-! The disk layer in the course of a session: every read, write and probe that the commands of the
bootloader make, in any order. -/

namespace PulseImaging

namespace DiskIo

variable {B : Int13} {s t : DiskIo} {d : Nat}

/-- The probe of drive `d` finds it, or no drive is in memory. A failed `get_diskinfo` leaves its numbers in
`buf_geom`, and the drive of `buf_drive` would be read with them. -/
def Answers (s : DiskIo) (d : Nat) : Prop := getDiskinfo d (s.drives d) ≠ none ∨ s.buf_drive = none

/-- What the functions of the bootloader do with the disks. Between two commands the user may exchange
the disks. -/
inductive DiskStep (B : Int13) : DiskIo → DiskIo → Prop
  | rawread {s : DiskIo} {d sector byte_offset byte_len : Nat} (hanswers : s.Answers d) (hoff : byte_offset < 512)
      (hend : sector + sectorCount byte_offset byte_len ≤ 2 ^ 31) :
      DiskStep B s (rawread B d sector byte_offset byte_len s).2.2
  | write {s : DiskIo} (d sector nsec : Nat) (data : List Byte) :
      DiskStep B s (biosdisk B (.write data) d sector nsec (s.withTrack none)).2
  | probe {s : DiskIo} {d : Nat} (hanswers : s.Answers d) : DiskStep B s (s.probe B d).2
  | errnum {s : DiskIo} (e : Option GrubErr) : DiskStep B s { s with errnum := e }
  | command {s : DiskIo} (drives : Nat → Drive) : DiskStep B s { s with drives := drives, buf_drive := none }

/-- The variables at the start. -/
structure AtStart (s : DiskIo) : Prop where
  length : s.buffer.length = BUFFERLEN
  buf_drive : s.buf_drive = none

theorem Buffered.of_none (h : s.buffer.length = BUFFERLEN) (hnone : s.buf_drive = none) :
    s.Buffered where
  length := h
  held _ hd := nomatch hnone.symm.trans hd

theorem AtStart.buffered (h : s.AtStart) : s.Buffered := .of_none h.length h.buf_drive

/-! ### Writes -/

/-- What a call that writes leaves alone. -/
structure WriteKeeps (s t : DiskIo) : Prop where
  errnum : t.errnum = s.errnum
  buf_drive : t.buf_drive = s.buf_drive
  buf_track : t.buf_track = s.buf_track
  cylinders : t.buf_geom.cylinders = s.buf_geom.cylinders
  heads : t.buf_geom.heads = s.buf_geom.heads
  sectors : t.buf_geom.sectors = s.buf_geom.sectors
  lba : t.buf_geom.lba = s.buf_geom.lba
  buffer : t.buffer = s.buffer
  translation : ∀ d drive, (t.drives d).translation drive = (s.drives d).translation drive
  extended : ∀ d, (t.drives d).extended = (s.drives d).extended

theorem WriteKeeps.refl (s : DiskIo) : s.WriteKeeps s :=
  ⟨rfl, rfl, rfl, rfl, rfl, rfl, rfl, rfl, fun _ _ => rfl, fun _ => rfl⟩

theorem withContent_keeps (s : DiskIo) (n d : Nat) (c : Content) :
    s.WriteKeeps ({ s with calls := n }.withContent d c) := by
  refine ⟨rfl, rfl, rfl, rfl, rfl, rfl, rfl, rfl, fun d' drive => ?_, fun d' => ?_⟩
  · simp only [withContent, Function.update_apply]
    split_ifs with h
    · rw [h]
      rfl
    · rfl
  · simp only [withContent, Function.update_apply]
    split_ifs with h
    · rw [h]
    · rfl

theorem biosdiskStandard_write_keeps (data : List Byte) (d sector nsec : Nat) (s : DiskIo) :
    s.WriteKeeps (biosdiskStandard B (.write data) d sector nsec s).2 := by
  simp only [biosdiskStandard]
  split_ifs
  · exact .refl s
  · exact withContent_keeps s _ d _
  · exact withContent_keeps s _ d _

theorem biosdisk_write_keeps (data : List Byte) (d sector nsec : Nat) (s : DiskIo) :
    s.WriteKeeps (biosdisk B (.write data) d sector nsec s).2 := by
  simp only [biosdisk]
  split_ifs
  · exact withContent_keeps s _ d _
  · exact withContent_keeps s _ d _
  · exact biosdiskStandard_write_keeps data d sector nsec s

/-- A write behind `buf_track = -1` leaves nothing old in memory. -/
theorem Buffered.write (h : s.Buffered) (data : List Byte) (d sector nsec : Nat) :
    (biosdisk B (.write data) d sector nsec (s.withTrack none)).2.Buffered := by
  have hkeep := biosdisk_write_keeps (B := B) data d sector nsec (s.withTrack none)
  refine ⟨(congrArg List.length hkeep.buffer).trans h.length, fun d' hd' => ?_⟩
  obtain ⟨i, hi, -⟩ := h.held d' (hkeep.buf_drive.symm.trans hd')
  refine ⟨i, ⟨(hkeep.translation d' d').trans hi.translation, hkeep.cylinders.trans hi.cylinders,
    hkeep.heads.trans hi.heads, hkeep.sectors.trans hi.sectors, ?_⟩, fun t ht => ?_⟩
  · rw [hkeep.lba, hkeep.extended]
    exact hi.lba
  · exact nomatch hkeep.buf_track.symm.trans ht

/-! ### Probes that fail -/

/-- With no drive in memory nothing can be spoiled. -/
theorem Buffered.probe_none (h : s.Buffered) (hinfo : getDiskinfo d (s.drives d) = none)
    (hnone : s.buf_drive = none) :
    (s.probe B d).2.Buffered := by
  have hne : s.buf_drive ≠ some d := by simp [hnone]
  rw [DiskIo.probe, if_neg hne, hinfo]
  exact .of_none h.length hnone

theorem Buffered.rawread_none (h : s.Buffered) (hinfo : getDiskinfo d (s.drives d) = none)
    (hnone : s.buf_drive = none) (sector byte_offset byte_len : Nat) :
    (rawread B d sector byte_offset byte_len s).2.2.Buffered := by
  have hprobe := h.probe_none (B := B) hinfo hnone
  rw [rawread]
  split_ifs with hzero
  · exact h
  · obtain ⟨n, rfl⟩ := Nat.exists_eq_succ_of_ne_zero hzero
    rw [rawreadLoop]
    by_cases hstop : n.succ = 0 ∨ s.errnum ≠ none
    · rw [if_pos hstop]
      exact h
    · rw [if_neg hstop]
      have hne : s.buf_drive ≠ some d := by simp [hnone]
      rw [DiskIo.probe, if_neg hne, hinfo] at hprobe ⊢
      exact hprobe

/-! ### Runs -/

theorem DiskStep.buffered (h : DiskStep B s t) (hs : s.Buffered) : t.Buffered := by
  cases h with
  | rawread hanswers hoff hend =>
    rcases Option.eq_none_or_eq_some (getDiskinfo _ _) with hinfo | ⟨g, hinfo⟩
    · exact hs.rawread_none hinfo (hanswers.resolve_left (not_not.mpr hinfo)) _ _ _
    · exact (rawread_bytes hs (by rw [hinfo]; exact Option.some_ne_none g) hoff hend).buffered
  | write d sector nsec data => exact hs.write data d sector nsec
  | probe hanswers =>
    rcases Option.eq_none_or_eq_some (getDiskinfo _ _) with hinfo | ⟨g, hinfo⟩
    · exact hs.probe_none hinfo (hanswers.resolve_left (not_not.mpr hinfo))
    · exact hs.probe (by rw [hinfo]; exact Option.some_ne_none g)
  | errnum e =>
    refine ⟨hs.length, fun d hd => (hs.held d hd).imp fun _ hi => ⟨?_, hi.2⟩⟩
    exact ⟨hi.1.translation, hi.1.cylinders, hi.1.heads, hi.1.sectors, hi.1.lba⟩
  | command drives => exact ⟨hs.length, fun _ hd => nomatch hd⟩

abbrev Reachable (B : Int13) := Relation.ReflTransGen (DiskStep B)

theorem Reachable.buffered (h : Reachable B s t) (hs : s.Buffered) : t.Buffered := by
  induction h with
  | refl => exact hs
  | tail _ hstep ih => exact hstep.buffered ih

/-- A hard disk of 24 sectors: a primary partition in sectors 1 and 2, and an extended partition from
sector 3 on with a logical one in sector 5. -/
def smallDisk : Drive where
  content := fun i =>
    match i with
    | 450 => 0x83
    | 454 => 1
    | 458 => 2
    | 466 => 0x05
    | 470 => 3
    | 474 => 9
    | 510 => 0x55
    | 511 => 0xaa
    | 1986 => 0x83
    | 1990 => 2
    | 1994 => 1
    | 2046 => 0x55
    | 2047 => 0xaa
    | _ => 0
  extended := none
  standard := some ⟨4, 2, 3, by decide, by decide, by decide⟩
  floppy := none

def smallStart : DiskIo where
  drives _ := smallDisk
  calls := 0
  errnum := none
  buf_drive := none
  buf_track := some 0
  buf_geom := ⟨0, 0, 0, false, 0⟩
  buffer := List.replicate BUFFERLEN 0

theorem smallStart_atStart : smallStart.AtStart := ⟨List.length_replicate, rfl⟩

theorem smallDisk_info : getDiskinfo 0x80 smallDisk ≠ none := by
  simp [getDiskinfo, Drive.translation, smallDisk, Nat.testBit]

/-- Only the first sector of `d` may differ. -/
structure FirstSector (s t : DiskIo) (d : Nat) : Prop where
  others : ∀ e, e ≠ d → t.drives e = s.drives e
  behind : ∀ j, 512 ≤ j → (t.drives d).content j = (s.drives d).content j

theorem FirstSector.of_same (h : t.drives = s.drives) : s.FirstSector t d :=
  ⟨fun e _ => by rw [h], fun j _ => by rw [h]⟩

theorem patch_behind (c : Content) {new : List Byte} (hnew : new.length = 512) {j : Nat}
    (hj : 512 ≤ j) :
    patch c 0 new j = c j := by
  rw [patch, if_neg (by omega)]

theorem FirstSector.of_patch (n : Nat) {new : List Byte} (hnew : new.length = 512) :
    s.FirstSector ({ s with calls := n }.withContent d (patch (s.drives d).content 0 new)) d where
  others e he := by simp only [withContent, Function.update_of_ne he]
  behind j hj := by simp only [withContent, Function.update_self, patch_behind _ hnew hj]

/-- What a write of the MBR does. -/
structure MbrWrite (s : DiskIo) (d : Nat) (mbr : List Byte) (r : Bool × DiskIo) : Prop where
  buffered : r.2.Buffered
  first : s.FirstSector r.2 d
  written : r.1 = true → r.2.errnum = s.errnum ∧
    r.2.drives = (s.withContent d (patch (s.drives d).content 0 mbr)).drives
  failed : r.1 = false → r.2.errnum = some .write

theorem blockOf_zero (x : Drive) (d : Nat) : x.blockOf d 0 0 1 = 0 := by
  rw [Drive.blockOf]
  cases x.translation d with
  | none => rfl
  | some i => simp

theorem biosdiskStandard_mbr {mbr : List Byte} (hmbr : mbr.length = 512)
    (h : (biosdiskStandard B (.write mbr) d 0 1 s).1 = 0) :
    (biosdiskStandard B (.write mbr) d 0 1 s).2.drives =
      (s.withContent d (patch (s.drives d).content 0 mbr)).drives := by
  simp only [biosdiskStandard, Nat.zero_div, Nat.zero_mod, Nat.zero_add, blockOf_zero] at h ⊢
  split_ifs at h ⊢ with hcyl herr
  · exact absurd h (Nat.succ_ne_zero 0xff)
  · simp only [moved, withContent, Nat.mul_zero, Nat.mul_one, List.take_of_length_le hmbr.le]
  · exact absurd h herr

theorem biosdisk_mbr {mbr : List Byte} (hmbr : mbr.length = 512)
    (h : (biosdisk B (.write mbr) d 0 1 s).1 = 0) :
    (biosdisk B (.write mbr) d 0 1 s).2.drives =
      (s.withContent d (patch (s.drives d).content 0 mbr)).drives := by
  have hdap : dapBlock 0 = 0 := rfl
  have htake : mbr.take (512 * 1) = mbr := List.take_of_length_le hmbr.le
  simp only [biosdisk, hdap] at h ⊢
  split_ifs at h ⊢ with hlba herr
  · simp only [moved, withContent, Nat.mul_zero, htake]
  · exact absurd h herr
  · exact biosdiskStandard_mbr hmbr h

theorem failed_mbr {mbr : List Byte} (hmbr : mbr.length = 512) :
    s.FirstSector (s.failed B d 0 1 (.write mbr)) d := by
  have htake : mbr.take (512 * 1) = mbr := List.take_of_length_le hmbr.le
  simp only [failed, htake, Nat.mul_zero]
  exact .of_patch _ (by rw [B.torn_length, slice_length, hmbr])

theorem moved_mbr {mbr : List Byte} (hmbr : mbr.length = 512) :
    s.FirstSector (s.moved d 0 1 (.write mbr)) d := by
  have htake : mbr.take (512 * 1) = mbr := List.take_of_length_le hmbr.le
  simp only [moved, htake, Nat.mul_zero]
  exact .of_patch _ hmbr

/-- Also a call that fails keeps to the sector. -/
theorem biosdisk_first {mbr : List Byte} (hmbr : mbr.length = 512) :
    s.FirstSector (biosdisk B (.write mbr) d 0 1 s).2 d := by
  have hdap : dapBlock 0 = 0 := rfl
  simp only [biosdisk, biosdiskStandard, hdap, Nat.zero_div, Nat.zero_mod, Nat.zero_add, blockOf_zero]
  split_ifs
  · exact moved_mbr hmbr
  · exact failed_mbr hmbr
  · exact .of_same rfl
  · exact moved_mbr hmbr
  · exact failed_mbr hmbr

theorem writeMbr_write (h : s.Buffered) (d : Nat) {mbr : List Byte} (hmbr : mbr.length = 512) :
    MbrWrite s d mbr (writeMbr B d mbr s) := by
  have hbuf := h.write (B := B) mbr d 0 1
  have hkeep := biosdisk_write_keeps (B := B) mbr d 0 1 (s.withTrack none)
  obtain ⟨hothers, hbehind⟩ := biosdisk_first (B := B) (s := s.withTrack none) (d := d) hmbr
  rw [writeMbr]
  split_ifs with hok
  · exact ⟨hbuf, ⟨hothers, hbehind⟩, fun _ => ⟨hkeep.errnum, biosdisk_mbr hmbr hok⟩,
      fun hno => nomatch hno⟩
  · exact ⟨hbuf.raise _, ⟨hothers, hbehind⟩, fun hyes => (nomatch hyes), fun _ => rfl⟩

theorem tableSector_getD (c : Content) {j : Nat} (hj : j < 512) :
    (tableSector c 0).getD j 0 = c j := by
  rw [tableSector_eq, List.getD_eq_getElem?_getD, slice_getElem? hj, Option.getD_some, Nat.mul_zero,
    Nat.zero_add]

theorem patch_getD (c : Content) {mbr : List Byte} (hmbr : mbr.length = 512) (j : Nat) :
    patch c 0 mbr j = if j < 512 then mbr.getD j 0 else c j := by
  simp only [patch, hmbr, Nat.zero_le, true_and, Nat.zero_add, Nat.sub_zero]

theorem getD_set (l : List Byte) {k : Nat} (hk : k < l.length) (v : Byte) (j : Nat) :
    (l.set k v).getD j 0 = if j = k then v else l.getD j 0 := by
  rw [List.getD_eq_getElem?_getD, List.getD_eq_getElem?_getD, List.getElem?_set]
  split_ifs with h h' h'
  · rfl
  · exact absurd h.symm h'
  · exact absurd h'.symm h
  · rfl

/-- The place of an active flag. -/
def IsFlag (j : Nat) : Prop := ∃ i < PC_SLICE_MAX, j = 446 + 16 * i

theorem activate_length (mbr : List Byte) (part : Nat) : (activate mbr part).length = mbr.length := by
  simp [activate, List.range_succ, PC_SLICE_MAX]

theorem activate_getD {mbr : List Byte} (hmbr : mbr.length = 512) {part : Nat}
    (hpart : part < PC_SLICE_MAX) (j : Nat) :
    (activate mbr part).getD j 0 =
      if j = 446 + 16 * part then 0x80
      else if j = 446 ∨ j = 462 ∨ j = 478 ∨ j = 494 then 0 else mbr.getD j 0 := by
  have hlt : part < 4 := hpart
  simp only [activate, PC_SLICE_MAX, List.range_succ, List.range_zero, List.nil_append,
    List.cons_append, List.foldl_cons, List.foldl_nil]
  rw [getD_set _ (by simp only [List.length_set]; omega),
    getD_set _ (by simp only [List.length_set]; omega),
    getD_set _ (by simp only [List.length_set]; omega),
    getD_set _ (by simp only [List.length_set]; omega), getD_set _ (by omega)]
  split_ifs <;> first | rfl | omega

/-- What is left of the old MBR, and what is new in it: an entry that was active before is left alone, with any
other active one. -/
structure Activated (c c' : Content) (part : Nat) : Prop where
  active : pcSliceFlag (tableSector c' 0) part = 0x80
  alone : pcSliceFlag (tableSector c 0) part ≠ 0x80 →
    ∀ i < PC_SLICE_MAX, i ≠ part → pcSliceFlag (tableSector c' 0) i = 0
  kept : ∀ j, ¬ IsFlag j → c' j = c j
  same : pcSliceFlag (tableSector c 0) part = 0x80 → c' = c

theorem pcSliceFlag_eq (c : Content) {i : Nat} (hi : i < PC_SLICE_MAX) :
    pcSliceFlag (tableSector c 0) i = c (446 + 16 * i) := by
  have hlt : i < 4 := hi
  exact tableSector_getD c (by omega)

theorem activated_patch (c : Content) {part : Nat} (hpart : part < PC_SLICE_MAX)
    (hflag : pcSliceFlag (tableSector c 0) part ≠ 0x80) :
    Activated c (patch c 0 (activate (tableSector c 0) part)) part := by
  have hlen : (tableSector c 0).length = 512 := by rw [tableSector_eq, slice_length]
  have hbyte : ∀ j, patch c 0 (activate (tableSector c 0) part) j =
      if j = 446 + 16 * part then 0x80
      else if j = 446 ∨ j = 462 ∨ j = 478 ∨ j = 494 then 0 else c j := by
    intro j
    rw [patch_getD c (by rw [activate_length, hlen]), activate_getD hlen hpart]
    have hlt : part < 4 := hpart
    by_cases hj : j < 512
    · rw [if_pos hj, tableSector_getD c hj]
    · rw [if_neg hj, if_neg (by omega), if_neg (by omega)]
  refine ⟨?_, fun _ i hi hne => ?_, fun j hj => ?_, fun h => absurd h hflag⟩
  · rw [pcSliceFlag_eq _ hpart, hbyte, if_pos rfl]
  · have hlt : i < 4 := hi
    rw [pcSliceFlag_eq _ hi, hbyte, if_neg (by omega), if_pos (by omega)]
  · have hno : ∀ i < 4, j ≠ 446 + 16 * i := fun i hi h => hj ⟨i, hi, h⟩
    have h0 := hno 0 (by norm_num)
    have h1 := hno 1 (by norm_num)
    have h2 := hno 2 (by norm_num)
    have h3 := hno 3 (by norm_num)
    rw [hbyte, if_neg (hno part hpart), if_neg (by omega)]

/-- What a function that changes the MBR of `d` leaves behind: `change` relates the contents before and
after it. A write that fails leaves anything in the first sector. -/
structure MbrChange (s : DiskIo) (d : Nat) (change : Content → Content → Prop) (r : Bool × DiskIo) :
    Prop where
  buffered : r.2.Buffered
  changed : r.1 = true → change (s.drives d).content (r.2.drives d).content
  first : s.FirstSector r.2 d
  refused : r.1 = false → r.2.errnum ≠ some .write → r.2.drives = s.drives

theorem MbrChange.unchanged {change : Content → Content → Prop} {ok : Bool} (ht : t.Buffered)
    (hdrives : t.drives = s.drives)
    (hsame : ok = true → change (s.drives d).content (s.drives d).content) :
    MbrChange s d change (ok, t) where
  buffered := ht
  changed := by rwa [hdrives]
  first := .of_same hdrives
  refused _ _ := hdrives

theorem MbrChange.of_write {change : Content → Content → Prop} {mbr : List Byte} (ht : t.Buffered)
    (hdrives : t.drives = s.drives) (hmbr : mbr.length = 512)
    (hchange : change (s.drives d).content (patch (s.drives d).content 0 mbr)) :
    MbrChange s d change (writeMbr B d mbr t) := by
  have hwrite := writeMbr_write (B := B) ht d hmbr
  have hnew : (writeMbr B d mbr t).1 = true → (writeMbr B d mbr t).2.drives =
      (t.withContent d (patch (s.drives d).content 0 mbr)).drives := fun hok => by
    rw [(hwrite.written hok).2, hdrives]
  obtain ⟨hothers, hbehind⟩ := hwrite.first
  rw [hdrives] at hothers hbehind
  refine ⟨hwrite.buffered, fun hok => ?_, ⟨hothers, hbehind⟩, fun hno hne => ?_⟩
  · rw [hnew hok]
    simpa only [withContent, Function.update_self] using hchange
  · exact absurd (hwrite.failed hno) hne

/-- The MBR comes as it is on the disk. -/
theorem rawread_mbr (h : s.Buffered) (hinfo : getDiskinfo d (s.drives d) ≠ none) :
    ∃ ok mbr t, rawread B d 0 0 512 s = (ok, mbr, t) ∧ t.drives = s.drives ∧ t.Buffered ∧
      (ok = true → mbr = tableSector (s.drives d).content 0) := by
  have hread : ReadBytes B s d (512 * 0 + 0) 512 _ :=
    rawread_bytes h hinfo (by norm_num) (by rw [sectorCount]; norm_num)
  refine ⟨_, _, _, rfl, hread.drives, hread.buffered, fun hok => ?_⟩
  rw [hread.bytes hok, tableSector_eq]

theorem makeSavedActive_change (h : s.Buffered) (hinfo : getDiskinfo d (s.drives d) ≠ none)
    (p : Nat) :
    MbrChange s d (fun c c' => Activated c c' (p / 2 ^ 16)) (makeSavedActive B d p s) := by
  unfold makeSavedActive
  dsimp only
  split_ifs with hdisk hpart
  · exact .unchanged (h.raise _) rfl fun hok => nomatch hok
  · obtain ⟨ok, mbr, t, hread, hdrives, hbuf, hmbr⟩ := rawread_mbr (B := B) h hinfo
    simp only [hread]
    cases ok with
    | false => exact .unchanged hbuf hdrives fun hok => nomatch hok
    | true =>
      have hlt : p / 2 ^ 16 < PC_SLICE_MAX := Nat.lt_succ_of_le (not_lt.mp hpart)
      simp only [hmbr rfl]
      split_ifs with hext hflag
      · exact .unchanged (hbuf.raise _) hdrives fun hok => nomatch hok
      · refine .of_write hbuf hdrives ?_ (activated_patch _ hlt hflag)
        rw [activate_length, tableSector_eq, slice_length]
      · have hactive := not_not.mp hflag
        exact .unchanged hbuf hdrives fun _ =>
          ⟨hactive, fun hno => absurd hactive hno, fun _ _ => rfl, fun _ => rfl⟩
  · exact .unchanged (h.raise _) rfl fun hok => nomatch hok

/-- Only the bit for hidden partitions of one type differs. -/
structure Hidden (hidden : Bool) (part : Nat) (c c' : Content) : Prop where
  type : pcSliceType (tableSector c' 0) part = hideType hidden (pcSliceType (tableSector c 0) part)
  kept : ∀ j, j ≠ 446 + 4 + 16 * part → c' j = c j

theorem hidden_patch (hidden : Bool) {part : Nat} (hpart : part < PC_SLICE_MAX) (c : Content) :
    Hidden hidden part c (patch c 0 ((tableSector c 0).set (446 + 4 + 16 * part)
      (hideType hidden (pcSliceType (tableSector c 0) part)))) := by
  have hlt : part < 4 := hpart
  have hlen : (tableSector c 0).length = 512 := by rw [tableSector_eq, slice_length]
  have hbyte : ∀ j, patch c 0 ((tableSector c 0).set (446 + 4 + 16 * part)
      (hideType hidden (pcSliceType (tableSector c 0) part))) j =
      if j = 446 + 4 + 16 * part then hideType hidden (pcSliceType (tableSector c 0) part)
      else c j := by
    intro j
    rw [patch_getD c (by rw [List.length_set, hlen]), getD_set _ (by omega)]
    by_cases hj : j < 512
    · rw [if_pos hj, tableSector_getD c hj]
    · rw [if_neg hj, if_neg (by omega)]
  refine ⟨?_, fun j hj => by rw [hbyte, if_neg hj]⟩
  rw [pcSliceType, tableSector_getD _ (by omega), hbyte, if_pos rfl]

theorem setPartitionHiddenFlag_change (h : s.Buffered) (hinfo : getDiskinfo d (s.drives d) ≠ none)
    (hdisk : d.testBit 7 = true) (hidden : Bool) (p : Nat) :
    MbrChange s d (Hidden hidden (p / 2 ^ 16)) (setPartitionHiddenFlag B hidden d p s) := by
  unfold setPartitionHiddenFlag
  rw [if_pos hdisk]
  dsimp only
  split_ifs with hpart
  · exact .unchanged (h.raise _) rfl fun hok => nomatch hok
  · obtain ⟨ok, mbr, t, hread, hdrives, hbuf, hmbr⟩ := rawread_mbr (B := B) h hinfo
    simp only [hread]
    cases ok with
    | false => exact .unchanged hbuf hdrives fun hok => nomatch hok
    | true =>
      have hlt : p / 2 ^ 16 < PC_SLICE_MAX := Nat.lt_succ_of_le (not_lt.mp hpart)
      simp only [hmbr rfl]
      refine .of_write hbuf hdrives ?_ (hidden_patch hidden hlt _)
      rw [List.length_set, tableSector_eq, slice_length]

/-- The functions that change the MBR change the flags, or one type, and nothing else; what is read
behind them is the new MBR. -/
theorem reachable_mbrChange (hs : s.AtStart) (hrun : Reachable B s t)
    (hinfo : getDiskinfo d (t.drives d) ≠ none) (hdisk : d.testBit 7 = true) (p : Nat) :
    MbrChange t d (fun c c' => Activated c c' (p / 2 ^ 16)) (makeSavedActive B d p t) ∧
      ∀ hidden, MbrChange t d (Hidden hidden (p / 2 ^ 16))
        (setPartitionHiddenFlag B hidden d p t) := by
  have hbuf := hrun.buffered hs.buffered
  exact ⟨makeSavedActive_change hbuf hinfo p,
    fun hidden => setPartitionHiddenFlag_change hbuf hinfo hdisk hidden p⟩

theorem reachable_mbrChange_first :
    MbrChange smallStart 0x80 (fun c c' => Activated c c' (0xffff / 2 ^ 16))
        (makeSavedActive quietBios 0x80 0xffff smallStart) ∧
      ∀ hidden, MbrChange smallStart 0x80 (Hidden hidden (0xffff / 2 ^ 16))
        (setPartitionHiddenFlag quietBios hidden 0x80 0xffff smallStart) :=
  reachable_mbrChange smallStart_atStart .refl smallDisk_info (by decide) 0xffff

end DiskIo

end PulseImaging
