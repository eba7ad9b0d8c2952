import PulseImaging.TrackBuffer

/-! What `rawread` returns, over every sequence of reads and writes of all drives and under every
behaviour of the BIOS. -/

namespace PulseImaging

namespace DiskIo

variable {B : Int13} {s : DiskIo} {d : Nat} {i : ChsInfo}

/-- `buf_geom` describes the drive. -/
structure OfDrive (s : DiskIo) (d : Nat) (i : ChsInfo) : Prop where
  translation : (s.drives d).translation d = some i
  cylinders : s.buf_geom.cylinders = i.cylinders
  heads : s.buf_geom.heads = i.heads
  sectors : s.buf_geom.sectors = i.sectors
  lba : s.buf_geom.lba = (d.testBit 7 && (s.drives d).extended.isSome)

/-- The buffer begins with the track of `buf_track`. -/
def HoldsTrack (s : DiskIo) (d : Nat) (i : ChsInfo) : Prop :=
  ∀ t, s.buf_track = some t →
    s.buffer.take (512 * i.sectors) = slice (s.drives d).content (512 * t) (512 * i.sectors)

/-- The invariant between two operations. -/
structure Buffered (s : DiskIo) : Prop where
  length : s.buffer.length = BUFFERLEN
  held : ∀ d, s.buf_drive = some d → ∃ i, s.OfDrive d i ∧ s.HoldsTrack d i

/-- What a BIOS call that reads leaves alone. -/
structure Keeps (s t : DiskIo) : Prop where
  drives : t.drives = s.drives
  errnum : t.errnum = s.errnum
  buf_drive : t.buf_drive = s.buf_drive
  buf_track : t.buf_track = s.buf_track
  cylinders : t.buf_geom.cylinders = s.buf_geom.cylinders
  heads : t.buf_geom.heads = s.buf_geom.heads
  sectors : t.buf_geom.sectors = s.buf_geom.sectors
  lba : t.buf_geom.lba = s.buf_geom.lba
  length : t.buffer.length = s.buffer.length

theorem Keeps.trans {s t u : DiskIo} (h : s.Keeps t) (h' : t.Keeps u) : s.Keeps u where
  drives := h'.drives.trans h.drives
  errnum := h'.errnum.trans h.errnum
  buf_drive := h'.buf_drive.trans h.buf_drive
  buf_track := h'.buf_track.trans h.buf_track
  cylinders := h'.cylinders.trans h.cylinders
  heads := h'.heads.trans h.heads
  sectors := h'.sectors.trans h.sectors
  lba := h'.lba.trans h.lba
  length := h'.length.trans h.length

theorem Keeps.ofDrive {s t : DiskIo} (h : s.Keeps t) (hd : s.OfDrive d i) : t.OfDrive d i where
  translation := by rw [h.drives, hd.translation]
  cylinders := h.cylinders.trans hd.cylinders
  heads := h.heads.trans hd.heads
  sectors := h.sectors.trans hd.sectors
  lba := by rw [h.lba, hd.lba, h.drives]

/-! ### The BIOS calls -/

theorem keeps_failed (B : Int13) (s : DiskIo) (d block n : Nat) :
    s.Keeps (s.failed B d block n .read) :=
  ⟨rfl, rfl, rfl, rfl, rfl, rfl, rfl, rfl, B.spoiled_length _ _⟩

theorem keeps_moved (s : DiskIo) (d block : Nat) {n : Nat} (hn : 512 * n ≤ s.buffer.length) :
    s.Keeps (s.moved d block n .read) := by
  refine ⟨rfl, rfl, rfl, rfl, rfl, rfl, rfl, rfl, ?_⟩
  simp only [moved, List.length_append, slice_length, List.length_drop]
  omega

theorem moved_take (s : DiskIo) (d block n : Nat) :
    (s.moved d block n .read).buffer.take (512 * n) =
      slice (s.drives d).content (512 * block) (512 * n) := by
  simp only [moved]
  exact List.take_left' (slice_length _ _ _)

theorem OfDrive.blockOf (h : s.OfDrive d i) (sector : Nat) :
    (s.drives d).blockOf d (sector / s.buf_geom.sectors / s.buf_geom.heads)
      (sector / s.buf_geom.sectors % s.buf_geom.heads) (sector % s.buf_geom.sectors + 1) =
        sector := by
  rw [Drive.blockOf, h.translation, h.heads, h.sectors]
  simp only [Nat.add_sub_cancel]
  exact chs_sector sector

/-- A call for `n` sectors from `sector` on, with what it says if it succeeds. -/
structure ReadCall (B : Int13) (s : DiskIo) (d : Nat) (i : ChsInfo) (sector n : Nat) (r : Nat × DiskIo) :
    Prop where
  keeps : s.Keeps r.2
  data : r.1 = 0 →
    r.2.buffer.take (512 * n) = slice (s.drives d).content (512 * sector) (512 * n)
  clean : B.Faultless → s.buf_geom.lba = true ∨ sector < i.capacity → r.1 = 0

theorem cylinder_lt (h : s.OfDrive d i) {sector : Nat} (hsector : sector < i.capacity) :
    ¬ s.buf_geom.cylinders ≤ sector / s.buf_geom.sectors / s.buf_geom.heads := by
  rw [h.cylinders, h.sectors, h.heads, not_le, Nat.div_div_eq_div_mul]
  refine Nat.div_lt_of_lt_mul (hsector.trans_eq ?_)
  rw [ChsInfo.capacity]
  ring

theorem biosdiskStandard_read (h : s.OfDrive d i) (hlba : ¬ s.buf_geom.lba = true) (sector : Nat)
    {n : Nat} (hn : 512 * n ≤ s.buffer.length) :
    ReadCall B s d i sector n (biosdiskStandard B .read d sector n s) := by
  simp only [biosdiskStandard, h.blockOf]
  split_ifs with hcyl herr
  · exact ⟨⟨rfl, rfl, rfl, rfl, rfl, rfl, rfl, rfl, rfl⟩, fun h0 => absurd h0 (Nat.succ_ne_zero 0xff),
      fun _ hcap => absurd hcyl (cylinder_lt h (hcap.resolve_left hlba))⟩
  · exact ⟨keeps_moved s d sector hn, fun _ => moved_take s d sector n, fun _ _ => rfl⟩
  · exact ⟨keeps_failed B s d sector n, fun h0 => absurd h0 herr, fun hB => absurd
      (hB.standard _ _ _ _) herr⟩

theorem biosdisk_read (h : s.OfDrive d i) {sector n : Nat} (hsector : sector < 2 ^ 31)
    (hn : 512 * n ≤ s.buffer.length) : ReadCall B s d i sector n (biosdisk B .read d sector n s) := by
  have hdap : dapBlock sector = sector := if_pos hsector
  simp only [biosdisk, hdap]
  split_ifs with hlba herr
  · exact ⟨keeps_moved s d sector hn, fun _ => moved_take s d sector n, fun _ _ => rfl⟩
  · exact ⟨keeps_failed B s d sector n, fun h0 => absurd h0 herr, fun hB => absurd
      (hB.extended _ _ _ _) herr⟩
  · exact biosdiskStandard_read h hlba sector hn

/-! ### A turn of `rawread` -/

theorem Keeps.content {s t : DiskIo} (h : s.Keeps t) (d : Nat) :
    (t.drives d).content = (s.drives d).content := by rw [h.drives]

/-- The first sector of the track of `sector`. -/
def trackOf (i : ChsInfo) (sector : Nat) : Nat := sector - sector % i.sectors

/-- A part of a stretch that begins the buffer. -/
theorem take_drop_of_take {buffer : List Byte} {c : Content} {start n k size : Nat}
    (h : buffer.take (512 * n) = slice c start (512 * n)) (hk : k + size ≤ 512 * n) :
    (buffer.drop k).take size = slice c (start + k) size := by
  have hmin : min size (512 * n - k) = size := by omega
  calc (buffer.drop k).take size = ((buffer.drop k).take (512 * n - k)).take size := by
        rw [List.take_take, hmin]
    _ = ((slice c start (512 * n)).drop k).take size := by rw [← List.drop_take, h]
    _ = slice c (start + k) size := slice_part c hk

/-- The errors of a drive that exists. -/
def DiskError (e : Option GrubErr) : Prop := e = some .read ∨ e = some .geom

/-- What `fill` leaves behind, for a turn that wants the sectors from `sector` on. -/
structure Filled (B : Int13) (s : DiskIo) (d : Nat) (i : ChsInfo) (sector byte_offset slen : Nat)
    (r : Nat × DiskIo) : Prop where
  drives : r.2.drives = s.drives
  buf_drive : r.2.buf_drive = s.buf_drive
  ofDrive : r.2.OfDrive d i
  length : r.2.buffer.length = s.buffer.length
  error : r.2.errnum = s.errnum ∨ DiskError r.2.errnum
  clean : B.Faultless → s.buf_geom.lba = true ∨ sector < i.capacity → r.2.errnum = s.errnum
  /-- Only a turn that is not the last one leaves a part of a track. -/
  held : r.2.HoldsTrack d i ∨
    i.sectors - sector % i.sectors < slen ∧ r.2.errnum = none ∧ r.2.buf_track = some (trackOf i sector)
  data : r.2.errnum = none → s.errnum = none ∧
    ∀ size, byte_offset + size ≤ 512 * (i.sectors - sector % i.sectors) →
      byte_offset + size ≤ 512 * slen →
      (r.2.buffer.drop r.1).take size = slice (s.drives d).content (512 * sector + byte_offset) size

theorem OfDrive.withTrack (h : s.OfDrive d i) (track : Option Nat) :
    (s.withTrack track).OfDrive d i :=
  ⟨h.translation, h.cylinders, h.heads, h.sectors, h.lba⟩

theorem Filled.of_error {t : DiskIo} (h : s.OfDrive d i) (hkeep : s.Keeps t)
    {sector byte_offset slen bufaddr : Nat} {e : GrubErr} (he : DiskError (some e))
    (hclean : B.Faultless → ¬ (s.buf_geom.lba = true ∨ sector < i.capacity)) :
    Filled B s d i sector byte_offset slen (bufaddr, (t.withTrack none).raise e) where
  drives := hkeep.drives
  buf_drive := hkeep.buf_drive
  ofDrive :=
    have hof := hkeep.ofDrive h
    ⟨hof.translation, hof.cylinders, hof.heads, hof.sectors, hof.lba⟩
  length := hkeep.length
  error := .inr he
  clean := fun hB hcap => absurd hcap (hclean hB)
  held := .inl fun _ ht => nomatch ht
  data := fun hnone => nomatch hnone

/-- Behind a failed read of the track, the sectors that are wanted are read alone. -/
theorem Filled.of_retry {t : DiskIo} (h : s.OfDrive d i) (hkeep : s.Keeps t)
    (hlen : s.buffer.length = BUFFERLEN) {sector byte_offset slen : Nat} (hsector : sector < 2 ^ 31)
    (hslen : 512 * slen ≤ BUFFERLEN) (herr : s.errnum = none)
    (hclean : B.Faultless → ¬ (s.buf_geom.lba = true ∨ sector < i.capacity)) :
    Filled B s d i sector byte_offset slen
      (let r := biosdisk B .read d sector slen (t.withTrack none)
      if r.1 = 0 then (byte_offset, r.2) else (byte_offset, r.2.raise .read)) := by
  have hfirst := (hkeep.ofDrive h).withTrack none
  have hsnd := biosdisk_read (B := B) hfirst (n := slen) hsector
    (by rw [show (t.withTrack none).buffer = t.buffer from rfl, hkeep.length, hlen]; exact hslen)
  have hdrive := hsnd.keeps.ofDrive hfirst
  have hnotrack := hsnd.keeps.buf_track
  dsimp only
  generalize biosdisk B .read d sector slen (t.withTrack none) = r at hsnd hdrive hnotrack ⊢
  split_ifs with hok
  · refine ⟨hsnd.keeps.drives.trans hkeep.drives, hsnd.keeps.buf_drive.trans hkeep.buf_drive, hdrive,
      hsnd.keeps.length.trans hkeep.length, .inl (hsnd.keeps.errnum.trans hkeep.errnum),
      fun _ _ => hsnd.keeps.errnum.trans hkeep.errnum,
      .inl (fun _ ht => nomatch (hnotrack.symm.trans ht)), fun _ => ⟨herr, fun size _ hsize => ?_⟩⟩
    have hdata := hsnd.data hok
    rw [show (t.withTrack none).drives = t.drives from rfl, hkeep.content] at hdata
    exact take_drop_of_take hdata hsize
  · exact ⟨hsnd.keeps.drives.trans hkeep.drives, hsnd.keeps.buf_drive.trans hkeep.buf_drive,
      ⟨hdrive.translation, hdrive.cylinders, hdrive.heads, hdrive.sectors, hdrive.lba⟩,
      hsnd.keeps.length.trans hkeep.length, .inr (.inl rfl), fun hB hcap => absurd hcap (hclean hB),
      .inl (fun _ ht => nomatch (hnotrack.symm.trans ht)), fun hnone => nomatch hnone⟩

theorem fill_filled (h : s.OfDrive d i) (hlen : s.buffer.length = BUFFERLEN) {sector : Nat}
    (hsector : sector < 2 ^ 31) (byte_offset slen : Nat) (herr : s.errnum = none)
    (hold : s.buf_track = some (trackOf i sector) → s.HoldsTrack d i) :
    Filled B s d i sector byte_offset slen (s.fill B d sector byte_offset slen) := by
  have hpos := i.sectors_pos
  have hle := i.sectors_le
  have hbuf : s.buffer.length = 512 * 63 := hlen
  have hsoff : sector % i.sectors < i.sectors := Nat.mod_lt _ hpos
  have htrack : trackOf i sector + sector % i.sectors = sector :=
    Nat.sub_add_cancel (Nat.mod_le _ _)
  have hinside : ∀ {t : DiskIo} {size : Nat}, t.buffer.take (512 * i.sectors) =
      slice (s.drives d).content (512 * trackOf i sector) (512 * i.sectors) →
      byte_offset + size ≤ 512 * (i.sectors - sector % i.sectors) →
      (t.buffer.drop (sector % i.sectors * 512 + byte_offset)).take size =
        slice (s.drives d).content (512 * sector + byte_offset) size := by
    intro t size ht hsize
    rw [take_drop_of_take ht (by omega)]
    congr 1
    omega
  simp only [fill, h.sectors]
  rw [show sector - sector % i.sectors = trackOf i sector from rfl]
  by_cases hcached : s.buf_track = some (trackOf i sector)
  · rw [if_pos hcached]
    exact ⟨rfl, rfl, h, rfl, .inl rfl, fun _ _ => rfl, .inl (hold hcached),
      fun _ => ⟨herr, fun size hsize _ => hinside (hold hcached _ hcached) hsize⟩⟩
  rw [if_neg hcached]
  by_cases hpart : i.sectors - sector % i.sectors < slen
  · -- the earlier reads bring only the sectors that are wanted
    simp only [readPlan, if_pos hpart]
    have hcall := biosdisk_read (B := B) h (n := i.sectors - sector % i.sectors) hsector (by omega)
    generalize biosdisk B .read d sector (i.sectors - sector % i.sectors) s = r at hcall ⊢
    split_ifs with hok
    · refine ⟨hcall.keeps.drives, hcall.keeps.buf_drive, (hcall.keeps.ofDrive h).withTrack _,
        hcall.keeps.length, .inl hcall.keeps.errnum, fun _ _ => hcall.keeps.errnum,
        .inr ⟨hpart, hcall.keeps.errnum.trans herr, rfl⟩, fun _ => ⟨herr, ?_⟩⟩
      intro size hsize _
      exact take_drop_of_take (hcall.data hok) hsize
    · exact .of_error h hcall.keeps (.inr rfl) fun hB hcap => hok (hcall.clean hB hcap)
    · exact .of_error h hcall.keeps (.inl rfl) fun hB hcap => hok (hcall.clean hB hcap)
  · simp only [readPlan, if_neg hpart]
    rw [show sector - sector % i.sectors = trackOf i sector from rfl]
    have hcall : ReadCall B s d i (trackOf i sector) i.sectors _ :=
      biosdisk_read h (by omega) (by omega)
    generalize biosdisk B .read d (trackOf i sector) i.sectors s = r at hcall ⊢
    by_cases hok : r.1 = 0
    · rw [if_pos hok]
      refine ⟨hcall.keeps.drives, hcall.keeps.buf_drive, (hcall.keeps.ofDrive h).withTrack _,
        hcall.keeps.length, .inl hcall.keeps.errnum, fun _ _ => hcall.keeps.errnum, .inl ?_,
        fun _ => ⟨herr, fun size hsize _ => hinside (hcall.data hok) hsize⟩⟩
      rintro t ⟨⟩
      simp only [DiskIo.withTrack, hcall.keeps.content, hcall.data hok]
    have hfail : B.Faultless → ¬ (s.buf_geom.lba = true ∨ sector < i.capacity) := fun hB hcap =>
      hok (hcall.clean hB (hcap.imp_right fun h => by omega))
    rw [if_neg hok]
    by_cases hgeom : r.1 = BIOSDISK_ERROR_GEOMETRY
    · rw [if_pos hgeom]
      exact .of_error h hcall.keeps (.inr rfl) hfail
    · rw [if_neg hgeom]
      exact .of_retry h hcall.keeps hlen hsector (by omega) herr hfail

/-! ### The loop of `rawread` -/

/-- The state in front of a turn that wants `sector`: a part of a track lies in the buffer only if the
track is behind. -/
structure Between (s : DiskIo) (d sector : Nat) : Prop where
  length : s.buffer.length = BUFFERLEN
  held : ∀ d', s.buf_drive = some d' → ∃ i, s.OfDrive d' i ∧
    (s.HoldsTrack d' i ∨ d' = d ∧ ∃ t, s.buf_track = some t ∧ t + i.sectors ≤ sector)

theorem Buffered.between (h : s.Buffered) (d sector : Nat) : s.Between d sector where
  length := h.length
  held d' hd' := (h.held d' hd').imp fun _ hi => ⟨hi.1, .inl hi.2⟩

theorem getDiskinfo_some {drive : Nat} {x : Drive} {g : Geometry}
    (h : getDiskinfo drive x = some g) :
    ∃ i, x.translation drive = some i ∧ g.cylinders = i.cylinders ∧ g.heads = i.heads ∧
      g.sectors = i.sectors ∧
      g.lba = (drive.testBit 7 && x.extended.isSome) := by
  obtain ⟨i, hi, rfl⟩ := Option.map_eq_some_iff.mp h
  exact ⟨i, hi, rfl, rfl, rfl, rfl⟩

/-- The state behind a successful probe. -/
structure Probed (s : DiskIo) (d sector : Nat) (i : ChsInfo) (t : DiskIo) : Prop where
  drives : t.drives = s.drives
  errnum : t.errnum = s.errnum
  buf_drive : t.buf_drive = some d
  length : t.buffer.length = BUFFERLEN
  ofDrive : t.OfDrive d i
  held : t.buf_track = some (trackOf i sector) → t.HoldsTrack d i

theorem probe_probed (h : s.Between d sector) (hinfo : getDiskinfo d (s.drives d) ≠ none) :
    ∃ i t, s.probe B d = (true, t) ∧ s.Probed d sector i t := by
  by_cases hsame : s.buf_drive = some d
  · obtain ⟨i, hi, hheld⟩ := h.held d hsame
    refine ⟨i, s, by rw [probe, if_pos hsame], rfl, rfl, hsame, h.length, hi, fun htrack => ?_⟩
    rcases hheld with hheld | ⟨-, t, ht, hle⟩
    · exact hheld
    · have heq : t = trackOf i sector := Option.some.inj (ht.symm.trans htrack)
      have hlt : sector % i.sectors < i.sectors := Nat.mod_lt _ i.sectors_pos
      rw [trackOf] at heq
      omega
  · obtain ⟨g, hg⟩ := Option.ne_none_iff_exists'.mp hinfo
    obtain ⟨i, hi, hcyl, hheads, hsectors, hlba⟩ := getDiskinfo_some hg
    refine ⟨i, { s with buf_geom := g, buf_drive := some d, buf_track := none },
      by rw [probe, if_neg hsame, hg], rfl, rfl, rfl, h.length,
      ⟨hi, hcyl, hheads, hsectors, hlba⟩, ?_⟩
    exact fun htrack => nomatch htrack

theorem Buffered.probe (h : s.Buffered) (hinfo : getDiskinfo d (s.drives d) ≠ none) :
    (s.probe B d).2.Buffered := by
  by_cases hsame : s.buf_drive = some d
  · rwa [DiskIo.probe, if_pos hsame]
  · obtain ⟨g, hg⟩ := Option.ne_none_iff_exists'.mp hinfo
    obtain ⟨i, hi, hcyl, hheads, hsectors, hlba⟩ := getDiskinfo_some hg
    rw [DiskIo.probe, if_neg hsame, hg]
    refine ⟨h.length, fun d' hd' => ?_⟩
    obtain rfl : d = d' := Option.some.inj hd'
    exact ⟨i, ⟨hi, hcyl, hheads, hsectors, hlba⟩, fun _ ht => nomatch ht⟩

/-- What a call of `rawread` leaves behind if `buf` has been filled before. -/
structure ReadRight (B : Int13) (s : DiskIo) (d start byte_len : Nat) (buf : List Byte)
    (r : Bool × List Byte × DiskIo) : Prop where
  drives : r.2.2.drives = s.drives
  buffered : r.2.2.Buffered
  answer : r.1 = r.2.2.errnum.isNone
  error : r.2.2.errnum = s.errnum ∨ DiskError r.2.2.errnum
  clean : B.Faultless → s.errnum = none →
    (0 < byte_len → (s.drives d).Reaches d (start + byte_len)) → r.2.2.errnum = none
  right : r.1 = true →
    s.errnum = none ∧ r.2.2.errnum = none ∧ r.2.1 = buf ++ slice (s.drives d).content start byte_len

theorem sectorCount_le {byte_offset byte_len n : Nat} :
    sectorCount byte_offset byte_len ≤ n ↔ byte_offset + byte_len ≤ 512 * n := by
  rw [sectorCount]
  omega

theorem Filled.length_eq {sector byte_offset slen : Nat} {r : Nat × DiskIo}
    (h : Filled B s d i sector byte_offset slen r) (hs : s.buffer.length = BUFFERLEN) :
    r.2.buffer.length = BUFFERLEN := h.length.trans hs

/-- Behind the last turn nothing but whole tracks is left. -/
theorem Filled.buffered {sector byte_offset slen : Nat} {r : Nat × DiskIo}
    (h : Filled B s d i sector byte_offset slen r) (hs : s.buffer.length = BUFFERLEN)
    (hdrive : s.buf_drive = some d)
    (hlast : i.sectors - sector % i.sectors < slen → r.2.errnum ≠ none) : r.2.Buffered where
  length := h.length_eq hs
  held d' hd' := by
    obtain rfl : d = d' := Option.some.inj ((h.buf_drive.trans hdrive).symm.trans hd')
    rcases h.held with hheld | ⟨hpart, hnone, -⟩
    · exact ⟨i, h.ofDrive, hheld⟩
    · exact absurd hnone (hlast hpart)

theorem Filled.between {sector byte_offset slen : Nat} {r : Nat × DiskIo}
    (h : Filled B s d i sector byte_offset slen r) (hs : s.buffer.length = BUFFERLEN)
    (hdrive : s.buf_drive = some d) :
    r.2.Between d (sector + (i.sectors - sector % i.sectors)) where
  length := h.length_eq hs
  held d' hd' := by
    obtain rfl : d = d' := Option.some.inj ((h.buf_drive.trans hdrive).symm.trans hd')
    refine ⟨i, h.ofDrive, h.held.imp id fun ⟨_, _, htrack⟩ => ⟨rfl, _, htrack, ?_⟩⟩
    have hlt : sector % i.sectors < i.sectors := Nat.mod_lt _ i.sectors_pos
    have hmod : sector % i.sectors ≤ sector := Nat.mod_le _ _
    rw [trackOf]
    omega

theorem rawreadLoop_right {fuel sector byte_offset byte_len slen : Nat} {buf : List Byte}
    (hbetween : s.Between d sector) (hdone : byte_len = 0 ∨ s.errnum ≠ none → s.Buffered)
    (hinfo : getDiskinfo d (s.drives d) ≠ none) (hoff : byte_offset < 512) (hfuel : byte_len ≤ fuel)
    (hslen : slen = sectorCount byte_offset byte_len) (hend : 0 < byte_len → sector + slen ≤ 2 ^ 31) :
    ReadRight B s d (512 * sector + byte_offset) byte_len buf
      (rawreadLoop B d fuel sector byte_offset byte_len slen buf s) := by
  induction fuel generalizing sector byte_offset byte_len slen buf s with
  | zero =>
    obtain rfl : byte_len = 0 := by omega
    refine ⟨rfl, hdone (.inl rfl), rfl, .inl rfl, fun _ hnone _ => hnone, fun hok => ?_⟩
    have hnone := Option.isNone_iff_eq_none.mp hok
    exact ⟨hnone, hnone, (List.append_nil buf).symm⟩
  | succ fuel ih =>
    rw [rawreadLoop]
    by_cases hstop : byte_len = 0 ∨ s.errnum ≠ none
    · rw [if_pos hstop]
      refine ⟨rfl, hdone hstop, rfl, .inl rfl, fun _ hnone _ => hnone, fun hok => ?_⟩
      have hnone := Option.isNone_iff_eq_none.mp hok
      obtain rfl := hstop.resolve_right (fun h => h hnone)
      exact ⟨hnone, hnone, (List.append_nil buf).symm⟩
    · rw [if_neg hstop]
      obtain ⟨hlen, herr⟩ := not_or.mp hstop
      obtain ⟨i, t, hprobe, ht⟩ := probe_probed (B := B) hbetween hinfo
      have hsoff : sector % i.sectors < i.sectors := Nat.mod_lt _ i.sectors_pos
      have hcount : ∀ n, slen ≤ n ↔ byte_offset + byte_len ≤ 512 * n := fun n => by
        rw [hslen, sectorCount_le]
      have hself := (hcount slen).mp le_rfl
      have hlimit := hend (Nat.pos_of_ne_zero hlen)
      have hfill : Filled B t d i sector byte_offset slen _ :=
        fill_filled ht.ofDrive ht.length (by omega) byte_offset slen
          (ht.errnum.trans (not_not.mp herr)) ht.held
      simp only [hprobe, ht.ofDrive.sectors]
      generalize t.fill B d sector byte_offset slen = r at hfill ⊢
      set num := i.sectors - sector % i.sectors with hnum
      set size := min byte_len (num * 512 - byte_offset) with hsize
      have hpart := hcount num
      have hdrives : r.2.drives = s.drives := hfill.drives.trans ht.drives
      have hrest : slen - num = sectorCount 0 (byte_len - size) := by
        rw [sectorCount] at hslen ⊢
        omega
      have hnext := @ih _ _ _ _ _ (buf ++ (r.2.buffer.drop r.1).take size)
        (hfill.between ht.length ht.buf_drive)
        (fun hstop' => hfill.buffered ht.length ht.buf_drive fun hless => hstop'.resolve_left
          (by omega))
        (by rwa [hdrives]) (by norm_num) (by omega) hrest (by omega)
      have herror : r.2.errnum = s.errnum ∨ DiskError r.2.errnum :=
        hfill.error.imp_left fun h => h.trans ht.errnum
      refine ⟨hnext.drives.trans hdrives, hnext.buffered, hnext.answer, ?_,
        fun hB hnone hcap => ?_, fun hok => ?_⟩
      · rcases hnext.error with h | h
        · rwa [h]
        · exact .inr h
      · have hinfo' : (s.drives d).translation d = some i := by
          rw [← ht.drives, ht.ofDrive.translation]
        have hreach := hcap (Nat.pos_of_ne_zero hlen)
        have hfirst : t.buf_geom.lba = true ∨ sector < i.capacity := by
          refine hreach.imp (fun h => ?_) fun h => ?_
          · rwa [ht.ofDrive.lba, ht.drives]
          · have := h i hinfo'
            omega
        refine hnext.clean hB ((hfill.clean hB hfirst).trans (ht.errnum.trans hnone)) fun hpos => ?_
        rw [hdrives]
        exact hreach.mono (by omega)
      obtain ⟨hfirst, hnone, hout⟩ := hnext.right hok
      refine ⟨not_not.mp herr, hnone, hout.trans ?_⟩
      have hpiece := (hfill.data hfirst).2 size (by omega) (by omega)
      rw [hpiece, hdrives, ht.drives, List.append_assoc]
      congr 1
      obtain ⟨m, hm⟩ : ∃ m, byte_len = size + m := Nat.exists_eq_add_of_le (min_le_left _ _)
      by_cases hm0 : m = 0
      · rw [hm, hm0, Nat.add_sub_cancel_left]
        exact List.append_nil _
      · have hcut : size = num * 512 - byte_offset := by omega
        rw [hm, slice_add, Nat.add_sub_cancel_left]
        congr 2
        omega

/-! ### `rawread` and `devread` -/

/-- What a read leaves behind: if it succeeds, the bytes of the drive have come. -/
structure ReadBytes (B : Int13) (s : DiskIo) (d start byte_len : Nat) (r : Bool × List Byte × DiskIo) :
    Prop where
  drives : r.2.2.drives = s.drives
  buffered : r.2.2.Buffered
  failed : r.1 = false → r.2.2.errnum ≠ none
  bytes : r.1 = true → r.2.1 = slice (s.drives d).content start byte_len
  clean : B.Faultless → s.errnum = none → (s.drives d).Reaches d (start + byte_len) → r.1 = true

theorem rawread_bytes (h : s.Buffered) (hinfo : getDiskinfo d (s.drives d) ≠ none)
    {sector byte_offset byte_len : Nat} (hoff : byte_offset < 512)
    (hend : sector + sectorCount byte_offset byte_len ≤ 2 ^ 31) :
    ReadBytes B s d (512 * sector + byte_offset) byte_len
      (rawread B d sector byte_offset byte_len s) := by
  rw [rawread]
  split_ifs with hzero
  · exact ⟨rfl, h, fun hno => (nomatch hno), fun _ => by rw [hzero]; rfl, fun _ _ _ => rfl⟩
  · have hloop : ReadRight B s d (512 * sector + byte_offset) byte_len [] _ :=
      rawreadLoop_right (h.between d sector) (fun _ => h) hinfo hoff le_rfl rfl (fun _ => hend)
    refine ⟨hloop.drives, hloop.buffered, fun hno hnone => ?_, fun hok => (hloop.right hok).2.2,
      fun hB hnone hcap => ?_⟩
    · rw [hloop.answer, hnone] at hno
      exact nomatch hno
    · rw [hloop.answer, hloop.clean hB hnone fun _ => hcap]
      rfl

theorem Buffered.raise (h : s.Buffered) (e : GrubErr) : (s.raise e).Buffered where
  length := h.length
  held d hd := (h.held d hd).imp fun _ hi => ⟨⟨hi.1.translation, hi.1.cylinders, hi.1.heads,
    hi.1.sectors, hi.1.lba⟩, hi.2⟩

/-- An error that is there stays, and keeps every read from the disk. -/
theorem rawread_stuck (hs : s.errnum ≠ none) (sector byte_offset byte_len : Nat) :
    (rawread B d sector byte_offset byte_len s).2.2 = s := by
  rw [rawread]
  split_ifs with hzero
  · rfl
  · obtain ⟨n, rfl⟩ := Nat.exists_eq_succ_of_ne_zero hzero
    rw [rawreadLoop, if_pos (.inr hs)]

theorem devread_stuck (hs : s.errnum ≠ none) (p : OpenPart) (sector byte_offset byte_len : Nat) :
    (devread B p sector byte_offset byte_len s).2.2.errnum ≠ none := by
  rw [devread]
  split_ifs
  · exact Option.some_ne_none _
  · rwa [rawread_stuck hs]

end DiskIo

end PulseImaging
