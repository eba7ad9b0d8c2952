import PulseImaging.PartitionList
import PulseImaging.ImageFormat

/-! The main loop of autosave: disks are numbered, partition tables are copied
and an image tool is chosen for every volume that is worth saving. -/

namespace PulseImaging

/-! ### Names -/

def hexDigit (upper : Bool) (d : Nat) : Byte := UInt8.ofNat (if d < 10 then 48 + d else (if upper then 55 else 87) + d)

/-- `%02x`, or `%02X` -/
def hex2 (upper : Bool) (n : Nat) : List Byte :=
  if n < 16 then [hexDigit upper 0, hexDigit upper n] else ((Nat.digits 16 n).reverse).map (hexDigit upper)

/-- `%c` prints its argument as an `unsigned char`; a zero ends the string. -/
def charText (c : Int) : List Byte := cstr [UInt8.ofNat (c % 256).toNat]

/-- The prefix of the files of a disk. -/
def dnum2pre (dnum : Int) : List Byte :=
  if 0xFFF ≤ dnum then ascii "Lvm" ++ hex2 true (dnum % 256).toNat else charText (80 + (dnum - 128))

theorem hexDigit_injective :
    ∀ a < 16, ∀ b < 16, hexDigit true a = hexDigit true b → a = b := by decide

theorem hex2_eq {n : Nat} (h : n < 256) :
    hex2 true n = [hexDigit true (n / 16), hexDigit true (n % 16)] := by
  by_cases hn : n < 16
  · simp [hex2, hn, Nat.div_eq_of_lt hn, Nat.mod_eq_of_lt hn]
  · simp [hex2, hn, Nat.digits_def' (by norm_num : 1 < 16) (by omega : 0 < n),
      Nat.digits_of_lt 16 (n / 16) (by omega) (by omega)]

theorem hex2_injective {a b : Nat} (ha : a < 256) (hb : b < 256) (h : hex2 true a = hex2 true b) :
    a = b := by
  rw [hex2_eq ha, hex2_eq hb, List.cons.injEq, List.cons.injEq] at h
  have h1 := hexDigit_injective _ (by omega) _ (by omega) h.1
  have h2 := hexDigit_injective _ (by omega) _ (by omega) h.2.1
  omega

theorem charText_eq_iff (a b : Int) : charText a = charText b ↔ a % 256 = b % 256 := by
  have hbyte : ∀ c : Int, ((UInt8.ofNat (c % 256).toNat).toNat : Int) = c % 256 := by
    intro c
    rw [UInt8.toNat_ofNat']
    omega
  have hcstr : ∀ x y : Byte, cstr [x] = cstr [y] ↔ x = y := by
    intro x y
    by_cases hx : x = 0
    · by_cases hy : y = 0
      · simp [hx, hy]
      · simp [cstr, hx, hy, Ne.symm hy]
    · by_cases hy : y = 0 <;> simp [cstr, hx, hy]
  rw [charText, charText, hcstr, ← UInt8.toNat_inj]
  have ha := hbyte a
  have hb := hbyte b
  omega

/-- The prefix gives the number back modulo 256, apart from its kind. -/
theorem dnum2pre_eq_iff (a b : Int) :
    dnum2pre a = dnum2pre b ↔ a % 256 = b % 256 ∧ (0xFFF ≤ a ↔ 0xFFF ≤ b) := by
  have hlen : ∀ c : Int, (charText c).length ≤ 1 := fun c => (List.takeWhile_sublist _).length_le
  have hlong : ∀ n : Nat, n < 256 → (ascii "Lvm" ++ hex2 true n).length = 5 := by
    intro n hn
    rw [hex2_eq hn]
    rfl
  by_cases ha : 0xFFF ≤ a <;> by_cases hb : 0xFFF ≤ b <;> simp only [dnum2pre, ha, hb,
    if_true, if_false]
  · simp only [List.append_right_inj, and_true]
    constructor
    · intro h
      have := hex2_injective (by omega) (by omega) h
      omega
    · intro h
      rw [h]
  · simp only [iff_false, not_true_eq_false, and_false]
    intro h
    have h1 := hlong (a % 256).toNat (by omega)
    have h2 := hlen (80 + (b - 128))
    rw [h] at h1
    omega
  · simp only [false_iff, not_true_eq_false, and_false, iff_false]
    intro h
    have h1 := hlong (b % 256).toNat (by omega)
    have h2 := hlen (80 + (a - 128))
    rw [← h] at h1
    omega
  · rw [charText_eq_iff]
    simp only [and_true]
    omega

def devPath (name : List Byte) : List Byte := ascii "/dev/" ++ name

/-! ### What the loop asks of the machine and of its command line -/

structure BlockDev where
  /-- `start` of `HDIO_GETGEO`, if the call succeeds -/
  geo : Option Nat
  /-- `BLKGETSIZE` -/
  size : Nat
  /-- `config_start` and `config_size` of an LDM header -/
  ldm : Option (Nat × Nat)
  deriving DecidableEq, Repr

inductive Imager where
  | raw | swap | e2fs | fat | ntfs | xfs | jfs | ufs | lvmreiserfs | lvm
  deriving DecidableEq, Repr

structure Machine extends PartSource where
  openDev : List Byte → Option BlockDev
  /-- the last number that `sfdisk --id` prints for a partition of a disk, all ones if none -/
  sfdisk : List Byte → Nat → Nat
  /-- whether `image_X dev ?` exits with zero -/
  probe : Imager → List Byte → Bool

structure SaveOptions where
  revosave : List Byte
  revoraw : Bool
  /-- the loaded `hdmap` file -/
  hdmap : Option (Nat → Nat)
  /-- the loaded `exclude` file, one mask a disk -/
  exclude : Int → Nat

/-! ### Disk numbers -/

/-- The static variables of `gethdbios`. -/
structure BiosState where
  lastnum : Int
  hdmap : Option (Nat → Nat)

def gethdbios (st : BiosState) (sect : Nat) : Int × BiosState :=
  let lastnum := st.lastnum + 1
  match st.hdmap with
  | none => (lastnum + 128, ⟨lastnum, none⟩)
  | some hdmap =>
    match (List.range 256).find? (fun i => sect == hdmap i || (sect + 1) % 2 ^ 32 == hdmap i) with
    | some i => ((i : Int) + 128, ⟨i, some (Function.update hdmap i 0xFFFFFFFF)⟩)
    | none => (lastnum + 128, ⟨lastnum, some (Function.update hdmap 256 0xFFFFFFFF)⟩)

/-- `exclude[disk] & (1 << (part - 1))`; the shift count is taken modulo 32. -/
def isexcluded (exclude : Int → Nat) (disk : Int) (part : Nat) : Bool :=
  exclude disk &&& (1 <<< ((part + 31) % 32)) != 0

/-- The test on major and minor numbers for a full drive. -/
def wholeDisk (p : PartInfo) : Bool :=
  ((p.major == 3 || p.major == 22 || p.major == 33 || p.major == 34) && p.minor % 64 == 0) ||
  ((p.major == 8 || p.major == 65) && p.minor % 16 == 0) ||
  ((72 ≤ p.major && p.major ≤ 79) && p.minor % 16 == 0) ||
  ((104 ≤ p.major && p.major ≤ 111) && p.minor % 16 == 0) ||
  ((240 ≤ p.major && p.major ≤ 254) && !isMapperName p.device && p.minor % 16 == 0)

/-! ### The loop -/

/-- A partition or a logical volume that the loop decided to save. -/
structure Volume where
  part : PartInfo
  dnum : Int
  poff : Nat
  isdm : Bool
  tmin : Nat
  tmax : Nat
  ttype : Nat
  deriving DecidableEq, Repr

inductive SaveEvent where
  /-- a disk gets its number: the `D:` and `ptabs` lines and the size file -/
  | disk (dnum : Int) (part : PartInfo) (size : Nat)
  | saveRaw (start stop : Nat) (fmajor : List Byte) (dnum : Int)
  | partcopy (v : Volume)
  | image (tool : Imager) (v : Volume)
  | unsupported (v : Volume)
  deriving DecidableEq, Repr

structure SaveState where
  bios : BiosState
  dnum : Int
  isdm : Bool
  alignPartOn : Nat
  geoStart : Nat
  majorn : List Byte
  fmajor : List Byte
  shouldBackupLvm : Bool
  trace : List SaveEvent

def SaveState.emit (st : SaveState) (e : SaveEvent) : SaveState := { st with trace := st.trace ++ [e] }

def boundary (start : Nat) : Nat :=
  if start = 63 then 63 else if start = 2048 then 2048 else if start < 2048 then start else 63

/-- The boundary is guessed from the first partition of a full drive. -/
def guessBoundary (m : Machine) (st : SaveState) (p : PartInfo) : SaveState :=
  match m.openDev (devPath (p.device ++ decimal 1)) with
  | none => { st with alignPartOn := 63 }
  | some dev =>
    match dev.geo with
    | none => { st with alignPartOn := if st.isdm then boundary st.geoStart else 63 }
    | some start => { st with alignPartOn := boundary start, geoStart := start }

/-- A new disk gets its number, and its LDM database is copied. -/
def newDisk (st : SaveState) (p : PartInfo) (dev : BlockDev) : SaveState :=
  let r := gethdbios st.bios dev.size
  let st := { st with dnum := r.1, bios := r.2, fmajor := devPath p.device }.emit (.disk r.1 p dev.size)
  match dev.ldm with
  | none => st
  | some (start, size) =>
    st.emit (.saveRaw (start % 2 ^ 32) ((start + size + (2 ^ 32 - 1)) % 2 ^ 32) st.fmajor st.dnum)

/-- The sectors around the start of a partition. -/
def savePartInfo (st : SaveState) (poff : Nat) : SaveState :=
  let pi_start :=
    if 5 ≤ poff then (if st.geoStart ≤ st.alignPartOn then 0 else st.geoStart - st.alignPartOn) else st.geoStart
  let pi_end := (st.geoStart + st.alignPartOn + (2 ^ 32 - 1)) % 2 ^ 32
  st.emit (.saveRaw pi_start pi_end st.fmajor st.dnum)

def fslist : List Imager := [.swap, .e2fs, .fat, .ntfs, .xfs, .jfs, .ufs, .lvmreiserfs]

/-- The partitions that are saved raw when no file system is recognised. -/
def savedRaw (v : Volume) : Bool :=
  let sectors := (v.tmax + 2 ^ 32 - v.tmin + 1) % 2 ^ 32
  v.ttype == 0x12 || v.ttype == 0xee || v.ttype == 0xef ||
  (v.ttype == 0 && (v.poff == 2 || v.poff == 3) && (sectors == 262144 || sectors == 65536)) ||
  (v.ttype == 0x0c && v.poff == 2 && decide (sectors ≤ 16384))

def chooseImager (probe : Imager → Bool) (revoraw : Bool) (v : Volume) : Option Imager :=
  if revoraw && probe .raw then some .raw
  else
    match fslist.find? probe with
    | some fs => some fs
    | none =>
      if v.ttype == 0x8e && probe .lvm then some .lvm
      else if savedRaw v && probe .raw then some .raw
      else none

def saveVolume (m : Machine) (o : SaveOptions) (st : SaveState) (v : Volume) : SaveState :=
  let st := st.emit (.partcopy v)
  match chooseImager (fun t => m.probe t (devPath v.part.device)) o.revoraw v with
  | none => st.emit (.unsupported v)
  | some .lvm => { st with shouldBackupLvm := true }.emit (.image .lvm v)
  | some t => st.emit (.image t v)

def isExtended (ttype : Nat) : Bool := ttype == 0x05 || ttype == 0x85 || ttype == 0x0f || ttype == 0xA5

/-- The body of the loop once the device is open and its geometry known: a whole
disk is numbered and not saved, everything else may be saved. -/
def saveEntry (m : Machine) (o : SaveOptions) (st : SaveState) (p : PartInfo) (dev : BlockDev) : SaveState :=
  let poff := if st.isdm then 0 else (p.minor % 16).toNat
  let first := st.geoStart == 0 && !st.isdm
  let info := fun st : SaveState => if st.isdm then st else savePartInfo st poff
  let st := if first then { st with majorn := devPath p.device } else st
  if wholeDisk p || first then info (newDisk st p dev)
  else
    let ttype := if st.isdm then 0xFFFFFFFF else m.sfdisk st.majorn poff
    let st := info st
    if decide (dev.size ≤ st.alignPartOn) || isExtended ttype || isexcluded o.exclude (st.dnum - 128) poff then st
    else
      saveVolume m o st
        ⟨p, st.dnum, poff, st.isdm, st.geoStart % 2 ^ 32, (st.geoStart + dev.size + (2 ^ 32 - 1)) % 2 ^ 32, ttype⟩

def saveStep (m : Machine) (o : SaveOptions) (st : SaveState) (p : PartInfo) : SaveState :=
  let st := if wholeDisk p then guessBoundary m st p else st
  let isdm := isMapperName p.device
  let st := { st with isdm := isdm, dnum := if isdm then 0x1000 + p.minor else st.dnum }
  if isdm && !st.shouldBackupLvm then st
  else
    match m.openDev (devPath p.device) with
    | none => st
    | some dev =>
      if isdm then saveEntry m o { st with geoStart := 0 } p dev
      else
        match dev.geo with
        | none => st
        | some start => saveEntry m o { st with geoStart := start } p dev

def SaveState.start (o : SaveOptions) : SaveState := ⟨⟨-1, o.hdmap⟩, 127, false, 63, 0, [], [], false, []⟩

def saveLoop (m : Machine) (o : SaveOptions) : Nat → PartIter → SaveState → SaveState
  | 0, _, st => st
  | fuel + 1, it, st =>
    match getNextpart m.toPartSource it with
    | none => st
    | some (p, it') => saveLoop m o fuel it' (saveStep m o st p)

def save (m : Machine) (o : SaveOptions) : SaveState :=
  let it := m.toPartSource.start
  saveLoop m o (it.left + 1) it (SaveState.start o)

/-- The entries of the machine, in the order in which they are examined. -/
def Machine.entries (m : Machine) : List PartInfo := m.toPartSource.start.entries m.toPartSource

/-! ### What one turn adds to the trace -/

structure NumberedDisk where
  dnum : Int
  part : PartInfo
  size : Nat
  deriving DecidableEq, Repr

def SaveEvent.disk? : SaveEvent → Option NumberedDisk
  | .disk dnum p size => some ⟨dnum, p, size⟩
  | _ => none

/-- The volume that a line of `conf.txt` is about. -/
def SaveEvent.volume? : SaveEvent → Option Volume
  | .partcopy v => some v
  | _ => none

/-- The volume for which an image tool was run. -/
def SaveEvent.saved? : SaveEvent → Option Volume
  | .image _ v => some v
  | _ => none

def SaveEvent.isRaw : SaveEvent → Bool
  | .saveRaw _ _ _ _ => true
  | _ => false

def SaveState.disks (st : SaveState) : List NumberedDisk := st.trace.filterMap SaveEvent.disk?

def SaveState.volumes (st : SaveState) : List Volume := st.trace.filterMap SaveEvent.volume?

def SaveState.saved (st : SaveState) : List Volume := st.trace.filterMap SaveEvent.saved?

/-- What becomes of a volume after its line is written. -/
def Machine.imager (m : Machine) (o : SaveOptions) (v : Volume) : Option Imager :=
  chooseImager (fun t => m.probe t (devPath v.part.device)) o.revoraw v

def Machine.imageEvent (m : Machine) (o : SaveOptions) (v : Volume) : SaveEvent :=
  match m.imager o v with
  | none => .unsupported v
  | some t => .image t v

/-- Two states that agree on everything that decides about later disks and volumes,
up to copies of sectors. -/
structure SaveState.Agrees (st st' : SaveState) : Prop where
  bios : st'.bios = st.bios
  isdm : st'.isdm = st.isdm
  dnum : st'.dnum = st.dnum
  trace : ∃ raws, (∀ e ∈ raws, e.isRaw = true) ∧ st'.trace = st.trace ++ raws

theorem SaveState.Agrees.of_trace_eq {st st' : SaveState} (hb : st'.bios = st.bios)
    (hi : st'.isdm = st.isdm) (hn : st'.dnum = st.dnum) (ht : st'.trace = st.trace) :
    st.Agrees st' :=
  ⟨hb, hi, hn, [], by simp, by simp [ht]⟩

theorem guessBoundary_agrees (m : Machine) (st : SaveState) (p : PartInfo) :
    st.Agrees (guessBoundary m st p) ∧ (guessBoundary m st p).trace = st.trace ∧
      (guessBoundary m st p).shouldBackupLvm = st.shouldBackupLvm := by
  have htrace : (guessBoundary m st p).bios = st.bios ∧ (guessBoundary m st p).isdm = st.isdm ∧
      (guessBoundary m st p).dnum = st.dnum ∧ (guessBoundary m st p).trace = st.trace ∧
      (guessBoundary m st p).shouldBackupLvm = st.shouldBackupLvm := by
    simp only [guessBoundary]
    split
    · exact ⟨rfl, rfl, rfl, rfl, rfl⟩
    · split <;> exact ⟨rfl, rfl, rfl, rfl, rfl⟩
  obtain ⟨hb, hi, hn, ht, hl⟩ := htrace
  exact ⟨.of_trace_eq hb hi hn ht, ht, hl⟩

theorem savePartInfo_agrees (st : SaveState) (poff : Nat) : st.Agrees (savePartInfo st poff) :=
  ⟨rfl, rfl, rfl, _, by simp [SaveEvent.isRaw], rfl⟩

theorem newDisk_effect (st : SaveState) (p : PartInfo) (dev : BlockDev) :
    (newDisk st p dev).bios = (gethdbios st.bios dev.size).2 ∧
    (newDisk st p dev).isdm = st.isdm ∧
    ∃ raws, (∀ e ∈ raws, e.isRaw = true) ∧
      (newDisk st p dev).trace = st.trace ++
        (.disk (gethdbios st.bios dev.size).1 p dev.size :: raws) := by
  simp only [newDisk]
  cases dev.ldm with
  | none => exact ⟨rfl, rfl, [], by simp, rfl⟩
  | some ldm =>
    obtain ⟨start, size⟩ := ldm
    refine ⟨rfl, rfl, [.saveRaw (start % 2 ^ 32) ((start + size + (2 ^ 32 - 1)) % 2 ^ 32)
      (devPath p.device)
      (gethdbios st.bios dev.size).1], by simp [SaveEvent.isRaw], by simp [SaveState.emit]⟩

theorem saveVolume_effect (m : Machine) (o : SaveOptions) (st : SaveState) (v : Volume) :
    (saveVolume m o st v).bios = st.bios ∧
    (saveVolume m o st v).trace = st.trace ++ [.partcopy v, m.imageEvent o v] := by
  simp only [saveVolume, Machine.imageEvent, Machine.imager]
  cases chooseImager (fun t => m.probe t (devPath v.part.device)) o.revoraw v with
  | none => exact ⟨rfl, by simp [SaveState.emit]⟩
  | some t => cases t <;> exact ⟨rfl, by simp [SaveState.emit]⟩

/-- The volume carries the names of the entry that it was made from. -/
structure Volume.Names (v : Volume) (p : PartInfo) (dm : Bool) (num : Int) : Prop where
  part : v.part = p
  isdm : v.isdm = dm
  dnum : v.dnum = num
  poff : v.poff = if dm then 0 else (p.minor % 16).toNat
  tmin : dm = true → v.tmin = 0
  tmin_lt : v.tmin < 2 ^ 32

def isFirst (st : SaveState) (p : PartInfo) : Bool := wholeDisk p || (st.geoStart == 0 && !st.isdm)

theorem saveEntry_whole (m : Machine) (o : SaveOptions) {st : SaveState} {p : PartInfo}
    (dev : BlockDev) (h : isFirst st p = true) :
    (saveEntry m o st p dev).bios = (gethdbios st.bios dev.size).2 ∧
    ∃ raws, (∀ e ∈ raws, e.isRaw = true) ∧ (saveEntry m o st p dev).trace =
      st.trace ++ (.disk (gethdbios st.bios dev.size).1 p dev.size :: raws) := by
  simp only [isFirst] at h
  simp only [saveEntry, h, if_true]
  generalize hst : (if (st.geoStart == 0 && !st.isdm) =
    true then { st with majorn := devPath p.device } else st) = s
  have hs : s.bios = st.bios ∧ s.trace = st.trace := by
    rw [← hst]
    split <;> exact ⟨rfl, rfl⟩
  obtain ⟨hb, -, raws, hraws, htrace⟩ := newDisk_effect s p dev
  rw [hs.1] at hb htrace
  rw [hs.2] at htrace
  split
  · exact ⟨hb, raws, hraws, htrace⟩
  · obtain ⟨hb', -, -, raws', hraws', htrace'⟩ :=
      savePartInfo_agrees (newDisk s p dev) (if st.isdm = true then 0 else (p.minor % 16).toNat)
    refine ⟨hb'.trans hb, raws ++ raws', fun e he => ?_, ?_⟩
    · exact (List.mem_append.mp he).elim (hraws e) (hraws' e)
    · rw [htrace', htrace, List.append_assoc, List.cons_append]

theorem saveEntry_part (m : Machine) (o : SaveOptions) {st : SaveState} {p : PartInfo}
    (dev : BlockDev) (h : isFirst st p = false) (hdm : st.isdm = true → st.geoStart = 0) :
    (saveEntry m o st p dev).bios = st.bios ∧
    ∃ raws, (∀ e ∈ raws, e.isRaw = true) ∧
      ((saveEntry m o st p dev).trace = st.trace ++ raws ∨
        ∃ v, (saveEntry m o st p dev).trace = st.trace ++ (raws ++ [.partcopy v, m.imageEvent o v]) ∧
          v.Names p st.isdm st.dnum) := by
  obtain ⟨hw, hf⟩ := Bool.or_eq_false_iff.mp h
  simp only [saveEntry, hw, hf, Bool.or_self, Bool.false_eq_true, if_false]
  generalize hpoff : (if st.isdm then 0 else (p.minor % 16).toNat) = poff
  generalize (if st.isdm then 0xFFFFFFFF else m.sfdisk st.majorn poff) = ttype
  generalize hst : (if st.isdm then st else savePartInfo st poff) = s
  have hs : st.Agrees s ∧ s.geoStart = st.geoStart := by
    rw [← hst]
    split
    · exact ⟨.of_trace_eq rfl rfl rfl rfl, rfl⟩
    · exact ⟨savePartInfo_agrees _ _, rfl⟩
  obtain ⟨⟨hb, hi, hn, raws, hraws, htrace⟩, hgeo⟩ := hs
  split
  · exact ⟨hb, raws, hraws, .inl htrace⟩
  · obtain ⟨hb', htrace'⟩ := saveVolume_effect m o s
      ⟨p, s.dnum, poff, s.isdm, s.geoStart % 2 ^ 32,
        (s.geoStart + dev.size + (2 ^ 32 - 1)) % 2 ^ 32, ttype⟩
    refine ⟨hb'.trans hb, raws, hraws, .inr ⟨_, htrace'.trans (by rw [htrace, List.append_assoc]),
      ?_⟩⟩
    exact ⟨rfl, hi, hn, hpoff.symm, fun h => by simp [hgeo, hdm h], Nat.mod_lt _ (by norm_num)⟩

/-- The size with which a turn asks for a disk number, if it does. -/
def Machine.numbers (m : Machine) (lvm : Bool) (p : PartInfo) : Option Nat :=
  if isMapperName p.device && !lvm then none
  else
    match m.openDev (devPath p.device) with
    | none => none
    | some dev =>
      if isMapperName p.device then (if wholeDisk p then some dev.size else none)
      else
        match dev.geo with
        | none => none
        | some start => if wholeDisk p || start == 0 then some dev.size else none

/-- The disk number that a volume of this entry is saved under. -/
def SaveState.volumeNum (st : SaveState) (p : PartInfo) : Int :=
  if isMapperName p.device then 0x1000 + p.minor else st.dnum

/-- One turn either numbers a disk or treats at most one volume; besides it copies sectors. -/
structure Turn (m : Machine) (o : SaveOptions) (st st' : SaveState) (p : PartInfo) : Prop where
  numbered : ∀ size, m.numbers st.shouldBackupLvm p = some size →
    st'.bios = (gethdbios st.bios size).2 ∧
    ∃ raws, (∀ e ∈ raws, e.isRaw = true) ∧
      st'.trace = st.trace ++ (.disk (gethdbios st.bios size).1 p size :: raws)
  other : m.numbers st.shouldBackupLvm p = none →
    st'.bios = st.bios ∧
    ∃ raws, (∀ e ∈ raws, e.isRaw = true) ∧
      (st'.trace = st.trace ++ raws ∨
        ∃ v, st'.trace = st.trace ++ (raws ++ [.partcopy v, m.imageEvent o v]) ∧
          v.Names p (isMapperName p.device) (st.volumeNum p))

theorem Turn.of_none {m : Machine} {o : SaveOptions} {st st' : SaveState} {p : PartInfo}
    (hn : m.numbers st.shouldBackupLvm p = none) (hb : st'.bios = st.bios)
    (ht : st'.trace = st.trace) :
    Turn m o st st' p :=
  ⟨fun size h => by simp [hn] at h, fun _ => ⟨hb, [], by simp, .inl (by simp [ht])⟩⟩

theorem Turn.of_saveEntry {m : Machine} {o : SaveOptions} {st s : SaveState} {p : PartInfo}
    {dev : BlockDev}
    (hn : m.numbers st.shouldBackupLvm p = if isFirst s p then some dev.size else none)
    (hb : s.bios = st.bios) (ht : s.trace = st.trace) (hi : s.isdm = isMapperName p.device)
    (hnum : s.dnum = st.volumeNum p) (hdm : s.isdm = true → s.geoStart = 0) :
    Turn m o st (saveEntry m o s p dev) p := by
  cases hf : isFirst s p with
  | true =>
    obtain ⟨h1, raws, hraws, h2⟩ := saveEntry_whole m o dev hf
    rw [hf, if_pos rfl] at hn
    refine ⟨fun size h => ?_, fun h => by simp [hn] at h⟩
    obtain rfl : dev.size = size := by simpa [hn] using h
    exact ⟨by rw [h1, hb], raws, hraws, by rw [h2, ht, hb]⟩
  | false =>
    obtain ⟨h1, raws, hraws, h2⟩ := saveEntry_part m o dev hf hdm
    rw [hf, if_neg Bool.false_ne_true] at hn
    refine ⟨fun size h => by simp [hn] at h, fun _ => ⟨by rw [h1, hb], raws, hraws, ?_⟩⟩
    rcases h2 with h2 | ⟨v, h2, hv⟩
    · exact .inl (by rw [h2, ht])
    · exact .inr ⟨v, by rw [h2, ht], by rwa [hi, hnum] at hv⟩

theorem saveStep_turn (m : Machine) (o : SaveOptions) (st : SaveState) (p : PartInfo) :
    Turn m o st (saveStep m o st p) p := by
  generalize hg : (if wholeDisk p then guessBoundary m st p else st) = g
  have hag : g.bios = st.bios ∧ g.dnum = st.dnum ∧ g.trace = st.trace ∧
      g.shouldBackupLvm = st.shouldBackupLvm := by
    rw [← hg]
    split
    · obtain ⟨⟨hb, -, hn, -⟩, ht, hl⟩ := guessBoundary_agrees m st p
      exact ⟨hb, hn, ht, hl⟩
    · exact ⟨rfl, rfl, rfl, rfl⟩
  obtain ⟨hb, hnum, ht, hlvm⟩ := hag
  simp only [saveStep, hg, hlvm]
  cases hm : isMapperName p.device with
  | true =>
    cases hl : st.shouldBackupLvm with
    | false => exact .of_none (by simp [Machine.numbers, hm, hl]) hb ht
    | true =>
      cases ho : m.openDev (devPath p.device) with
      | none => exact .of_none (by simp [Machine.numbers, ho]) hb ht
      | some dev =>
        exact .of_saveEntry (by simp [Machine.numbers, hm, hl, ho, isFirst]) hb ht hm.symm
          (by simp [SaveState.volumeNum, hm]) (fun _ => rfl)
  | false =>
    cases ho : m.openDev (devPath p.device) with
    | none => exact .of_none (by simp [Machine.numbers, hm, ho]) hb ht
    | some dev =>
      simp only [Bool.false_and, Bool.false_eq_true, if_false]
      cases hgeo : dev.geo with
      | none => exact .of_none (by simp [Machine.numbers, hm, ho, hgeo]) hb ht
      | some start =>
        exact .of_saveEntry (by simp [Machine.numbers, hm, ho, hgeo, isFirst]) hb ht hm.symm
          (by simp [SaveState.volumeNum, hm, hnum]) (fun h => by simp at h)

/-- Copies of sectors say nothing about disks and volumes. -/
theorem filterMap_raws {α : Type} {f : SaveEvent → Option α} (hf : ∀ e, e.isRaw = true → f e = none)
    {raws : List SaveEvent} (h : ∀ e ∈ raws, e.isRaw = true) : raws.filterMap f = [] := by
  rw [List.filterMap_eq_nil_iff]
  exact fun e he => hf e (h e he)

theorem disk?_raw (e : SaveEvent) (h : e.isRaw = true) : e.disk? = none := by
  cases e <;> simp_all [SaveEvent.isRaw, SaveEvent.disk?]

theorem Turn.disks {m : Machine} {o : SaveOptions} {st st' : SaveState} {p : PartInfo}
    (h : Turn m o st st' p) :
    st'.disks = st.disks ++ ((m.numbers st.shouldBackupLvm p).map
      (fun size => ⟨(gethdbios st.bios size).1, p, size⟩)).toList := by
  cases hn : m.numbers st.shouldBackupLvm p with
  | some size =>
    obtain ⟨-, raws, hraws, ht⟩ := h.numbered size hn
    simp [SaveState.disks, ht, filterMap_raws disk?_raw hraws, SaveEvent.disk?]
  | none =>
    obtain ⟨-, raws, hraws, ht | ⟨v, ht, -⟩⟩ := h.other hn
    · simp [SaveState.disks, ht, filterMap_raws disk?_raw hraws]
    · have hev : [SaveEvent.partcopy v, m.imageEvent o v].filterMap SaveEvent.disk? = [] := by
        simp only [Machine.imageEvent]
        split <;> rfl
      simp [SaveState.disks, ht, filterMap_raws disk?_raw hraws, hev]

theorem volume?_raw (e : SaveEvent) (h : e.isRaw = true) : e.volume? = none := by
  cases e <;> simp_all [SaveEvent.isRaw, SaveEvent.volume?]

theorem mem_image_append {es es' : List SaveEvent} {t : Imager} {w : Volume}
    (h : SaveEvent.image t w ∉ es') : SaveEvent.image t w ∈ es ++ es' ↔ SaveEvent.image t w ∈ es := by
  simp [h]

/-- A turn adds the volumes of its entry, and the images of those that have a tool. -/
theorem Turn.volumes {m : Machine} {o : SaveOptions} {st st' : SaveState} {p : PartInfo}
    (h : Turn m o st st' p) :
    ∃ vs, (∀ v ∈ vs, v.Names p (isMapperName p.device) (st.volumeNum p)) ∧
      st'.volumes = st.volumes ++ vs ∧
      ∀ t w, .image t w ∈ st'.trace ↔ .image t w ∈ st.trace ∨ w ∈ vs ∧ m.imager o w = some t := by
  have hraw : ∀ raws : List SaveEvent, (∀ e ∈ raws, e.isRaw = true) →
      ∀ t w, SaveEvent.image t w ∉ raws :=
    fun raws hraws t w hmem => absurd (hraws _ hmem) (by simp [SaveEvent.isRaw])
  cases hn : m.numbers st.shouldBackupLvm p with
  | some size =>
    obtain ⟨-, raws, hraws, ht⟩ := h.numbered size hn
    refine ⟨[], by simp, ?_, fun t w => ?_⟩
    · have hev : (SaveEvent.disk (gethdbios st.bios size).1 p size).volume? = none := rfl
      simp [SaveState.volumes, ht, filterMap_raws volume?_raw hraws, hev]
    · rw [ht, mem_image_append (by simp [hraw raws hraws t w])]
      simp
  | none =>
    obtain ⟨-, raws, hraws, ht | ⟨v, ht, hv⟩⟩ := h.other hn
    · refine ⟨[], by simp, ?_, fun t w => ?_⟩
      · simp [SaveState.volumes, ht, filterMap_raws volume?_raw hraws]
      · rw [ht, mem_image_append (hraw raws hraws t w)]
        simp
    · refine ⟨[v], by simpa using hv, ?_, fun t w => ?_⟩
      · have hev : [SaveEvent.partcopy v, m.imageEvent o v].filterMap SaveEvent.volume? = [v] := by
          simp only [Machine.imageEvent]
          split <;> rfl
        simp [SaveState.volumes, ht, filterMap_raws volume?_raw hraws, hev]
      · have hev : SaveEvent.image t w = m.imageEvent o v ↔ w = v ∧ m.imager o w = some t := by
          simp only [Machine.imageEvent]
          split
          · rename_i hi
            simp only [reduceCtorEq, false_iff, not_and]
            rintro rfl h
            simp [hi] at h
          · rename_i t' hi
            simp only [SaveEvent.image.injEq]
            constructor
            · rintro ⟨rfl, rfl⟩
              exact ⟨rfl, hi⟩
            · rintro ⟨rfl, h⟩
              exact ⟨Option.some.inj (h.symm.trans hi), rfl⟩
        rw [ht, List.mem_singleton, ← hev]
        simp [hraw raws hraws t w]

theorem saveLoop_eq (m : Machine) (o : SaveOptions) {fuel : Nat} {it : PartIter} (st : SaveState)
    (hit : it.file.Sound) (hfuel : it.left < fuel) :
    saveLoop m o fuel it st = (it.entries m.toPartSource).foldl (saveStep m o) st := by
  induction fuel generalizing it st with
  | zero => omega
  | succ fuel ih =>
    have hnext := getNextpart_entries m.toPartSource hit
    simp only [saveLoop]
    revert hnext
    cases getNextpart m.toPartSource it with
    | none => exact fun h => by rw [h, List.foldl_nil]
    | some r =>
      rintro ⟨h, hs, hlt⟩
      rw [h, List.foldl_cons]
      exact ih _ hs (by omega)

theorem save_eq (m : Machine) (o : SaveOptions) :
    save m o = m.entries.foldl (saveStep m o) (SaveState.start o) :=
  saveLoop_eq m o _ (openText_sound _) (Nat.lt_succ_self _)

theorem save_induction {m : Machine} {o : SaveOptions} {P : List PartInfo → SaveState → Prop}
    (h0 : P [] (SaveState.start o))
    (hstep : ∀ ps p st, P ps st → Turn m o st (saveStep m o st p) p →
      P (ps ++ [p]) (saveStep m o st p)) :
    P m.entries (save m o) := by
  rw [save_eq]
  generalize m.entries = ps
  induction ps using List.reverseRecOn with
  | nil => exact h0
  | append_singleton ps p ih =>
    rw [List.foldl_concat]
    exact hstep ps p _ ih (saveStep_turn m o _ p)

/-- How the names of a volume come from its entry. -/
structure Volume.FromEntry (v : Volume) : Prop where
  isdm : v.isdm = isMapperName v.part.device
  poff : v.poff = if v.isdm then 0 else (v.part.minor % 16).toNat
  dnum : v.isdm = true → v.dnum = 0x1000 + v.part.minor
  tmin : v.isdm = true → v.tmin = 0
  tmin_lt : v.tmin < 2 ^ 32

theorem Volume.Names.fromEntry {v : Volume} {p : PartInfo} {st : SaveState}
    (h : v.Names p (isMapperName p.device) (st.volumeNum p)) : v.FromEntry := by
  obtain ⟨rfl, hi, hn, hp, h0, hlt⟩ := h
  refine ⟨hi, by rw [hp, hi], fun hdm => ?_, fun hdm => h0 (hi ▸ hdm), hlt⟩
  rw [hn, SaveState.volumeNum, ← hi, if_pos hdm]

theorem volumes_fromEntry (m : Machine) (o : SaveOptions) :
    ∀ v ∈ (save m o).volumes, v.part ∈ m.entries ∧ v.FromEntry := by
  refine save_induction (P := fun ps st => ∀ v ∈ st.volumes, v.part ∈ ps ∧ v.FromEntry)
    (fun v hv => absurd hv List.not_mem_nil) (fun ps p st ih ht v hv => ?_)
  obtain ⟨vs, hvs, hvol, -⟩ := ht.volumes
  rw [hvol, List.mem_append] at hv
  rcases hv with hv | hv
  · exact ⟨List.mem_append_left _ (ih v hv).1, (ih v hv).2⟩
  · exact ⟨by simp [(hvs v hv).part], (hvs v hv).fromEntry⟩

/-- An image tool is run exactly for the volumes in `conf.txt` for which one is found. -/
theorem image_mem_trace_iff (m : Machine) (o : SaveOptions) (t : Imager) (v : Volume) :
    .image t v ∈ (save m o).trace ↔ v ∈ (save m o).volumes ∧ m.imager o v = some t := by
  refine save_induction
    (P := fun _ st => .image t v ∈ st.trace ↔ v ∈ st.volumes ∧ m.imager o v = some t)
    ⟨fun h => absurd h List.not_mem_nil, fun h => absurd h.1 List.not_mem_nil⟩
      (fun ps p st ih ht => ?_)
  obtain ⟨vs, -, hvol, himage⟩ := ht.volumes
  rw [himage, ih, hvol, List.mem_append, or_and_right]

theorem mem_saved_iff {st : SaveState} {v : Volume} : v ∈ st.saved ↔ ∃ t, .image t v ∈ st.trace := by
  rw [SaveState.saved, List.mem_filterMap]
  constructor
  · rintro ⟨e, he, h⟩
    cases e <;> simp_all [SaveEvent.saved?]
    exact ⟨_, he⟩
  · rintro ⟨t, ht⟩
    exact ⟨_, ht, rfl⟩

theorem saved_fromEntry (m : Machine) (o : SaveOptions) :
    ∀ v ∈ (save m o).saved, v.part ∈ m.entries ∧ v.FromEntry := by
  intro v hv
  obtain ⟨t, ht⟩ := mem_saved_iff.mp hv
  exact volumes_fromEntry m o v ((image_mem_trace_iff m o t v).mp ht).1

/-- autosave without options, `hdmap` file and `exclude` file. -/
def plainSave : SaveOptions := ⟨ascii "/revosave", false, none, fun _ => 0⟩

end PulseImaging
