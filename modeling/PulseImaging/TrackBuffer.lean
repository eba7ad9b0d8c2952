import PulseImaging.SectorVisit

/-! The disks as the bootloader reads them: the BIOS calls behind `biosdisk`, and the track that
`rawread` keeps in memory from `BUFFERADDR` on. -/

namespace PulseImaging

def BUFFERLEN : Nat := 0x7e00

def BIOSDISK_ERROR_GEOMETRY : Nat := 0x100

inductive GrubErr
  | badFilename
  | badFiletype
  | badPartTable
  | devFormat
  | devValues
  | fileLength
  | fileNotFound
  | fsysCorrupt
  | fsysMount
  | geom
  | noDisk
  | noPart
  | numberParsing
  | outsidePart
  | read
  | write
  deriving DecidableEq, Repr

/-- The numbers of the old interface; a sector number has six bits there and counts from one. -/
structure ChsInfo where
  cylinders : Nat
  heads : Nat
  sectors : Nat
  heads_pos : 0 < heads
  sectors_pos : 0 < sectors
  sectors_le : sectors ≤ 63

/-- The number of sectors that the old interface reaches. -/
def ChsInfo.capacity (i : ChsInfo) : Nat := i.cylinders * i.heads * i.sectors

/-- What the BIOS tells about a drive, and the bytes on it. -/
structure Drive where
  content : Content
  /-- The drive parameters of the extended interface: all sectors, and the product of cylinders, heads
  and sectors. -/
  extended : Option (Nat × Nat)
  standard : Option ChsInfo
  floppy : Option ChsInfo

/-- `struct geometry` -/
structure Geometry where
  cylinders : Nat
  heads : Nat
  sectors : Nat
  /-- `BIOSDISK_FLAG_LBA_EXTENSION` -/
  lba : Bool
  total_sectors : Nat
  deriving DecidableEq, Repr

/-- The numbers by which the BIOS finds a sector in the old interface. -/
def Drive.translation (d : Drive) (drive : Nat) : Option ChsInfo :=
  if drive.testBit 7 then d.standard else d.standard.or d.floppy

def Drive.totalSectors (d : Drive) : Nat :=
  match d.extended with
  | none => 0
  | some (total, product) => (if total = 0 then product else total) % 2 ^ 32

def getDiskinfo (drive : Nat) (d : Drive) : Option Geometry :=
  (d.translation drive).map fun i =>
    let total := if drive.testBit 7 then d.totalSectors else 0
    { cylinders := i.cylinders
      heads := i.heads
      sectors := i.sectors
      lba := drive.testBit 7 && d.extended.isSome
      total_sectors := if total = 0 then i.capacity else total }

/-- The BIOS can be asked for the bytes in front of `stop`: the old interface ends where its cylinders do. -/
def Drive.Reaches (d : Drive) (drive stop : Nat) : Prop :=
  (drive.testBit 7 && d.extended.isSome) = true ∨ ∀ i, d.translation drive = some i → stop ≤ 512 * i.capacity

theorem Drive.Reaches.mono {d : Drive} {drive start stop : Nat} (h : d.Reaches drive stop)
    (hle : start ≤ stop) :
    d.Reaches drive start :=
  h.imp_right fun h i hi => hle.trans (h i hi)

/-- Where the BIOS finds a cylinder, head and sector. -/
def Drive.blockOf (d : Drive) (drive cylinder head sector : Nat) : Nat :=
  match d.translation drive with
  | none => 0
  | some i => (cylinder * i.heads + head) * i.sectors + (sector - 1)

theorem chs_sector {heads sectors : Nat} (sector : Nat) :
    (sector / sectors / heads * heads + sector / sectors % heads) * sectors + sector % sectors =
      sector := by
  rw [Nat.div_add_mod' (sector / sectors) heads, Nat.div_add_mod' sector sectors]

/-- `dap.block = sector` widens an `int`. -/
def dapBlock (sector : Nat) : Nat := if sector < 2 ^ 31 then sector else sector + (2 ^ 64 - 2 ^ 32)

theorem dapBlock_eq_iff {sector : Nat} : dapBlock sector = sector ↔ sector < 2 ^ 31 := by
  rw [dapBlock]
  split <;> omega

/-- The behaviour of interrupt 0x13 that the bootloader cannot foresee, call by call: the error (0 for
none), and what a failed call leaves behind. -/
structure Int13 where
  extendedErr : Nat → Nat → Nat → Nat → Nat
  standardErr : Nat → Nat → Nat × Nat × Nat → Nat → Nat
  spoiled : Nat → List Byte → List Byte
  spoiled_length : ∀ n buffer, (spoiled n buffer).length = buffer.length
  /-- The sectors of a failed write, from what was on the disk and what was to be written. -/
  torn : Nat → List Byte → List Byte → List Byte
  torn_length : ∀ n old new, (torn n old new).length = old.length
  /-- The geometry behind a failed `get_diskinfo`. -/
  misprobed : Nat → Geometry → Geometry

structure Int13.Faultless (B : Int13) : Prop where
  extended : ∀ n drive block blocks, B.extendedErr n drive block blocks = 0
  standard : ∀ n drive chs blocks, B.standardErr n drive chs blocks = 0

/-- A BIOS that serves every call. -/
def DiskIo.quietBios : Int13 where
  extendedErr _ _ _ _ := 0
  standardErr _ _ _ _ := 0
  spoiled _ buffer := buffer
  spoiled_length _ _ := rfl
  torn _ old _ := old
  torn_length _ _ _ := rfl
  misprobed _ g := g

inductive Subfunc
  | read
  | write (data : List Byte)

/-- The variables of the disk layer. -1 in `buf_drive` and `buf_track` is `none`. -/
structure DiskIo where
  drives : Nat → Drive
  calls : Nat
  errnum : Option GrubErr
  buf_drive : Option Nat
  buf_track : Option Nat
  buf_geom : Geometry
  /-- Memory from `BUFFERADDR` on. -/
  buffer : List Byte

namespace DiskIo

def withContent (s : DiskIo) (drive : Nat) (c : Content) : DiskIo :=
  { s with drives := Function.update s.drives drive { s.drives drive with content := c } }

/-- A call that moves `nsec` sectors from block `block` on. -/
def moved (s : DiskIo) (drive block nsec : Nat) : Subfunc → DiskIo
  | .read =>
    let data := slice (s.drives drive).content (512 * block) (512 * nsec)
    { s with calls := s.calls + 1, buffer := data ++ s.buffer.drop data.length }
  | .write data =>
    { s with calls := s.calls + 1 }.withContent drive
      (patch (s.drives drive).content (512 * block) (data.take (512 * nsec)))

def failed (B : Int13) (s : DiskIo) (drive block nsec : Nat) : Subfunc → DiskIo
  | .read => { s with calls := s.calls + 1, buffer := B.spoiled s.calls s.buffer }
  | .write data =>
    let c := (s.drives drive).content
    let old := slice c (512 * block) (data.take (512 * nsec)).length
    { s with calls := s.calls + 1 }.withContent drive
      (patch c (512 * block) (B.torn s.calls old (data.take (512 * nsec))))

/-- The branch of `biosdisk` without `BIOSDISK_FLAG_LBA_EXTENSION`. -/
def biosdiskStandard (B : Int13) (f : Subfunc) (drive sector nsec : Nat) (s : DiskIo) : Nat × DiskIo :=
  let head := sector / s.buf_geom.sectors
  let head_offset := head % s.buf_geom.heads
  let cylinder_offset := head / s.buf_geom.heads
  let sector_offset := sector % s.buf_geom.sectors + 1
  if s.buf_geom.cylinders ≤ cylinder_offset then (BIOSDISK_ERROR_GEOMETRY, s)
  else
    let block := (s.drives drive).blockOf drive cylinder_offset head_offset sector_offset
    let err := B.standardErr s.calls drive (cylinder_offset, head_offset, sector_offset) nsec
    if err = 0 then (0, s.moved drive block nsec f) else (err, s.failed B drive block nsec f)

/-- `biosdisk (f, drive, &buf_geom, sector, nsec, segment)`, built with `NO_INT13_FALLBACK`: a failed extended
call is not made again in the old interface. -/
def biosdisk (B : Int13) (f : Subfunc) (drive sector nsec : Nat) (s : DiskIo) : Nat × DiskIo :=
  if s.buf_geom.lba then
    let err := B.extendedErr s.calls drive (dapBlock sector) nsec
    if err = 0 then (0, s.moved drive (dapBlock sector) nsec f)
    else (err, s.failed B drive (dapBlock sector) nsec f)
  else biosdiskStandard B f drive sector nsec s

/-- The test for `buf_drive` in `rawread` and `real_open_partition`. -/
def probe (B : Int13) (drive : Nat) (s : DiskIo) : Bool × DiskIo :=
  if s.buf_drive = some drive then (true, s)
  else
    match getDiskinfo drive (s.drives drive) with
    | none => (false, { s with errnum := some .noDisk, buf_geom := B.misprobed drive s.buf_geom })
    | some g => (true, { s with buf_geom := g, buf_drive := some drive, buf_track := none })

def withTrack (s : DiskIo) (track : Option Nat) : DiskIo := { s with buf_track := track }

def raise (s : DiskIo) (e : GrubErr) : DiskIo := { s with errnum := some e }

/-- What a turn of `rawread` reads if `num_sect` sectors of the track are left: the first sector, the
number of sectors, and `bufaddr` counted from `BUFFERADDR`. Only the last turn takes a whole track. -/
def readPlan (sectors sector byte_offset slen : Nat) : Nat × Nat × Nat :=
  let soff := sector % sectors
  let num_sect := sectors - soff
  if num_sect < slen then (sector, num_sect, byte_offset)
  else (sector - soff, sectors, soff * 512 + byte_offset)

/-- The part of a turn of `rawread` that fills the buffer, with `bufaddr`. -/
def fill (B : Int13) (drive sector byte_offset slen : Nat) (s : DiskIo) : Nat × DiskIo :=
  let soff := sector % s.buf_geom.sectors
  let track := sector - soff
  if s.buf_track = some track then (soff * 512 + byte_offset, s)
  else
    let plan := readPlan s.buf_geom.sectors sector byte_offset slen
    let r := biosdisk B .read drive plan.1 plan.2.1 s
    if r.1 = 0 then (plan.2.2, r.2.withTrack (some track))
    else if r.1 = BIOSDISK_ERROR_GEOMETRY then (plan.2.2, (r.2.withTrack none).raise .geom)
    else if s.buf_geom.sectors - soff < slen then (byte_offset, (r.2.withTrack none).raise .read)
    else
      -- only the required sectors, rather than failing completely
      let r := biosdisk B .read drive sector slen (r.2.withTrack none)
      if r.1 = 0 then (byte_offset, r.2) else (byte_offset, r.2.raise .read)

/-- The loop of `rawread`: the value it returns, and the bytes that came into `buf`. -/
def rawreadLoop (B : Int13) (drive : Nat) :
    Nat → Nat → Nat → Nat → Nat → List Byte → DiskIo → Bool × List Byte × DiskIo
  | 0, _, _, _, _, buf, s => (s.errnum.isNone, buf, s)
  | fuel + 1, sector, byte_offset, byte_len, slen, buf, s =>
    if byte_len = 0 ∨ s.errnum ≠ none then (s.errnum.isNone, buf, s)
    else
      match s.probe B drive with
      | (false, s) => (false, buf, s)
      | (true, s) =>
        let num_sect := s.buf_geom.sectors - sector % s.buf_geom.sectors
        let r := s.fill B drive sector byte_offset slen
        let size := min byte_len (num_sect * 512 - byte_offset)
        rawreadLoop B drive fuel (sector + num_sect) 0 (byte_len - size) (slen - num_sect)
          (buf ++ (r.2.buffer.drop r.1).take size) r.2

/-- The sectors that `byte_len` bytes from `byte_offset` on reach into. -/
def sectorCount (byte_offset byte_len : Nat) : Nat := (byte_offset + byte_len + 511) / 512

/-- Every turn takes a byte at least. -/
@[irreducible] def rawread (B : Int13) (drive sector byte_offset byte_len : Nat) (s : DiskIo) : Bool × List Byte × DiskIo :=
  if byte_len = 0 then (true, [], s)
  else rawreadLoop B drive byte_len sector byte_offset byte_len (sectorCount byte_offset byte_len) [] s

/-- The partition that is open: `current_drive`, `part_start` and `part_length`. -/
structure OpenPart where
  current_drive : Nat
  part_start : Nat
  part_length : Nat
  deriving DecidableEq, Repr

/-- `devread` in the open partition. -/
def devread (B : Int13) (p : OpenPart) (sector byte_offset byte_len : Nat) (s : DiskIo) :
    Bool × List Byte × DiskIo :=
  if (p.part_length : Int) ≤ sector + ((byte_offset + byte_len : Nat) - 1 : Int) / 512 then
    (false, [], s.raise .outsidePart)
  else
    rawread B p.current_drive (p.part_start + (sector + byte_offset / 512)) (byte_offset % 512) byte_len s

end DiskIo

end PulseImaging
