import PulseImaging.TrackRuns
import PulseImaging.LittleEndian

/-! The partition tables of a disk: the walk of `next_partition` through the MBR and the chain of
extended partitions, `real_open_partition`, and the two functions that change the MBR. -/

namespace PulseImaging

def PC_SLICE_MAX : Nat := 4

def pcMbrCheckSig (mbr : List Byte) : Bool := leValue ((mbr.drop 510).take 2) = 0xaa55

def pcSliceFlag (mbr : List Byte) (part : Nat) : Byte := mbr.getD (446 + 16 * part) 0

def pcSliceType (mbr : List Byte) (part : Nat) : Byte := mbr.getD (446 + 4 + 16 * part) 0

def pcSliceStart (mbr : List Byte) (part : Nat) : Nat := leValue ((mbr.drop (446 + 8 + 16 * part)).take 4)

def pcSliceLength (mbr : List Byte) (part : Nat) : Nat := leValue ((mbr.drop (446 + 12 + 16 * part)).take 4)

def isPcSliceTypeExtended (type : Byte) : Bool := type = 0x5 || type = 0xf || type = 0x85

/-- The variables that `next_partition` works on. -/
structure PartScan where
  partition : Nat
  type : Byte
  start : Nat
  len : Nat
  offset : Nat
  entry : Int
  ext_offset : Nat
  deriving DecidableEq, Repr

/-- The first time, the walk begins at the MBR. In front of the scan stands `pc_slice_no`. -/
def PartScan.begin (p : PartScan) : Int × PartScan :=
  if p.partition / 2 ^ 16 % 256 = 0xff then (-1, { p with offset := 0, ext_offset := 0, entry := -1 })
  else (p.partition / 2 ^ 16 % 256, p)

/-- The first extended partition in a table. -/
def extendedEntry (mbr : List Byte) : Option Nat :=
  (List.range PC_SLICE_MAX).find? fun i => isPcSliceTypeExtended (pcSliceType mbr i)

/-- The number of a slice of type `type` that comes behind number `no`. -/
def sliceNumber (no : Int) (type : Byte) : Int :=
  if no < PC_SLICE_MAX ∨ (isPcSliceTypeExtended type = false ∧ type ≠ 0) then no + 1 else no

def PartScan.advance (p : PartScan) : PartScan := { p with entry := p.entry + 1 }

/-- On to the table of the extended partition in entry `i`. -/
def PartScan.follow (p : PartScan) (mbr : List Byte) (i : Nat) : PartScan :=
  let offset := (p.ext_offset + pcSliceStart mbr i) % 2 ^ 32
  { p with
    offset := offset
    ext_offset := if p.ext_offset = 0 then offset else p.ext_offset
    entry := -1 }

namespace DiskIo

/-- The MBR with `part` as the only active partition. -/
def activate (mbr : List Byte) (part : Nat) : List Byte :=
  ((List.range PC_SLICE_MAX).foldl (fun m i => m.set (446 + 16 * i) 0) mbr).set (446 + 16 * part) 0x80

def writeMbr (B : Int13) (drive : Nat) (mbr : List Byte) (s : DiskIo) : Bool × DiskIo :=
  let r := biosdisk B (.write mbr) drive 0 1 (s.withTrack none)
  if r.1 = 0 then (true, r.2) else (false, r.2.raise .write)

def makeSavedActive (B : Int13) (saved_drive saved_partition : Nat) (s : DiskIo) : Bool × DiskIo :=
  if saved_drive.testBit 7 then
    let part := saved_partition / 2 ^ 16
    if 3 < part then (false, s.raise .noPart)
    else
      match rawread B saved_drive 0 0 512 s with
      | (false, _, s) => (false, s)
      | (true, mbr, s) =>
        if isPcSliceTypeExtended (pcSliceType mbr part) then (false, s.raise .devValues)
        else if pcSliceFlag mbr part ≠ 0x80 then writeMbr B saved_drive (activate mbr part) s
        else (true, s)
  else (false, s.raise .devValues)

def hideType (hidden : Bool) (type : Byte) : Byte := if hidden then type ||| 0x10 else type &&& ~~~0x10

def setPartitionHiddenFlag (B : Int13) (hidden : Bool) (drive partition : Nat) (s : DiskIo) : Bool × DiskIo :=
  if drive.testBit 7 then
    let part := partition / 2 ^ 16
    if 3 < part then (false, s.raise .noPart)
    else
      match rawread B drive 0 0 512 s with
      | (false, _, s) => (false, s)
      | (true, mbr, s) =>
        writeMbr B drive (mbr.set (446 + 4 + 16 * part) (hideType hidden (pcSliceType mbr part))) s
  else (true, s)

end DiskIo

end PulseImaging
