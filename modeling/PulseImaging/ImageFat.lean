import PulseImaging.BitmapMarks

/-! `image_fat.c`: the sector bitmap of a FAT volume is made from its first FAT. The
assertion on the size of `FAT` holds where `long` has 32 bits. -/

namespace PulseImaging

/-- The device: its boot sector and what follows. -/
structure FatVolume where
  bootsect : List Byte
  rest : List Byte
  bootsect_length : bootsect.length = 512

/-! ### The fields of `FAT` -/

def FatVolume.field (vol : FatVolume) (n off : Nat) : Nat := leValue ((vol.bootsect.drop off).take n)

def FatVolume.bytsPerSec (vol : FatVolume) : Nat := vol.field 2 11

def FatVolume.secPerClus (vol : FatVolume) : Nat := vol.field 1 13

def FatVolume.rsvdSecCnt (vol : FatVolume) : Nat := vol.field 2 14

def FatVolume.numFATs (vol : FatVolume) : Nat := vol.field 1 16

def FatVolume.rootEntCnt (vol : FatVolume) : Nat := vol.field 2 17

def FatVolume.totSec16 (vol : FatVolume) : Nat := vol.field 2 19

def FatVolume.fatSz16 (vol : FatVolume) : Nat := vol.field 2 22

def FatVolume.totSec32 (vol : FatVolume) : Nat := vol.field 4 32

def FatVolume.fatSz32 (vol : FatVolume) : Nat := vol.field 4 36

/-! ### `check_bootsect` -/

def FatVolume.nbSect (vol : FatVolume) : Nat := if vol.totSec16 ≠ 0 then vol.totSec16 else vol.totSec32

def FatVolume.fatSize (vol : FatVolume) : Nat := if vol.fatSz16 ≠ 0 then vol.fatSz16 else vol.fatSz32

def FatVolume.rootDirSectors (vol : FatVolume) : Nat :=
  (vol.rootEntCnt * 32 + (vol.bytsPerSec - 1)) / vol.bytsPerSec % 2 ^ 16

def FatVolume.firstDataSector (vol : FatVolume) : Nat :=
  (vol.rsvdSecCnt + vol.numFATs * vol.fatSize + vol.rootDirSectors) % 2 ^ 32

/-- `nb_sect` is a `long long`, the result a `long`. -/
def FatVolume.clusters (vol : FatVolume) : Int :=
  (((2 ^ 64 + vol.nbSect - vol.firstDataSector) % 2 ^ 64 / vol.secPerClus : Nat) : Int).bmod (2 ^ 32)

/-- What `PARAMS` and `CPARAMS` hold. -/
structure FatParams where
  nbSect : Nat
  secPerClus : Nat
  firstDataSector : Nat
  fat32 : Bool
  fat : List Byte

/-- The memory has the bytes that were there before. -/
def malloc (memory : Nat) (old : Nat → Byte) (n : Nat) : Option (List Byte) :=
  if n ≤ memory then some ((List.range n).map old) else none

/-- What `fread` delivers goes to the front of `buf`. -/
def freadTo (buf data : List Byte) : Fate (List Byte) :=
  if data.length ≤ buf.length then .done (data ++ buf.drop data.length) else .fault

/-- The reserved sectors but the boot sector, which was read already. -/
def skipSectors : Nat → List Byte → List Byte
  | 0, f => f
  | n + 1, f => skipSectors n (f.drop 512)

def FatVolume.readFat (memory : Nat) (old : Nat → Byte) (vol : FatVolume) : Fate (List Byte) :=
  match malloc memory old (vol.fatSize * 512 % 2 ^ 32) with
  | none => .exit
  | some fat => freadTo fat ((skipSectors (vol.rsvdSecCnt - 1) vol.rest).take (512 * vol.fatSize))

def checkBootsect (memory : Nat) (old : Nat → Byte) (vol : FatVolume) : Fate FatParams :=
  .orExit (vol.bytsPerSec = 512) (.orExit (vol.secPerClus ≠ 0) (.orExit (vol.rsvdSecCnt ≠ 0)
    (.orExit (vol.numFATs = 2) (.orExit (4085 ≤ vol.clusters)
      ((vol.readFat memory old).bind (fun fat =>
        .done ⟨vol.nbSect, vol.secPerClus, vol.firstDataSector, decide (65525 ≤ vol.clusters), fat⟩))))))

/-! ### `allocated_sectors` -/

/-- An entry has the size of a `long` or of a `short`. -/
def FatParams.width (cp : FatParams) : Nat := if cp.fat32 then 4 else 2

def checkFAT (cp : FatParams) (shift i : Nat) : Fate Bool :=
  let clustnb := (2 + ((2 ^ 32 + i - cp.firstDataSector) % 2 ^ 32) >>> shift) % 2 ^ 32
  (Fate.ofAccess (numberAt cp.width cp.fat (cp.width * clustnb))).bind (fun ent => .done (ent != 0))

def clusterShift (secPerClus : Nat) : Option Nat :=
  if secPerClus = 1 then some 0 else if secPerClus = 2 then some 1 else if secPerClus = 4 then some 2
  else if secPerClus = 8 then some 3 else if secPerClus = 16 then some 4 else if secPerClus = 32 then some 5
  else if secPerClus = 64 then some 6 else if secPerClus = 128 then some 7 else none

/-- Up to the first data sector everything is allocated. -/
def allocatedSectorsFat (cp : FatParams) : Fate (List Byte) :=
  match clusterShift cp.secPerClus with
  | none => .exit
  | some shift =>
    (markAll cp.firstDataSector (List.replicate ((cp.nbSect + 7) / 8 % 2 ^ 32) 0)).bind
      (markLoop (checkFAT cp shift) id (List.range' cp.firstDataSector (cp.nbSect - cp.firstDataSector)))

/-- Both on one volume. -/
def imageFat (memory : Nat) (old : Nat → Byte) (vol : FatVolume) : Fate (List Byte) :=
  (checkBootsect memory old vol).bind allocatedSectorsFat

end PulseImaging
