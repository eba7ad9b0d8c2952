import PulseImaging.LittleEndian
import PulseImaging.SeekDevice
import PulseImaging.CText

/-! `image_ntfs.c`: the sector bitmap of a volume is made from the runs of `$Bitmap`.
The tools are built for the i386, where `long` and addresses have 32 bits. -/

namespace PulseImaging

/-- A file system that `parse_boot` accepts. -/
structure NtfsBoot where
  spc : Nat
  sectors : Nat
  spc_mem : spc ∈ [1, 2, 4, 8, 16, 32, 64, 128]
  sectors_lt : sectors < 2 ^ 64

def NtfsBoot.clustSize (boot : NtfsBoot) : Nat := 512 * boot.spc

/-- The device, or a regular file. -/
structure VolumeFile where
  content : Content
  size : Nat

/-- `1L << n`: the processor takes the count modulo 32. -/
def longShift (n : Nat) : Int := ((2 : Int) ^ (n % 32)).bmod (2 ^ 32)

/-- Conversion to `signed long long`. -/
def toLL (z : Int) : Int := z.bmod (2 ^ 64)

/-! ### Data runs -/

/-- The bytes are read from the last one on. -/
def runLength (s : List Byte) : Nat := s.foldr (fun b length => (256 * length + b.toNat) % 2 ^ 64) 0

def runOffset (s : List Byte) : Int :=
  let offset := s.foldr (fun b offset => toLL (256 * offset + b.toNat)) 0
  if s.getLast?.any (0x80 ≤ ·) then toLL (offset - longShift (8 * s.length)) else offset

/-- The length and the cluster of the data run at `ptr`, and what follows it. -/
def nextRun (loffset : Int) : List Byte → Option (Nat × Int × List Byte)
  | [] => none
  | h :: s =>
    let n2 := h.toNat % 16
    let n1 := h.toNat / 16
    if n2 + n1 ≤ s.length then
      some (runLength (s.take n2), toLL (runOffset ((s.drop n2).take n1) + loffset), s.drop (n2 + n1))
    else none

/-- The first `n` data runs. -/
def nextRuns : Nat → Int → List Byte → Option (List (Nat × Int))
  | 0, _, _ => some []
  | n + 1, loffset, ptr =>
    (nextRun loffset ptr).bind (fun x => (nextRuns n x.2.1 x.2.2).map ((x.1, x.2.1) :: ·))

/-! ### The bitmap -/

/-- `ptr[nb >> 3] |= mask[nb & 7]` at `p->bitmap + cur`; nothing may be stored behind the bitmap. -/
def setbit (bitmap : List Byte) (cur nb : Nat) : Option (List Byte) :=
  bitmap[cur + nb >>> 3]?.map (fun b => bitmap.set (cur + nb >>> 3) (b ||| masks.getD (nb &&& 7) 0))

/-- The difference of two pointers is an `int` and `nb` an `unsigned long`. -/
def NtfsBoot.inVolume (boot : NtfsBoot) (cur nb : Nat) : Bool := (8 * cur + nb) % 2 ^ 32 < boot.sectors

/-- The loop over `l`. -/
def setSectors (boot : NtfsBoot) (cur : Nat) (set : Bool) : Nat → Nat → List Byte → Option (List Byte)
  | 0, _, bitmap => some bitmap
  | l + 1, nb, bitmap =>
    (if set && boot.inVolume cur nb then setbit bitmap cur nb else some bitmap).bind
      (setSectors boot cur set l (nb + 1))

/-- The loops over the bytes and the bits of a cluster. -/
def setClusters (boot : NtfsBoot) (cur : Nat) : List Bool → Nat → List Byte → Option (List Byte)
  | [], _, bitmap => some bitmap
  | set :: bs, nb, bitmap =>
    (setSectors boot cur set boot.spc nb bitmap).bind (setClusters boot cur bs (nb + boot.spc))

/-- `fread` of one cluster. -/
def readCluster (file : VolumeFile) (pos lg : Nat) : Option (List Byte) :=
  if pos + lg ≤ file.size then some (slice file.content pos lg) else none

/-- `fseeko` refuses what is not an `off_t`. -/
def seekCluster (boot : NtfsBoot) (offset : Int) : Option Nat :=
  let pos := ((offset % 2 ^ 64).toNat * boot.clustSize) % 2 ^ 64
  if pos < 2 ^ 63 then some pos else none

/-! ### The record -/

/-- What `PARAMS`, `CPARAMS` and `fn` hold. -/
structure BitmapParams where
  filelg : Nat
  bitmaplg : Nat
  bitmap : List Byte
  fn : List Byte

/-- `calloc`, of which too much ends the program. -/
def calloc (memory n : Nat) : Option (List Byte) := if n ≤ memory then some (List.replicate n 0) else none

/-- The little-endian number of `n` bytes at `off`. -/
def numberAt (n : Nat) (ptr : List Byte) (off : Nat) : Option Nat :=
  if off + n ≤ ptr.length then some (leValue ((ptr.drop off).take n)) else none

/-- The first attribute: behind the update sequence if that is where the header ends. -/
def firstAttribute (entry : List Byte) : Nat :=
  0x30 + if entry[4]? = some 0x30 ∧ entry[5]? = some 0 then
    (2 * ((entry.getD 6 0).toNat + 256 * (entry.getD 7 0).toNat) + 3) &&& 0xFFF8
  else 0

end PulseImaging
