import PulseImaging.BitmapMarks

/-! `image_lvmreiserfs.c`: the bitmap of the blocks of a ReiserFS becomes one of sectors.
The bitmaps in memory are those of reiserfsprogs; `long` has 32 bits. -/

namespace PulseImaging

/-- Other block sizes end the program. -/
def reiserBlocksize : Nat := 4096

/-- The number of blocks has four bytes on the disk, the number of bitmap blocks two. -/
structure ReiserFs where
  blockCount : Nat
  apBitmap : List (List Byte)
  blockCount_lt : blockCount < 2 ^ 32
  bmapNr_lt : apBitmap.length < 2 ^ 16
  apBitmap_length : ∀ block ∈ apBitmap, block.length = reiserBlocksize

/-- `struct _bitmap`. -/
structure ReiserBitmap where
  byteSize : Nat
  bitSize : Nat
  map : List Byte

/-- `getmem` clears what it hands out. -/
def reiserfsCreateBitmap (bitCount : Nat) : ReiserBitmap :=
  ⟨(bitCount + 7) % 2 ^ 32 / 8, bitCount, List.replicate ((bitCount + 7) % 2 ^ 32 / 8) 0⟩

/-! ### `myreiserfs_fetch_disk_bitmap` -/

/-- `memcpy` to `map + p`. -/
def copyTo (map : List Byte) (p : Nat) (data : List Byte) : Fate (List Byte) :=
  if p + data.length ≤ map.length then .done (map.take p ++ data ++ map.drop (p + data.length)) else .fault

/-- The loop over the bitmap blocks from the `i`th one on. -/
def fetchBlocks (bm : ReiserBitmap) (bmapNr : Nat) : Nat → Nat → Nat → List (List Byte) → List Byte → Fate (List Byte)
  | _, _, _, [], map => .done map
  | i, bytes, p, block :: blocks, map =>
    let bytes := if i = bmapNr - 1 ∧ bm.byteSize % reiserBlocksize ≠ 0 then bm.byteSize % reiserBlocksize else bytes
    (copyTo map p (block.take bytes)).bind (fetchBlocks bm bmapNr (i + 1) bytes (p + bytes) blocks)

def clearBit (nr : Nat) (map : List Byte) : Option (List Byte) :=
  map[nr >>> 3]?.map (fun b => map.set (nr >>> 3) (b &&& ~~~ masks.getD (nr &&& 7) 0))

/-- The unused bits are cleared. -/
def clearUnused (bm : ReiserBitmap) (map : List Byte) : Fate (List Byte) :=
  Fate.loop (fun map i => Fate.ofAccess (clearBit (bm.bitSize + i) map)) (List.range (bm.byteSize * 8 - bm.bitSize)) map

def myreiserfsFetchDiskBitmap (bm : ReiserBitmap) (fs : ReiserFs) : Fate ReiserBitmap :=
  .orExit (bm.bitSize = fs.blockCount)
    (((fetchBlocks bm fs.apBitmap.length 0 reiserBlocksize 0 fs.apBitmap bm.map).bind (clearUnused bm)).bind
      (fun map => .done { bm with map := map }))

/-! ### `allocated_sectors` -/

def reiserfsBitmapTestBit (bm : ReiserBitmap) (bitNumber : Nat) : Fate Bool :=
  .orExit (bitNumber < bm.bitSize) (Fate.ofAccess (testBit bm.map bitNumber))

/-- `blocks` and `offset` are those of `CPARAMS`, which are `long`; the bitmap comes with `nb_sect`. -/
def allocatedSectorsReiser (lvmSect : Nat) (bm : ReiserBitmap) (blocks offset : Nat) : Fate (Nat × List Byte) :=
  let nbSect := blocks * 8 % 2 ^ 32
  let off := offset / 512
  ((markAll off (List.replicate ((nbSect + off + 7) / 8) 0)).bind
    (markLoop (fun i => reiserfsBitmapTestBit bm (i / 8)) (fun i => (i + off) % 2 ^ 32) (List.range nbSect))).bind
    (fun bitmap => .orExit (¬ (nbSect ≠ lvmSect ∧ lvmSect ≠ 0)) (.done (nbSect + off, bitmap)))

/-- What `main` does with the offset that `lvm_check` has found. -/
def imageReiserfs (lvmSect : Nat) (fs : ReiserFs) (offset : Nat) : Fate (Nat × List Byte) :=
  (myreiserfsFetchDiskBitmap (reiserfsCreateBitmap fs.blockCount) fs).bind
    (fun bm => allocatedSectorsReiser lvmSect bm fs.blockCount (offset % 2 ^ 32))

end PulseImaging
