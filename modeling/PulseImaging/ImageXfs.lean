import PulseImaging.CText
import PulseImaging.Fate
import PulseImaging.LittleEndian
import PulseImaging.SeekDevice

/-! `image_xfs.c`: the blocks of the free lists and of the free space trees are cleared in the
bitmap, that has one byte for each block. `size_t` has 32 bits. -/

namespace PulseImaging

/-- The number that the `n` bytes at `off` are, the first byte being the top one. -/
def beAt (n : Nat) (buf : List Byte) (off : Nat) : Nat := leValue ((buf.drop off).take n).reverse

/-- What was not read is not there. -/
def ntohAt (n : Nat) (buf : List Byte) (off : Nat) : Fate Nat :=
  Fate.ofAccess (if off + n ≤ buf.length then some (beAt n buf off) else none)

/-! ### `xfs_superblock` -/

structure XfsVolume where
  content : Content
  size : Nat

/-- What a read puts into the buffer. Behind the volume it is short, and after a seek that failed it is of
another place: what the buffer holds there is not what is asked for. -/
def readdata (vol : XfsVolume) (offset size : Nat) : List Byte :=
  if offset < 2 ^ 63 then slice vol.content offset (min size (vol.size - offset)) else []

def XfsVolume.sb (vol : XfsVolume) : List Byte := readdata vol 0 200

def XfsVolume.sbDblocks (vol : XfsVolume) : Nat := beAt 8 vol.sb 8

def XfsVolume.sbAgblocks (vol : XfsVolume) : Nat := beAt 4 vol.sb 84

def XfsVolume.sbAgcount (vol : XfsVolume) : Nat := beAt 4 vol.sb 88

def XfsVolume.sbFdblocks (vol : XfsVolume) : Nat := beAt 8 vol.sb 144

def checkit (vol : XfsVolume) : Fate Unit :=
  let buf := readdata vol 0 256
  .orExit (buf.length = 256) (.orExit (buf.take 4 = ascii "XFSB") (.orExit (beAt 4 buf 4 = 4096) (.done ())))

/-! ### Places -/

def convertAgbToDaddr (vol : XfsVolume) (agno agblockno : Nat) : Nat :=
  (agno * vol.sbAgblocks + agblockno) % 2 ^ 64 * 4096 % 2 ^ 64

def convertAgToDaddr (vol : XfsVolume) (agno offset : Nat) : Nat :=
  (convertAgbToDaddr vol agno 0 + offset * 512) % 2 ^ 64

def xfsAgfDaddr : Nat := 1

def xfsAgflDaddr : Nat := 3

def xfsAgflSize : Nat := 512 / 4

def xfsAgfMagic : Nat := 0x58414746

/-- `xfs_agf`, the fields that are used. -/
structure XfsAgf where
  seqno : Nat
  root : Nat
  levels : Nat
  flfirst : Nat
  fllast : Nat
  flcount : Nat

def agfBytes (vol : XfsVolume) (i : Nat) : List Byte := readdata vol (convertAgToDaddr vol i xfsAgfDaddr) 60

def xfsAgf (buf : List Byte) : XfsAgf :=
  ⟨beAt 4 buf 8, beAt 4 buf 16, beAt 4 buf 28, beAt 4 buf 40, beAt 4 buf 44, beAt 4 buf 48⟩

def XfsVolume.agf (vol : XfsVolume) (i : Nat) : XfsAgf := xfsAgf (agfBytes vol i)

/-- The fields that are used end at 52. -/
def readAgf (vol : XfsVolume) (i : Nat) : Fate XfsAgf :=
  Fate.ofAccess (if 52 ≤ (agfBytes vol i).length then some (vol.agf i) else none)

def readAgfl (vol : XfsVolume) (agno : Nat) : List Byte := readdata vol (convertAgToDaddr vol agno xfsAgflDaddr) 512

def readBlock (vol : XfsVolume) (agno root : Nat) : List Byte := readdata vol (convertAgbToDaddr vol agno root) 4096

/-! ### `readsb` -/

/-- The bitmap, and the indexes at which it was written to. -/
structure XfsParams where
  bitmap : List Byte
  written : List Nat

def XfsParams.clear (p : XfsParams) (k : Nat) : XfsParams := ⟨p.bitmap.set k 0, p.written ++ [k]⟩

def addtohist (vol : XfsVolume) (p : XfsParams) (agno agblockno len : Nat) : XfsParams :=
  ((List.range len).map (fun i => agno * vol.sbAgblocks + agblockno + i)).foldl XfsParams.clear p

/-- The slots of `agfl` from `i` to `last`. -/
def freelistLoop (vol : XfsVolume) (agno last : Nat) (agfl : List Byte) : Nat → Nat → XfsParams → Fate XfsParams
  | 0, _, _ => .more
  | fuel + 1, i, p =>
    (ntohAt 4 agfl (4 * i)).bind (fun blockno =>
      let p := addtohist vol p agno blockno 1
      if i = last then .done p
      else freelistLoop vol agno last agfl fuel (if i + 1 = xfsAgflSize then 0 else i + 1) p)

def scanFreelist (fuel : Nat) (vol : XfsVolume) (agf : XfsAgf) (p : XfsParams) : Fate XfsParams :=
  if agf.flcount = 0 then .done p
  else freelistLoop vol agf.seqno agf.fllast (readAgfl vol agf.seqno) fuel agf.flfirst p

def bbNumrecs (ablock : List Byte) : Fate Nat := ntohAt 2 ablock 6

/-- The pointers are behind the room for all keys. -/
def xfsMxr : Nat := (4096 - 16) / (8 + 4)

/-- Level 0 is that of the leaves. -/
def scanfuncBno (vol : XfsVolume) (agno : Nat) : Nat → List Byte → XfsParams → Fate XfsParams
  | 0, ablock, p =>
    (bbNumrecs ablock).bind (fun n => Fate.loop (fun p i =>
      (ntohAt 4 ablock (16 + 8 * i)).bind (fun startblock =>
        (ntohAt 4 ablock (16 + 8 * i + 4)).bind (fun blockcount =>
          .done (addtohist vol p agno startblock blockcount)))) (List.range n) p)
  | level + 1, ablock, p =>
    (bbNumrecs ablock).bind (fun n => Fate.loop (fun p i =>
      (ntohAt 4 ablock (16 + xfsMxr * 8 + 4 * i)).bind (fun root =>
        scanfuncBno vol agno level (readBlock vol agno root) p)) (List.range n) p)

def scanSbtree (vol : XfsVolume) (agf : XfsAgf) (root levels : Nat) (p : XfsParams) : Fate XfsParams :=
  scanfuncBno vol agf.seqno ((levels + (2 ^ 32 - 1)) % 2 ^ 32) (readBlock vol agf.seqno root) p

def agLoop (fuel : Nat) (vol : XfsVolume) (p : XfsParams) : Fate XfsParams :=
  Fate.loop (fun p i =>
    (ntohAt 4 (agfBytes vol i) 0).bind (fun magicnum => .orExit (magicnum = xfsAgfMagic)
      ((readAgf vol i).bind (fun agf =>
        (scanFreelist fuel vol agf p).bind (scanSbtree vol agf agf.root agf.levels))))) (List.range vol.sbAgcount) p

/-- `bits`. -/
def nibbleBits : List Nat := [0, 1, 1, 2, 1, 2, 2, 3, 1, 2, 2, 3, 2, 3, 3, 4]

def countUsed (bitmap : List Byte) : Nat :=
  (bitmap.map (fun b : Byte => nibbleBits.getD (b >>> 4).toNat 0 + nibbleBits.getD (b &&& 15).toNat 0)).sum % 2 ^ 64

/-- Too few sectors in use are an error. -/
def verifyCount (vol : XfsVolume) (p : XfsParams) : Fate XfsParams :=
  .orExit ((2 ^ 64 + vol.sbDblocks - vol.sbFdblocks) * 8 % 2 ^ 64 ≤ countUsed p.bitmap) (.done p)

/-- `calloc` and `memset` take a `size_t`. -/
def fullBitmap (vol : XfsVolume) : XfsParams := ⟨List.replicate (vol.sbDblocks % 2 ^ 32) 255, []⟩

/-- Where `calloc` gives `NULL`, `memset` goes there. -/
def freshBitmap (memory : Nat) (vol : XfsVolume) : Fate XfsParams :=
  Fate.ofAccess (if vol.sbDblocks % 2 ^ 32 ≤ memory then some (fullBitmap vol) else none)

/-- The scan, that the loop over the groups is, of a bitmap with all bits set. -/
def scanGroups (fuel memory : Nat) (vol : XfsVolume) : Fate XfsParams := (freshBitmap memory vol).bind (agLoop fuel vol)

def readsb (fuel memory : Nat) (vol : XfsVolume) : Fate XfsParams :=
  .orExit (vol.sb.length = 200) ((scanGroups fuel memory vol).bind (verifyCount vol))

/-- In `main`. -/
def imageXfs (fuel memory : Nat) (vol : XfsVolume) : Fate XfsParams :=
  (checkit vol).bind (fun _ => readsb fuel memory vol)

end PulseImaging
