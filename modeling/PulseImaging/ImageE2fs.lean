import PulseImaging.BitmapMarks

/-! `image_e2fs.c`: the block bitmaps of the groups become one bitmap of sectors. `long` and
`blk_t` have 32 bits, the sector pointer is a `long long`. -/

namespace PulseImaging

/-- `ext2_filsys`: the fields of the superblock that are used, and what the library answers. -/
structure Ext2Filsys where
  blockSize : Nat
  blocksPerGroup : Nat
  firstDataBlock : Nat
  blocksCount : Nat
  groupDescCount : Nat
  groupFirstBlock : Nat → Nat
  groupLastBlock : Nat → Nat
  getBlockBitmapRange : Nat → Nat → Option (List Byte)

/-- A failed assertion ends the program. -/
def e2fsSetbit (limit : Nat) (p : List Byte) (num : Nat) : Fate (List Byte) :=
  .orExit (num < limit * 8) (Fate.ofAccess (setbit p 0 num))

/-- The reserved blocks, with `ptr++`. -/
def reservedBlocks (sectPerBlock limit firstDataBlock : Nat) (st : Nat × List Byte) : Fate (Nat × List Byte) :=
  Fate.loop (fun st _ =>
    Fate.loop (fun st _ => (e2fsSetbit limit st.2 st.1).bind (fun p => .done (st.1 + 1, p))) (List.range sectPerBlock) st)
    (List.range firstDataBlock) st

/-- The sectors of one block, with `ptr + k`. -/
def setBlock (sectPerBlock limit ptr : Nat) (p : List Byte) : Fate (List Byte) :=
  Fate.loop (fun p k => e2fsSetbit limit p (ptr + k)) (List.range sectPerBlock) p

/-- The blocks `first` to `last` of a group. -/
def parseBlocks (blocksBitmap : List Byte) (sectPerBlock limit first last : Nat) (st : Nat × List Byte) :
    Fate (Nat × List Byte) :=
  Fate.loop (fun st j =>
    (Fate.ofAccess (testBit blocksBitmap j)).bind (fun inUse =>
      (if inUse then setBlock sectPerBlock limit st.1 st.2 else .done st.2).bind (fun p =>
        .done (st.1 + sectPerBlock, p))))
    (List.range' first (last + 1 - first)) st

structure DescState where
  ptr : Nat
  blkItr : Nat
  bitmap : List Byte

def descGroup (fs : Ext2Filsys) (sectPerBlock limit : Nat) (st : DescState) (i : Nat) : Fate DescState :=
  match fs.getBlockBitmapRange st.blkItr (fs.blocksPerGroup / 8 * 8) with
  | none => .exit
  | some blocksBitmap =>
    let firstBlock := fs.groupFirstBlock i
    let lastBlock := fs.groupLastBlock i
    .orExit (st.blkItr ≤ firstBlock) (.orExit (st.blkItr ≤ lastBlock)
      (.orExit ((2 ^ 32 + 1 + lastBlock - firstBlock) % 2 ^ 32 ≤ fs.blocksPerGroup)
        (let first := firstBlock - st.blkItr
        let last := lastBlock - st.blkItr
        (parseBlocks blocksBitmap sectPerBlock limit first last
            (st.ptr + sectPerBlock * first % 2 ^ 32, st.bitmap)).bind (fun x =>
          let rest := (2 ^ 33 + fs.blocksPerGroup - (1 + last)) % 2 ^ 32
          .done ⟨x.1 + sectPerBlock * rest % 2 ^ 32, (st.blkItr + fs.blocksPerGroup) % 2 ^ 32, x.2⟩))))

/-- `memory` is what `malloc` and `calloc` may give. -/
def listDesc (memory : Nat) (fs : Ext2Filsys) : Fate (List Byte) :=
  .orExit (fs.blockSize ≠ 0) (.orExit (fs.blockSize % 512 = 0)
    (.orExit (fs.blocksPerGroup ≠ 0) (.orExit (fs.blocksPerGroup % 8 = 0)
      (.orExit (fs.blocksPerGroup / 8 ≤ memory)
        (let sectPerBlock := fs.blockSize / 512
        let bitmaplg := (fs.blocksCount * sectPerBlock + 7) / 8 % 2 ^ 32
        .orExit (0 < bitmaplg) (.orExit (bitmaplg ≤ memory)
          ((reservedBlocks sectPerBlock bitmaplg fs.firstDataBlock (0, List.replicate bitmaplg 0)).bind (fun x =>
            (Fate.loop (descGroup fs sectPerBlock bitmaplg) (List.range fs.groupDescCount)
              ⟨x.1, fs.firstDataBlock, x.2⟩).bind (fun st => .done st.bitmap)))))))))

end PulseImaging
