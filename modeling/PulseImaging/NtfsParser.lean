import PulseImaging.Repetition
import PulseImaging.ImageNtfs

/-! `parse_mft` of `image_ntfs.c` with the ways in which it may end. What is behind `fn` is not written
to, and addresses have 32 bits. -/

namespace PulseImaging

/-! ### Data runs -/

/-- The turns of `for (i = 0; i < length; i++)`: `i` is an `int` that wraps, and is compared with an
`unsigned long long`. -/
def runTurns (length : Nat) : Nat :=
  if length ≤ 2 ^ 31 then length else if length ≤ 2 ^ 64 - 2 ^ 31 then 2 ^ 31 else length - (2 ^ 64 - 2 ^ 32)

/-- `curptr - p->bitmap`, an `int`, as an `unsigned long long`. -/
def curDistance (cur : Nat) : Nat :=
  if cur % 2 ^ 32 < 2 ^ 31 then cur % 2 ^ 32 else 2 ^ 64 - 2 ^ 32 + cur % 2 ^ 32

/-- Before a cluster of a run is read: the position in the file, and by how much `curptr` was moved. -/
structure ClusterScan where
  pos : Nat
  cur : Nat
  bitmap : List Byte

/-- `cur` is a multiple of what is added to it, so the addresses of a cluster's bits do not wrap in it. -/
def clusterTurn (file : VolumeFile) (boot : NtfsBoot) (s : ClusterScan) : Fate ClusterScan :=
  (Fate.ofCall (readCluster file s.pos boot.clustSize)).bind (fun clust =>
    (Fate.ofAccess (setClusters boot (s.cur % 2 ^ 32) (bits clust) 0 s.bitmap)).bind (fun bitmap =>
      .done ⟨s.pos + boot.clustSize, s.cur + boot.clustSize * boot.spc, bitmap⟩))

/-- Before a data run, that is at `ptr`. -/
structure RunScan where
  loffset : Int
  ptr : List Byte
  cur : Nat
  bitmap : List Byte

def runTurn (file : VolumeFile) (boot : NtfsBoot) (filelg : Nat) (s : RunScan) : Fate (RunScan ⊕ RunScan) :=
  (Fate.ofAccess (nextRun s.loffset s.ptr)).bind (fun x =>
    (Fate.ofCall (seekCluster boot x.2.1)).bind (fun pos =>
      (Fate.times (clusterTurn file boot) (runTurns x.1) ⟨pos, s.cur, s.bitmap⟩).bind (fun y =>
        let s : RunScan := ⟨x.2.1, x.2.2, y.cur, y.bitmap⟩
        .done (if curDistance s.cur < filelg * boot.spc % 2 ^ 64 then .inl s else .inr s))))

/-- Each run takes a byte. -/
def ntfsRuns (file : VolumeFile) (boot : NtfsBoot) (filelg : Nat) (ptr bitmap : List Byte) : Fate RunScan :=
  Fate.iterate (runTurn file boot filelg) (ptr.length + 1) ⟨0, ptr, 0, bitmap⟩

def clearBytes (bitmap : List Byte) (nb bitmaplg : Nat) : Fate (List Byte) :=
  Fate.loop (fun b i => if i < b.length then .done (b.set i 0) else .fault) (List.range' nb (bitmaplg - nb)) bitmap

/-! ### Attributes -/

def mftField (n : Nat) (entry : List Byte) (ptr : Nat) : Fate Nat := Fate.ofAccess (numberAt n entry ptr)

def parseAttr (entry : List Byte) (ptr : Nat) : Fate Nat :=
  (mftField 4 entry (ptr + 4)).bind (fun lg => .done ((ptr + lg) % 2 ^ 32))

/-- The permissions and the version are only printed. -/
def ntfsInformation (entry : List Byte) (ptr : Nat) (p : BitmapParams) : Fate BitmapParams :=
  let ptr := ptr + 0x18
  (mftField 4 entry (ptr + 0x20)).bind (fun _ => (mftField 4 entry (ptr + 0x28)).bind (fun _ => .done p))

/-- The flags are only printed. `fn` has 100 bytes. -/
def ntfsFilename (memory : Nat) (boot : NtfsBoot) (entry : List Byte) (ptr : Nat) : Fate BitmapParams :=
  let ptr := ptr + 0x18
  (mftField 8 entry (ptr + 0x30)).bind (fun real => (mftField 8 entry (ptr + 0x28)).bind (fun allocated =>
    let bitmaplg := allocated % 2 ^ 32 * boot.spc % 2 ^ 32
    (Fate.ofCall (calloc memory bitmaplg)).bind (fun bitmap =>
      (mftField 2 entry (ptr + 0x38)).bind (fun _ => (mftField 1 entry (ptr + 0x40)).bind (fun n =>
        (Fate.ofAccess (if n < 100 then (List.range n).mapM (fun i => entry[ptr + 0x42 + 2 * i]?) else none)).bind
          (fun name => .done ⟨real, bitmaplg, bitmap, cstr name⟩))))))

def ntfsVolume (entry : List Byte) (ptr : Nat) (p : BitmapParams) : Fate BitmapParams :=
  let ptr := ptr + 0x18
  (mftField 2 entry (ptr + 8)).bind (fun _ => (mftField 2 entry (ptr + 10)).bind (fun flags =>
    .orExit (flags = 0 ∨ flags = 0x4000) (.done p)))

/-- The bitmap is allocated again when its length is not that of the attribute. -/
def modifiedSize (memory : Nat) (boot : NtfsBoot) (al rl : Nat) (p : BitmapParams) : Fate BitmapParams :=
  if p.bitmaplg ≠ al * boot.spc % 2 ^ 64 then
    (Fate.ofCall (calloc memory (al * boot.spc % 2 ^ 32))).bind (fun bitmap =>
      .done { p with bitmaplg := al * boot.spc % 2 ^ 32, bitmap := bitmap, filelg := rl })
  else .done p

/-- Behind the runs `*ptr` is read once more. -/
def ntfsDatarun (memory : Nat) (file : VolumeFile) (boot : NtfsBoot) (entry : List Byte) (ptr : Nat)
    (p : BitmapParams) : Fate BitmapParams :=
  (mftField 8 entry (ptr + 0x28)).bind (fun al => (mftField 8 entry (ptr + 0x30)).bind (fun rl =>
    (mftField 8 entry (ptr + 0x38)).bind (fun il =>
      .orExit (il = rl) ((modifiedSize memory boot al rl p).bind (fun p =>
        (ntfsRuns file boot p.filelg (entry.drop (ptr + 0x40)) p.bitmap).bind (fun s =>
          (Fate.ofAccess s.ptr.head?).bind (fun _ =>
            (clearBytes s.bitmap (p.filelg * boot.spc % 2 ^ 32) p.bitmaplg).bind (fun bitmap =>
              .done { p with bitmap := bitmap, bitmaplg := p.filelg * boot.spc % 2 ^ 32 }))))))))

def ntfsAttribute (memory : Nat) (file : VolumeFile) (boot : NtfsBoot) (entry : List Byte) (attType ptr : Nat)
    (p : BitmapParams) : Fate BitmapParams :=
  if attType = 0x10 then ntfsInformation entry ptr p
  else if attType = 0x30 then ntfsFilename memory boot entry ptr
  else if attType = 0x70 then ntfsVolume entry ptr p
  else if attType = 0x80 then
    if p.fn = ascii "$Bitmap" then ntfsDatarun memory file boot entry ptr p else .done p
  else .done p

/-! ### The record -/

/-- Before an attribute; `ptr - origptr` modulo 2^32. -/
structure MftScan where
  ptr : Nat
  p : BitmapParams

/-- The difference of the pointers is an `int`. -/
def mftTurn (memory : Nat) (file : VolumeFile) (boot : NtfsBoot) (entry : List Byte) (s : MftScan) :
    Fate (MftScan ⊕ BitmapParams) :=
  if 1024 ≤ s.ptr ∧ s.ptr < 2 ^ 31 then .done (.inr s.p)
  else
    (mftField 4 entry s.ptr).bind (fun attType =>
      if attType = 0xFFFFFFFF then .done (.inr s.p)
      else
        (parseAttr entry s.ptr).bind (fun nptr =>
          (ntfsAttribute memory file boot entry attType s.ptr s.p).bind (fun p => .done (.inl ⟨nptr, p⟩))))

def mftRun (fuel memory : Nat) (file : VolumeFile) (boot : NtfsBoot) (entry : List Byte) (p : BitmapParams) :
    Fate BitmapParams :=
  Fate.iterate (mftTurn memory file boot entry) fuel ⟨firstAttribute entry, p⟩

end PulseImaging
