import PulseImaging.BlockLists
import PulseImaging.LittleEndian
import PulseImaging.TftpRead

/-! Files on a FAT partition as the boot loader reads them: what `fat_mount` takes from the boot sector, and
`fat_read` with the piece of the table and the place in the cluster chain that it keeps. -/

namespace PulseImaging

def FAT_CACHE_SIZE : Nat := 2048

/-- The value that an `int` holds. -/
def int32 (v : Int) : Int := v.bmod (2 ^ 32)

/-- `struct fat_superblock` as `fat_mount` fills it. -/
structure FatSuper where
  fat_offset : Int
  fat_length : Int
  fat_size : Int
  root_offset : Int
  root_max : Int
  data_offset : Int
  num_clust : Int
  clust_eof_marker : Int
  sectsize_bits : Nat
  clustsize_bits : Nat
  root_cluster : Int
  deriving DecidableEq, Repr

/-- What `fat_read` keeps: the piece of the table in `FAT_BUF`, the place in the chain, and the globals. -/
structure FatFile where
  cached_fat : Int
  fat_buf : List Byte
  file_cluster : Int
  current_cluster_num : Int
  current_cluster : Int
  filepos : Nat
  filemax : Nat
  io : DiskIo

/-- `devread` with an `int` as the sector. -/
def DiskIo.devreadInt (s : DiskIo) (B : Int13) (p : OpenPart) (sector : Int) (byte_offset byte_len : Nat) :
    Bool × List Byte × DiskIo :=
  if sector < 0 then (false, [], s.raise .outsidePart) else devread B p sector.toNat byte_offset byte_len s

/-- The outcome of a walk along the chain. -/
inductive FatWalk where
  | arrived (s : FatFile)
  | eof (s : FatFile)
  | stuck (s : FatFile)

def FatWalk.state : FatWalk → FatFile
  | .arrived s => s
  | .eof s => s
  | .stuck s => s

/-- A file to read: its first cluster, its length, and what is done with it. -/
structure FatRequest where
  first : Nat
  filemax : Nat
  ops : List FileRequest

namespace FatFile

variable (B : Int13) (p : DiskIo.OpenPart) (f : FatSuper)

/-- The piece of the table with entry `fat_entry`, which counts half bytes. -/
def cache (fat_entry : Int) (s : FatFile) : Bool × FatFile :=
  if fat_entry - s.cached_fat < 0 ∨ 2 * FAT_CACHE_SIZE < fat_entry - s.cached_fat + f.fat_size then
    let cached_fat := fat_entry / 1024 * 1024
    let r := s.io.devreadInt B p (f.fat_offset + cached_fat / 1024) 0 FAT_CACHE_SIZE
    (r.1, { s with cached_fat := cached_fat, fat_buf := r.2.1 ++ s.fat_buf.drop r.2.1.length, io := r.2.2 })
  else (true, s)

/-- `next_cluster` from the four bytes at the half byte `cached_pos`. Behind the buffer lie only bits that
are masked out. -/
def decode (cached_pos word : Nat) : Int :=
  if f.fat_size = 3 then ((if cached_pos % 2 = 1 then word / 16 else word) % 0x1000 : Nat)
  else if f.fat_size = 4 then (word % 0x10000 : Nat)
  else int32 word

/-- A turn of the loop that follows the chain. -/
def follow (s : FatFile) : FatWalk :=
  let fat_entry := s.current_cluster * f.fat_size
  let r := cache B p f fat_entry s
  let cached_pos := (fat_entry - r.2.cached_fat).toNat
  let next_cluster := decode f cached_pos (leValue ((r.2.fat_buf.drop (cached_pos / 2)).take 4))
  if r.1 = false then .stuck r.2
  else if f.clust_eof_marker ≤ next_cluster then .eof r.2
  else if next_cluster < 2 ∨ f.num_clust ≤ next_cluster then
    .stuck { r.2 with io := r.2.io.raise .fsysCorrupt }
  else
    .arrived { r.2 with current_cluster := next_cluster, current_cluster_num := r.2.current_cluster_num + 1 }

/-- `current_cluster_num` runs up by `n`. -/
def walk : Nat → FatFile → FatWalk
  | 0, s => .arrived s
  | n + 1, s =>
    match follow B p f s with
    | .arrived s => walk n s
    | .eof s => .eof s
    | .stuck s => .stuck s

/-- The rest of a turn of the main loop, behind the walk to the cluster of the position. -/
def readCluster (len : Nat) : FatWalk → Piece FatFile
  | .eof s => .stop s
  | .stuck s => .fail s
  | .arrived s =>
    let sector := f.data_offset + (s.current_cluster - 2) * 2 ^ (f.clustsize_bits - f.sectsize_bits)
    let offset := s.filepos % 2 ^ f.clustsize_bits
    let size := min len (2 ^ f.clustsize_bits - offset)
    let r := s.io.devreadInt B p sector offset size
    -- after a failed read nobody looks at the bytes, but the loop goes on
    .got (if r.1 then r.2.1 else List.replicate size 0) { s with filepos := s.filepos + size, io := r.2.2 }

/-- A turn of the main loop. After the first one the position is the start of a cluster, so that
`logical_clust` and `offset` are those of `filepos` throughout. -/
def turn (len : Nat) (s : FatFile) : Piece FatFile :=
  let logical_clust := s.filepos / 2 ^ f.clustsize_bits
  readCluster B p f len (walk B p f (logical_clust - s.current_cluster_num).toNat s)

/-- Back to the first cluster if the position is in front of the current one. -/
def rewind (s : FatFile) : FatFile :=
  if (s.filepos / 2 ^ f.clustsize_bits : Nat) < s.current_cluster_num then
    { s with current_cluster_num := 0, current_cluster := s.file_cluster }
  else s

/-- `fat_read`; the result is `ret` with the bytes in `buf`. -/
def fatRead (len : Nat) (s : FatFile) : List Byte × FatFile :=
  if s.file_cluster < 0 then
    -- the root directory of FAT12 and FAT16
    let size := min (f.root_max - s.filepos) len
    let r := s.io.devreadInt B p f.root_offset s.filepos size.toNat
    if r.1 then (r.2.1, { s with filepos := (s.filepos + size).toNat, io := r.2.2 }) else ([], { s with io := r.2.2 })
  else
    match pieces (turn B p f) len len [] (rewind f s) with
    | (none, s) => ([], s)
    | (some out, s) => if out.length = len ∧ s.io.errnum ≠ none then ([], s) else (out, s)

/-- `grub_read` -/
def grubRead (len : Int) (s : FatFile) : List Byte × FatFile :=
  let s := if s.filemax < s.filepos then { s with filepos := s.filemax } else s
  let left := s.filemax - s.filepos
  fatRead B p f (if len < 0 ∨ (left : Int) < len then left else len.toNat) s

/-- `grub_seek` -/
def grubSeek (offset : Int) (s : FatFile) : FatFile :=
  if (s.filemax : Int) < offset ∨ offset < 0 then s else { s with filepos := offset.toNat }

def exec (s : FatFile) : FileRequest → List Byte × FatFile
  | .read len => grubRead B p f len s
  | .seek offset => ([], grubSeek offset s)

/-- What `fat_dir` sets for a file of `filemax` bytes. -/
def opened (first filemax : Nat) (s : FatFile) : FatFile :=
  { s with file_cluster := first, current_cluster_num := MAXINT, filepos := 0, filemax := filemax }

end FatFile

end PulseImaging
