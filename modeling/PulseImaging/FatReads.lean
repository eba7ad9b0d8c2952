import PulseImaging.FatMount

/-! The bytes of a file on a FAT partition: the chain of its clusters in the table, and what reads and seeks
bring of it. -/

namespace PulseImaging

namespace FatSuper

/-- The entry of a cluster in a partition that begins at sector `start`: the entries lie one behind the other, as
bits of the table. -/
def entry (f : FatSuper) (c : Content) (start cluster : Nat) : Nat :=
  let table := slice c (512 * (start + f.fat_offset.toNat)) ((f.entryWidth * (cluster + 1) + 7) / 8)
  leValue table / 2 ^ (f.entryWidth * cluster) % 2 ^ f.entryWidth

/-- The cluster behind `cluster`; the last eight numbers of an entry end a file. -/
def nextCluster (f : FatSuper) (c : Content) (start cluster : Nat) : Option Nat :=
  let e := f.entry c start cluster % 2 ^ f.entryBits
  if 2 ≤ e ∧ (e : Int) < f.num_clust ∧ e < 2 ^ f.entryBits - 8 then some e else none

/-- The clusters of a file, one behind the other. -/
def chain (f : FatSuper) (c : Content) (start first : Nat) : Nat → Option Nat
  | 0 => some first
  | n + 1 => (f.chain c start first n).bind (f.nextCluster c start)

/-- The bytes of the clusters of a chain. -/
def content (f : FatSuper) (c : Content) (start first : Nat) : Content := fun q =>
  match f.chain c start first (q / 2 ^ f.clustsize_bits) with
  | none => 0
  | some cluster =>
    c (512 * (start + f.data_offset.toNat + (cluster - 2) * 2 ^ (f.clustsize_bits - 9)) + q % 2 ^ f.clustsize_bits)

end FatSuper

namespace FatFile

variable {B : Int13} {p : DiskIo.OpenPart} {f : FatSuper} {D : Nat → Drive} {first limit : Nat} {s : FatFile}

/-! ### The piece of the table in memory -/

/-- `FAT_BUF` holds the piece of the table that begins at `cached_fat`, or there is none. -/
def Cached (f : FatSuper) (c : Content) (start : Nat) (s : FatFile) : Prop :=
  s.cached_fat = -(2 * FAT_CACHE_SIZE : Nat) ∨ ∃ w : Nat, s.cached_fat = (1024 * w : Nat) ∧
    s.fat_buf = slice c (512 * (start + f.fat_offset.toNat + w)) FAT_CACHE_SIZE

theorem devreadInt_stuck {io : DiskIo} (h : io.errnum ≠ none) (sector : Int)
    (byte_offset byte_len : Nat) :
    (io.devreadInt B p sector byte_offset byte_len).2.2.errnum ≠ none := by
  rw [DiskIo.devreadInt]
  split_ifs
  · exact Option.some_ne_none _
  · exact DiskIo.devread_stuck h p _ _ _

/-- The disk can be read, and the tables and the clusters lie in the partition. -/
structure Readable (B : Int13) (p : DiskIo.OpenPart) (f : FatSuper) (D : Nat → Drive) : Prop where
  faultless : B.Faultless
  reaches : (D p.current_drive).Reaches p.current_drive (512 * (p.part_start + p.part_length))
  table : f.fat_offset + f.fat_size * f.num_clust / 1024 + 4 ≤ p.part_length
  data : f.data_offset + (f.num_clust - 2) * 2 ^ (f.clustsize_bits - 9) ≤ p.part_length

/-- What does not change while a file is read. -/
structure Steady (p : DiskIo.OpenPart) (f : FatSuper) (D : Nat → Drive) (first limit : Nat) (s : FatFile) : Prop where
  cached : Cached f (D p.current_drive).content p.part_start s
  buf_length : s.fat_buf.length = FAT_CACHE_SIZE
  file_cluster : s.file_cluster = first
  filemax : s.filemax = limit
  buffered : s.io.Buffered
  drives : s.io.drives = D
  errnum : s.io.errnum = none

/-- The disk and the table of an open file. -/
structure Volume (p : DiskIo.OpenPart) (f : FatSuper) (D : Nat → Drive) (first : Nat) : Prop where
  sound : f.Sound
  diskinfo : getDiskinfo p.current_drive (D p.current_drive) ≠ none
  part : p.part_start + p.part_length ≤ 2 ^ 31
  entries : ∀ k cluster, f.chain (D p.current_drive).content p.part_start first k = some cluster →
    f.entry (D p.current_drive).content p.part_start cluster < 2 ^ f.entryBits
  first : 2 ≤ first ∧ (first : Int) < f.num_clust

section Walk

variable (hv : Volume p f D first)

include hv

omit hv in
theorem Steady.of_same {t : FatFile} (hs : Steady p f D first limit s)
    (hcache : t.cached_fat = s.cached_fat) (hbuf : t.fat_buf = s.fat_buf)
    (hcluster : t.file_cluster = s.file_cluster) (hmax : t.filemax = s.filemax)
    (hio : t.io = s.io) :
    Steady p f D first limit t where
  cached := by
    have h := hs.cached
    rwa [Cached, ← hcache, ← hbuf] at h
  buf_length := hbuf ▸ hs.buf_length
  file_cluster := hcluster.trans hs.file_cluster
  filemax := hmax.trans hs.filemax
  buffered := hio ▸ hs.buffered
  drives := hio ▸ hs.drives
  errnum := hio ▸ hs.errnum

/-- The current cluster is that of place `k` in the chain. -/
def AtCluster (p : DiskIo.OpenPart) (f : FatSuper) (D : Nat → Drive) (first k : Nat) (s : FatFile) : Prop :=
  s.current_cluster_num = k ∧ ∃ cluster : Nat,
    f.chain (D p.current_drive).content p.part_start first k = some cluster ∧ s.current_cluster = cluster

/-- The file is open at position `pos`, and the place in the chain is not behind it. -/
def Ready (p : DiskIo.OpenPart) (f : FatSuper) (D : Nat → Drive) (first limit pos : Nat) (s : FatFile) : Prop :=
  Steady p f D first limit s ∧ s.filepos = pos ∧ ∃ k ≤ pos / 2 ^ f.clustsize_bits, AtCluster p f D first k s

omit hv in
theorem follow_stuck (h : s.io.errnum ≠ none) : (follow B p f s).state.io.errnum ≠ none := by
  have hcache : (cache B p f (s.current_cluster * f.fat_size) s).2.io.errnum ≠ none := by
    rw [cache]
    split_ifs
    · exact devreadInt_stuck h _ _ _
    · exact h
  rw [follow]
  generalize cache B p f (s.current_cluster * f.fat_size) s = r at hcache
  dsimp only
  split_ifs
  · exact hcache
  · exact hcache
  · exact Option.some_ne_none _
  · exact hcache

omit hv in
theorem walk_stuck (h : s.io.errnum ≠ none) (n : Nat) : (walk B p f n s).state.io.errnum ≠ none := by
  induction n generalizing s with
  | zero => exact h
  | succ n ih =>
    have hstep := follow_stuck (B := B) (p := p) (f := f) h
    rw [walk]
    cases hfollow : follow B p f s with
    | arrived t =>
      rw [hfollow] at hstep
      exact ih hstep
    | eof t =>
      rw [hfollow] at hstep
      exact hstep
    | stuck t =>
      rw [hfollow] at hstep
      exact hstep

omit hv in
theorem turn_stuck (h : s.io.errnum ≠ none) (len : Nat) :
    (turn B p f len s).state.io.errnum ≠ none := by
  have hwalk := walk_stuck (B := B) (p := p) (f := f) h
    ((s.filepos / 2 ^ f.clustsize_bits : Nat) - s.current_cluster_num).toNat
  rw [turn]
  generalize walk B p f _ s = w at hwalk
  cases w with
  | eof t => exact hwalk
  | stuck t => exact hwalk
  | arrived t => exact devreadInt_stuck hwalk _ _ _

variable (hfile : ∀ q < limit,
  (f.chain (D p.current_drive).content p.part_start first (q / 2 ^ f.clustsize_bits)).isSome)
  (hlimit : limit < 2 ^ 31)

include hfile hlimit

end Walk

/-! ### Files one after the other -/

/-- The chain of the file reaches to its end. -/
structure Fits (f : FatSuper) (c : Content) (start : Nat) (file : FatRequest) : Prop where
  first : 2 ≤ file.first ∧ (file.first : Int) < f.num_clust
  filemax : file.filemax < 2 ^ 31
  chain : ∀ q < file.filemax, (f.chain c start file.first (q / 2 ^ f.clustsize_bits)).isSome
  /-- The reserved bits of the entries are zero. -/
  entries : ∀ k cluster, f.chain c start file.first k = some cluster → f.entry c start cluster < 2 ^ f.entryBits

section Files

variable (hsound : f.Sound) (hinfo : getDiskinfo p.current_drive (D p.current_drive) ≠ none)
  (hpart : p.part_start + p.part_length ≤ 2 ^ 31)

include hsound hinfo hpart

end Files

end FatFile

end PulseImaging
