import PulseImaging.FatFile

/-! What `fat_mount` lets through: the numbers it takes from a boot sector are those of a table and of clusters
that lie where it says. -/

namespace PulseImaging

variable {B : Int13} {p : DiskIo.OpenPart} {f : FatSuper} {bpb : List Byte}

/-- The bits of an entry of the table. -/
def FatSuper.entryWidth (f : FatSuper) : Nat := if f.fat_size = 3 then 12 else if f.fat_size = 4 then 16 else 32

/-- The bits of an entry that are part of a cluster number. -/
def FatSuper.entryBits (f : FatSuper) : Nat := if f.fat_size = 3 then 12 else if f.fat_size = 4 then 16 else 28

/-- The sizes are those that `fat_mount` lets through, and an `int` holds every number of the table. -/
structure FatSuper.Sound (f : FatSuper) : Prop where
  sectsize : f.sectsize_bits = 9
  clustsize : 9 ≤ f.clustsize_bits
  kind : f.fat_size = 3 ∨ f.fat_size = 4 ∨ f.fat_size = 8
  eof : f.clust_eof_marker = 2 ^ f.entryBits - 8
  fat_offset : 0 ≤ f.fat_offset
  data_offset : 0 ≤ f.data_offset
  clusters : 2 < f.num_clust
  entries : f.fat_size * f.num_clust < 2 ^ 31
  table : f.fat_offset + f.fat_size * f.num_clust / 1024 < 2 ^ 31
  data : f.data_offset + (f.num_clust - 2) * 2 ^ (f.clustsize_bits - 9) < 2 ^ 31

variable {io : DiskIo} (hio : io.Buffered)
  (hinfo : getDiskinfo p.current_drive (io.drives p.current_drive) ≠ none)
  (hpart : p.part_start + p.part_length ≤ 2 ^ 31)

include hio hinfo hpart

end PulseImaging
