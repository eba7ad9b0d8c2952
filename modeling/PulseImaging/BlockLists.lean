import PulseImaging.DiskRuns
import PulseImaging.PieceReads
import PulseImaging.BootRestore

/-! Files that are given by a list of blocks, as in `0+1,64+20`: how `grub_open` reads the list, and how
`grub_read` and `grub_seek` move in it. -/

namespace PulseImaging

def grubIsspace (b : Byte) : Bool := b = 32 || b = 9 || b = 13 || b = 10

/-- The pairs of start and length in the memory from `BLK_BLKLIST_START` on, and what `grub_open` and
`grub_read` keep about the file. -/
structure BlockFile where
  list : Nat → Nat × Nat
  cur_filepos : Nat
  cur_blklist : Nat
  cur_blknum : Nat
  filepos : Nat
  filemax : Nat
  io : DiskIo

/-- The character ends the name of a file. -/
def endsName : List Byte → Bool
  | [] => true
  | b :: _ => b = 47 || grubIsspace b

namespace BlockFile

/-- `BLK_CUR_FILEPOS` runs up to `filepos`. -/
def run : Nat → BlockFile → BlockFile
  | 0, s => s
  | fuel + 1, s =>
    if s.filepos ≤ s.cur_filepos then s
    else if 512 ≤ s.filepos - s.cur_filepos / 512 * 512 then
      if (s.list s.cur_blklist).2 ≤ s.cur_blknum + 1 then
        run fuel { s with
          cur_filepos := s.cur_filepos + 512
          cur_blklist := s.cur_blklist + 1
          cur_blknum := 0 }
      else run fuel { s with cur_filepos := s.cur_filepos + 512, cur_blknum := s.cur_blknum + 1 }
    else { s with cur_filepos := s.filepos }

/-- Back to the start of the list if the position is behind. -/
def rewind (s : BlockFile) : BlockFile :=
  if s.filepos < s.cur_filepos then { s with cur_filepos := 0, cur_blklist := 0, cur_blknum := 0 } else s

/-- The block of the position, with `off` and the bytes that lie together there. -/
def place (s : BlockFile) : Nat × Nat × Nat :=
  let off := s.filepos % 512
  let e := s.list s.cur_blklist
  (e.1 + s.cur_blknum, off, (e.2 - s.cur_blknum) * 512 - off)

/-- A turn of the loop of `grub_read`. -/
def turn (B : Int13) (p : DiskIo.OpenPart) (len : Nat) (s : BlockFile) : Piece BlockFile :=
  let s := run (s.filepos + 1) s.rewind
  let size := min len s.place.2.2
  let r := DiskIo.devread B p s.place.1 s.place.2.1 size s.io
  let s := { s with filepos := s.filepos + size, io := r.2.2 }
  if r.2.2.errnum = none then .got r.2.1 s else .fail s

/-- `grub_read` in a block file; the result is `ret` with the bytes in `buf`. -/
def grubRead (B : Int13) (p : DiskIo.OpenPart) (len : Int) (s : BlockFile) : List Byte × BlockFile :=
  let s := if s.filemax < s.filepos then { s with filepos := s.filemax } else s
  let left := s.filemax - s.filepos
  let len := if len < 0 ∨ (left : Int) < len then left else len.toNat
  if s.io.errnum ≠ none then ([], s)
  else
    let r := pieces (turn B p) len len [] s
    (r.1.getD [], r.2)

/-- `grub_seek` -/
def grubSeek (offset : Int) (s : BlockFile) : Bool × BlockFile :=
  if (s.filemax : Int) < offset ∨ offset < 0 then (false, s) else (true, { s with filepos := offset.toNat })

def exec (B : Int13) (p : DiskIo.OpenPart) (s : BlockFile) : FileRequest → List Byte × BlockFile
  | .read len => grubRead B p len s
  | .seek offset => ([], (grubSeek offset s).2)

/-- The file behind `grub_open`. -/
def opened (filemax : Int) (list : Nat → Nat × Nat) (io : DiskIo) : BlockFile where
  list := list
  cur_filepos := 0
  cur_blklist := 0
  cur_blknum := 0
  filepos := 0
  filemax := filemax.toNat
  io := io

end BlockFile

end PulseImaging
