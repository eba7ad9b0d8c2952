import PulseImaging.LvmMetadata
import PulseImaging.PartitionList

/-! The offset that a metadata text gives for a physical volume, by its blocks, and when
`lvm_check` finds it. -/

namespace PulseImaging

/-! ### Blocks -/

/-- The line without what stands between quotes. -/
def unquoted : Bool → List Byte → List Byte
  | _, [] => []
  | quoted, c :: s =>
    if c = 34 then unquoted (!quoted) s
    else if quoted then unquoted quoted s
    else c :: unquoted quoted s

/-- By how much the level is higher behind the line. -/
def braceNet (line : List Byte) : Int := (unquoted false line).count 123 - (unquoted false line).count 125

def opensSection (name : String) (line : List Byte) : Bool :=
  (unquoted false line).filter (fun b => !isSpace b) == ascii name ++ [123]

/-- The lines up to the closing brace that belongs to `level` opening ones. -/
def bodyLines : Int → List (List Byte) → List (List Byte)
  | _, [] => []
  | level, l :: ls => if level + braceNet l ≤ 0 then [] else l :: bodyLines (level + braceNet l) ls

/-- The blocks on level 0. -/
def blocksOf : Int → List (List Byte) → List (List (List Byte))
  | _, [] => []
  | level, l :: ls =>
    (if level = 0 ∧ 0 < braceNet l then [bodyLines 1 ls] else []) ++ blocksOf (level + braceNet l) ls

/-- The lines on level 0 that are not those of blocks. -/
def ownLines : Int → List (List Byte) → List (List Byte)
  | _, [] => []
  | level, l :: ls => (if level = 0 ∧ braceNet l = 0 then [l] else []) ++ ownLines (level + braceNet l) ls

/-- The blocks of the section `physical_volumes`. -/
def volumeBlocks (text : List Byte) : List (List (List Byte)) :=
  match (textLines (cstr text)).dropWhile (fun l => !opensSection "physical_volumes" l) with
  | [] => []
  | _ :: ls => blocksOf 0 (bodyLines 1 ls)

def lineValue (name : String) (line : List Byte) : Option (List Byte) := scanAssign (ascii name) (line.dropWhile isSpace)

def lineId (line : List Byte) : Option (List Byte) :=
  match lineValue "id" line with
  | some (34 :: t) => some (t.takeWhile (· != 34))
  | _ => none

def linePeStart (line : List Byte) : Option Int :=
  (lineValue "pe_start" line).bind (fun t => (scanInt t).map Prod.fst)

def blockId (block : List (List Byte)) : Option (List Byte) := (ownLines 0 block).findSome? lineId

def blockPeStart (block : List (List Byte)) : Option Int := (ownLines 0 block).findSome? linePeStart

/-- The id is the uuid, dashes apart. -/
def blockHasId (pvuuid : List Byte) (block : List (List Byte)) : Bool :=
  (blockId block).map (·.filter (· != 45)) == some pvuuid

def volumePeStart (pvuuid text : List Byte) : Option Int :=
  ((volumeBlocks text).filter (blockHasId pvuuid)).findSome? blockPeStart

def volumeOffset (pvuuid text : List Byte) : Int := ((volumePeStart pvuuid text).map (512 * ·)).getD 0

end PulseImaging
