import PulseImaging.RunMenu

/-! The menu file as titles with the descriptions and the commands behind
them, and the three arrays that the loop of `cmain` makes of it. -/

namespace PulseImaging

/-! ### Arrays of strings -/

def strings (texts : List (List Byte)) : List Byte := texts.flatMap (· ++ [0])

@[simp] theorem strings_nil : strings [] = [] := rfl

@[simp] theorem strings_append (a b : List (List Byte)) :
    strings (a ++ b) = strings a ++ strings b := by
  simp [strings]

/-- A title with what stands behind it. A description is kept as it was written and as it is stored. -/
structure MenuBlock where
  title : List Byte
  descs : List (List Byte × List Byte)
  commands : List (List Byte)
  deriving DecidableEq, Repr

/-- The lines in front of the first title, and the titles. -/
structure MenuFile where
  descs : List (List Byte × List Byte)
  commands : List (List Byte)
  blocks : List MenuBlock
  deriving DecidableEq, Repr

/-- The number of entries up to a block. -/
def MenuBlock.count (b : MenuBlock) (n : Nat) : Nat := if b.commands = [] then n else n + 1

/-- The titles that have commands. -/
def entriesOf (blocks : List MenuBlock) : List MenuBlock := blocks.filter (fun b => b.commands ≠ [])

def MenuFile.entries (F : MenuFile) : List MenuBlock := entriesOf F.blocks

/-! ### The arrays -/

/-- The title that is open has commands, or gets them from the lines that follow. -/
def MenuConfig.keeps (c : MenuConfig) (F : MenuFile) : Bool :=
  c.state != 0 && (decide (1 < c.state) || !F.commands.isEmpty)

section

variable {c d : MenuConfig} {line : List Byte} {lines top rest : List (List Byte)} {prompts : List Prompt}

end

end PulseImaging
