import PulseImaging.Fate
import PulseImaging.ImageNtfs
import PulseImaging.TextFile
import PulseImaging.Scanf

/-! `lvm_check` of `lvm.c`: where the file system of a physical volume starts. `long` has 32
bits, and level counts do not overflow. -/

namespace PulseImaging

/-! ### `sscanf` -/

/-- What follows `name = ` at the front of the line. A blank in the format stands for any number of them. -/
def scanAssign (name s : List Byte) : Option (List Byte) :=
  if name <+: s then
    match (s.drop name.length).dropWhile isSpace with
    | 61 :: t => some (t.dropWhile isSpace)
    | _ => none
  else none

/-- `%38s` behind a quote. -/
def scanUuid (s : List Byte) : Option (List Byte) :=
  match scanAssign (ascii "id") s with
  | some (34 :: t) => (scanToken t).map (fun p => p.1.take 38)
  | _ => none

/-- A number of `bits` bits: `strtoll` stops at the ends of the range. -/
def clampInt (bits : Nat) (z : Int) : Int := max (-2 ^ (bits - 1)) (min z (2 ^ (bits - 1) - 1))

/-- `%lld` and `%d` -/
def scanNumber (bits : Nat) (name s : List Byte) : Option Int :=
  (scanAssign name s).bind (fun t => (scanInt t).map (fun p => clampInt bits p.1))

def scanPeStart (s : List Byte) : Option Int := scanNumber 64 (ascii "pe_start") s

/-! ### `uuid_compare` -/

/-- The characters of `s1` are not NUL, so none is equal to what ends `s2`. -/
def uuidCompare : Nat → List Byte → List Byte → Bool
  | 0, _, _ => true
  | n + 1, s1, s2 =>
    match s1, (if s2.head? = some 45 then s2.tail else s2) with
    | a :: s1, b :: s2 => if a ≠ b then false else uuidCompare n s1 s2
    | _, _ => false

/-! ### The metadata -/

inductive LvmState where
  | vg
  | volumes
  | volume
  | found
  deriving DecidableEq, Repr

structure LvmScan where
  b : List Byte
  rest : List Byte
  lev : Int
  state : LvmState
  offset : Int
  extent : Int
  peCount : Int

def hasText (key : String) (s : List Byte) : Bool := (strstr (ascii key) s).isSome

/-- At the end of the file the buffer keeps its last line. -/
def lvmLine (b rest : List Byte) : List Byte × List Byte :=
  match (TextFile.fgets ⟨rest, false⟩ 127) with
  | (some line, f) => (line, f.rest)
  | (none, f) => (b, f.rest)

def lvmSwitch (pvuuid line : List Byte) (s : LvmScan) : LvmScan :=
  match s.state with
  | .vg =>
    let extent := (scanNumber 32 (ascii "extent_size") line).getD s.extent
    { s with extent := extent, state := if hasText "physical_volumes" line then .volumes else .vg }
  | .volumes =>
    match scanUuid line with
    | some uuid => if uuidCompare 32 pvuuid uuid then { s with state := .volume } else s
    | none => s
  | .volume =>
    match scanPeStart line with
    | some offset => { s with offset := offset, state := .found }
    | none => s
  | .found => { s with peCount := (scanNumber 32 (ascii "pe_count") line).getD s.peCount }

/-- One turn of the loop, before the test for its end. -/
def lvmTurn (pvuuid : List Byte) (s : LvmScan) : LvmScan :=
  let (b, rest) := lvmLine s.b s.rest
  let line := cstr b
  let lev := s.lev + (if hasText "\x7b" line then 1 else 0) - (if hasText "\x7d" line then 1 else 0)
  lvmSwitch pvuuid line { s with b := b, rest := rest, lev := lev }

def lvmLeaves (s : LvmScan) : Prop := hasText "\x7d" (cstr s.b) = true ∧ s.lev = 2 ∧ s.state = .found

instance (s : LvmScan) : Decidable (lvmLeaves s) := inferInstanceAs (Decidable (_ ∧ _ ∧ _))

def lvmLoop (pvuuid : List Byte) : Nat → LvmScan → Fate LvmScan
  | 0, _ => .more
  | fuel + 1, s =>
    let s := lvmTurn pvuuid s
    if lvmLeaves s then .done s else lvmLoop pvuuid fuel s

/-- `*offset` and, when it is set, `lvm_sect`. -/
structure LvmFound where
  offset : Int
  lvmSect : Option Nat
  deriving DecidableEq, Repr

/-- `old` is what the line buffer holds at first. -/
def lvm2Meta (fuel : Nat) (old pvuuid text : List Byte) : Fate LvmFound :=
  (lvmLoop pvuuid fuel ⟨old, text, 0, .vg, 0, 0, 0⟩).bind (fun s =>
    if s.state ≠ .found then .done ⟨0, none⟩
    else .done ⟨(s.offset * 512).bmod (2 ^ 64), some ((s.extent * s.peCount) % 2 ^ 32).toNat⟩)

/-! ### `lvm_check` -/

/-- `fseek` takes a `long`, and stays where it is when that is negative. -/
def fseekLong (pos off : Nat) : Nat := if off % 2 ^ 32 < 2 ^ 31 then off % 2 ^ 32 else pos

/-- What `fread` does not deliver stays. -/
def freadOver (buf data : List Byte) : List Byte := data ++ buf.drop data.length

def fmttMagic : List Byte := ascii " LVM2 x[5A%r0N*>"

/-- `buf[i]` -/
def lvmWord (buf : List Byte) (i : Nat) : Fate Nat := Fate.ofAccess (numberAt 4 buf (4 * i))

/-- `while (*pv) pv += 2`, in the 1024 bytes of the buffer. -/
def skipAreas (buf : List Byte) : Nat → Nat → Fate Nat
  | 0, _ => .fault
  | n + 1, pv => (Fate.ofAccess (numberAt 8 buf pv)).bind (fun area => if area ≠ 0 then skipAreas buf n (pv + 16) else .done pv)

/-- The uuid and where the metadata is. -/
def lvm2Label (dev buf : List Byte) : Fate (Option (List Byte × Nat)) :=
  (lvmWord buf 128).bind (fun id0 => (lvmWord buf 129).bind (fun id1 =>
    if id0 ≠ 0x4542414C ∨ id1 ≠ 0x454E4F4C then .done none
    else (lvmWord buf 134).bind (fun type0 => (lvmWord buf 135).bind (fun type1 =>
      if type0 ≠ 0x324D564C ∨ type1 ≠ 0x31303020 then .done none
      else (lvmWord buf 133).bind (fun offsetXl =>
        let pv := 512 + offsetXl
        (skipAreas buf 64 (pv + 40)).bind (fun areas => (Fate.ofAccess (numberAt 8 buf (areas + 16))).bind (fun mdhOffset =>
          let pos := fseekLong 1024 mdhOffset
          let mdh := freadOver buf ((dev.drop pos).take 512)
          if (mdh.drop 4).take 16 ≠ fmttMagic then .done none
          else (Fate.ofAccess (numberAt 8 mdh 40)).bind (fun off =>
            if off = 0 then .done none
            else .done (some ((buf.drop pv).take 32, fseekLong (pos + 512) ((off + mdhOffset) % 2 ^ 64)))))))))))

def lvmCheck (fuel : Nat) (old dev : List Byte) : Fate LvmFound :=
  let buf := dev.take 1024
  (lvmWord buf 0).bind (fun magic =>
    if magic = 0x00014d48 then
      (lvmWord buf 9).bind (fun start => (lvmWord buf 10).bind (fun size =>
        (lvmWord buf 113).bind (fun peSize => (lvmWord buf 115).bind (fun peAlloc =>
          .done ⟨((start + size) % 2 ^ 32 : Nat), some (peSize * peAlloc % 2 ^ 32)⟩))))
    else (lvm2Label dev buf).bind (fun label =>
      match label with
      | none => .done ⟨0, none⟩
      | some (pvuuid, off) => lvm2Meta fuel old pvuuid (dev.drop off)))

/-- The device's metadata is the text that is parsed. -/
theorem lvmCheck_labelled {dev pvuuid : List Byte} {magic off : Nat}
    (hmagic : lvmWord (dev.take 1024) 0 = .done magic) (hlvm2 : magic ≠ 0x00014d48)
    (hlabel : lvm2Label dev (dev.take 1024) = .done (some (pvuuid, off))) (fuel : Nat)
    (old : List Byte) : lvmCheck fuel old dev = lvm2Meta fuel old pvuuid (dev.drop off) := by
  simp only [lvmCheck, hmagic, hlabel, Fate.bind_done, if_neg hlvm2]

end PulseImaging
