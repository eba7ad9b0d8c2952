import PulseImaging.FlushToDisk
import PulseImaging.Unpack

/-! The programs `decompress` and `decompress-test`, two more copies of the
decompression loop. -/

namespace PulseImaging

/-- An output file, which grows when it is written at its end. -/
structure OutFile where
  content : Content
  size : Nat
  pos : Nat

def OutFile.write (f : OutFile) (data : List Byte) : OutFile :=
  ⟨patch f.content f.pos data, max f.size (f.pos + data.length), f.pos + data.length⟩

def OutFile.eof (f : OutFile) : Bool := f.size == f.pos

def zeros (n : Nat) : List Byte := List.replicate n 0

/-- The writes of `fill`: whole sectors while more than 512 bytes are left. -/
def fillZeros : Nat → OutFile → Nat → OutFile
  | 0, f, _ => f
  | fuel + 1, f, bytes =>
    if 512 < bytes then fillZeros fuel (f.write (zeros 512)) (bytes - 512) else f.write (zeros bytes)

def OutFile.fill (f : OutFile) (bytes : Nat) : OutFile :=
  if f.eof then fillZeros (bytes + 1) f bytes else { f with pos := f.pos + bytes }

/-- `PARAMS` of `decompress.c`, and the number written to `/tmp/blocks`; without
arguments for an output file `fo` is 0. -/
structure DecompressParams where
  bitindex : Nat
  fo : Option OutFile
  offset : Nat
  blocks : Option Int

def DecompressParams.skipBit (t : DecompressParams) : DecompressParams :=
  { t with bitindex := t.bitindex + 1, offset := t.offset + 512, fo := t.fo.map (fun f => f.fill 512) }

def DecompressParams.writeBit (t : DecompressParams) (data : List Byte) : DecompressParams :=
  { t with bitindex := t.bitindex + 1, offset := t.offset + 512, fo := t.fo.map (fun f => f.write data) }

def DecompressParams.skipClear (bit : List Byte) : Nat → DecompressParams → Option DecompressParams
  | 0, _ => none
  | fuel + 1, t =>
    (testBit bit t.bitindex).bind (fun b => if b then some t else t.skipBit.skipClear bit fuel)

def DecompressParams.flushLoop (buff bit : List Byte) : Nat → Nat → DecompressParams → Option DecompressParams
  | 0, _, t => some t
  | n + 1, ptr, t =>
    (t.skipClear bit (8 * bit.length + 1)).bind (fun t =>
      (t.writeBit ((buff.drop ptr).take 512)).flushLoop buff bit n (ptr + 512))

def DecompressParams.flush (t : DecompressParams) (buff bit : List Byte) (lg : Nat) : Option DecompressParams :=
  t.flushLoop buff bit ((lg + 511) / 512) 0

def decompressSink : Sink DecompressParams where
  header t buffer := { t with
    bitindex := 0
    blocks := match strstr blocksKey (cstr buffer) with
      | some _ => some ((headerField blocksKey buffer).getD 0)
      | none => t.blocks }
  flush t buffer bitmap lg := t.flush buffer bitmap lg

/-- The seek or the zeros over the clear bits at the end of a file. -/
def DecompressParams.lastFill (t : DecompressParams) (bitmaplg : Int) : DecompressParams :=
  if bitmaplg ≠ 0 ∧ bitmaplg * 8 > t.bitindex then
    let s := 512 * (bitmaplg * 8 - t.bitindex).toNat
    { t with offset := t.offset + s, fo := t.fo.map (fun f => f.fill s) }
  else t

structure DecompressState where
  fo : Option OutFile
  blocks : Option Int
  buffer : List Byte
  bitmap : List Byte

/-- The output file is opened and moved to the offset given. -/
def DecompressState.params (st : DecompressState) (offset : Nat) : DecompressParams :=
  match st.fo with
  | some f => ⟨0, some { f with pos := offset }, offset, st.blocks⟩
  | none => ⟨0, none, 0, st.blocks⟩

/-- From the label `start` of `decompress` to the last `inflate`. -/
def decompressPass (Z : Inflater) (fuel : Nat) (file : List Byte) (offset : Nat) (st : DecompressState) :
    Option (Pass Z.State DecompressParams) :=
  Unpack.pass Z decompressSink fuel (Unpack.start Z file st.buffer st.bitmap (st.params offset))

/-- When the file is taken, the result is the number written to `/tmp/offset`. -/
def decompressAttempt (Z : Inflater) (fuel : Nat) (file : List Byte) (offset : Nat) (st : DecompressState) :
    Option (Option Nat × DecompressState) :=
  (decompressPass Z fuel file offset st).map (fun p =>
    let t := p.state.core.sink
    if p.final.code < 0 then (none, ⟨t.fo, t.blocks, p.state.buffer, p.state.core.bitmap⟩)
    else
      let t := t.lastFill p.state.core.bitmaplg
      (some t.offset, ⟨t.fo, t.blocks, p.state.buffer, p.state.core.bitmap⟩))

/-- `main` of `decompress`, with the input file as it is found at each attempt. -/
def decompress (Z : Inflater) (fuel : Nat) (get : Nat → Option (List Byte)) (offset : Nat) :
    Nat → Nat → DecompressState → Option (Nat × DecompressState)
  | 0, _, _ => none
  | turns + 1, attempt, st =>
    (get attempt).bind (fun file =>
      (decompressAttempt Z fuel file offset st).bind (fun x =>
        match x.1 with
        | some written => some (written, x.2)
        | none => decompress Z fuel get offset turns (attempt + 1) x.2))

/-! ### `decompress-test` -/

/-- The calls of `flushToDisk` are commented out. -/
def testSink : Sink Unit where
  header t _ := t
  flush t _ _ _ := some t

/-- Files whose names have four characters at least and end in three digits. -/
def tested (name : List Byte) : Bool :=
  4 ≤ name.length && (name.drop (name.length - 3)).all isDigit

structure Buffers where
  buffer : List Byte
  bitmap : List Byte

def testPass (Z : Inflater) (fuel : Nat) (file : List Byte) (b : Buffers) : Option (Pass Z.State Unit) :=
  Unpack.pass Z testSink fuel (Unpack.start Z file b.buffer b.bitmap ())

/-- One file; the flag says that the program goes on. -/
def decompressTestFile (Z : Inflater) (fuel : Nat) (file : List Byte) (b : Buffers) : Option (Bool × Buffers) :=
  (testPass Z fuel file b).map (fun p =>
    (¬ p.final.code < 0, ⟨p.state.buffer, p.state.core.bitmap⟩))

/-- `true`: "Verified files are OK", `false`: aborted. -/
def decompressTest (Z : Inflater) (fuel : Nat) : List (List Byte × List Byte) → Buffers → Option Bool
  | [], _ => some true
  | (name, file) :: dir, b =>
    if tested name then
      (decompressTestFile Z fuel file b).bind (fun x => if x.1 then decompressTest Z fuel dir x.2 else some false)
    else decompressTest Z fuel dir b

end PulseImaging
