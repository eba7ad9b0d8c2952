import PulseImaging.CompressVolume
import PulseImaging.Fate

/-! The functions of `compress.c` that drive `deflate`, of which only what zlib documents is
known. -/

namespace PulseImaging

/-! ### `deflate` -/

inductive DeflateFlush where
  | noFlush
  | fullFlush
  | finish
  deriving DecidableEq, Repr

structure Deflated (σ : Type) where
  ret : ZRet
  consumed : Nat
  out : List Byte
  state : σ

structure Deflater where
  State : Type
  init : State
  deflate : State → List Byte → Nat → DeflateFlush → Deflated State

/-- Where a stream is. `full` says that the last call left no room, `rest` is what a call with
`Z_FINISH` left of its input. -/
inductive DeflateStage where
  | writing (full : Bool)
  | finishing (full : Bool) (rest : List Byte)
  | ended
  deriving DecidableEq, Repr

def DeflateStage.full : DeflateStage → Bool
  | .writing full => full
  | .finishing full _ => full
  | .ended => false

/-- After a call with `Z_FINISH` come only such calls, without more input. -/
def DeflateStage.Allows : DeflateStage → DeflateFlush → List Byte → Prop
  | .writing _, _, _ => True
  | .finishing _ rest, fl, inp => fl = .finish ∧ inp = rest
  | .ended, fl, inp => fl = .finish ∧ inp = []

def DeflateStage.after (fl : DeflateFlush) (full : Bool) (rest : List Byte) (ret : ZRet) : DeflateStage :=
  if ret = .streamEnd then .ended else if fl = .finish then .finishing full rest else .writing full

/-- How much `n` calls give that go on with the same input. The room is what the last call left, or
a whole buffer where that is none. -/
def Deflater.produced (Z : Deflater) (size : Nat) (fl : DeflateFlush) : Nat → Z.State → List Byte → Nat → Nat
  | 0, _, _, _ => 0
  | n + 1, s, inp, room =>
    let r := Z.deflate s inp room fl
    r.out.length + Z.produced size fl n r.state (inp.drop r.consumed)
      (if r.out.length = room then size else room - r.out.length)

/-- What zlib documents, for buffers of `size` bytes. -/
structure Deflater.Contract (Z : Deflater) (size : Nat) (stage : Z.State → DeflateStage → Prop) : Prop where
  start : stage Z.init (.writing false)
  consumed_le : ∀ {s st inp room fl}, stage s st → st.Allows fl inp → 0 < room →
    (Z.deflate s inp room fl).consumed ≤ inp.length
  out_le : ∀ {s st inp room fl}, stage s st → st.Allows fl inp → 0 < room →
    (Z.deflate s inp room fl).out.length ≤ room
  next : ∀ {s st inp room fl}, stage s st → st.Allows fl inp → 0 < room →
    stage (Z.deflate s inp room fl).state
      (.after fl (decide ((Z.deflate s inp room fl).out.length = room)) (inp.drop (Z.deflate s inp room fl).consumed)
        (Z.deflate s inp room fl).ret)
  ret_cases : ∀ {s st inp room fl}, stage s st → st.Allows fl inp → 0 < room →
    (Z.deflate s inp room fl).ret = .ok ∨ (Z.deflate s inp room fl).ret = .streamEnd ∨
      (Z.deflate s inp room fl).ret = .bufError
  /-- Progress, but for a call without input after one that left no room. -/
  ok_progress : ∀ {s st inp room fl}, stage s st → st.Allows fl inp → 0 < room →
    (Z.deflate s inp room fl).ret = .ok →
      0 < (Z.deflate s inp room fl).consumed + (Z.deflate s inp room fl).out.length ∨ inp = [] ∧ st.full = true
  end_finish : ∀ {s st inp room fl}, stage s st → st.Allows fl inp → 0 < room →
    (Z.deflate s inp room fl).ret = .streamEnd → fl = .finish ∧ (Z.deflate s inp room fl).consumed = inp.length
  stuck : ∀ {s st inp room fl}, stage s st → st.Allows fl inp → 0 < room →
    (Z.deflate s inp room fl).ret = .bufError → inp = [] ∧ fl ≠ .finish ∧ st.full = false
  silent : ∀ {s room}, stage s .ended → 0 < room →
    (Z.deflate s [] room .finish).ret = .streamEnd ∧ (Z.deflate s [] room .finish).out = []
  finite : ∀ {s st inp room fl}, stage s st → st.Allows fl inp → 0 < room →
    ∃ bound, ∀ n, Z.produced size fl n s inp room ≤ bound

/-! ### `COMPRESS` -/

def compressOutbuff : Nat := 8192

def blockflush : Nat := 10

/-- A call of `deflate`: the input it took, its output and its code. -/
structure DeflateStep where
  taken : List Byte
  out : List Byte
  ret : ZRet
  deriving DecidableEq, Repr

/-- With the output file and the calls that were made. -/
structure Compress (Z : Deflater) where
  zptr : Z.State
  outbuff : List Byte
  nextOut : Nat
  availOut : Nat
  ended : Bool
  state : DeflateFlush
  compressedBlocks : Nat
  file : List Byte
  steps : List DeflateStep

variable {Z : Deflater}

/-- `old` is what `malloc` left in the buffer. -/
def compressInit (Z : Deflater) (old : List Byte) : Compress Z :=
  ⟨Z.init, old, 0, compressOutbuff, false, .noFlush, blockflush, [], []⟩

/-- `fwrite` of one item. -/
def fwriteCount (item : List Byte) : Nat := if item = [] then 0 else 1

/-- The output goes to the buffer. -/
def Compress.deflate (c : Compress Z) (inp : List Byte) (fl : DeflateFlush) : Compress Z :=
  let r := Z.deflate c.zptr inp c.availOut fl
  { c with
    zptr := r.state
    outbuff := overlay c.outbuff c.nextOut r.out
    nextOut := c.nextOut + r.out.length
    availOut := c.availOut - r.out.length
    steps := c.steps ++ [⟨inp.take r.consumed, r.out, r.ret⟩] }

/-- The buffer is written and used from its front again. -/
def Compress.flush (c : Compress Z) (item : List Byte) : Compress Z :=
  { c with file := c.file ++ item, availOut := compressOutbuff, nextOut := 0 }

/-- The flush mode is over when there is no more input. -/
def Compress.settle (c : Compress Z) (inp : List Byte) : Compress Z :=
  if c.state ≠ .noFlush ∧ inp = [] ∧ c.availOut ≠ 0 then { c with state := .noFlush } else c

/-- How `deflate` is called. -/
def Compress.mode (c : Compress Z) (last : Bool) : DeflateFlush := if last then .finish else c.state

/-- The loop of `compress_data`, with the jump back to `deflate_again`. -/
def Compress.dataLoop (last : Bool) : Nat → Compress Z → List Byte → Fate (Compress Z)
  | 0, _, _ => .more
  | fuel + 1, c, inp =>
    let r := Z.deflate c.zptr inp c.availOut (c.mode last)
    let c := c.deflate inp (c.mode last)
    let inp := inp.drop r.consumed
    if c.availOut = 0 then
      .orExit (fwriteCount c.outbuff = 1) (dataLoop last fuel (c.flush c.outbuff) inp)
    else
      let c := c.settle inp
      if r.ret = .streamEnd then
        let item := c.outbuff.take (compressOutbuff - c.availOut)
        .orExit (fwriteCount item = 1 ∨ compressOutbuff - c.availOut = 0) (.done (c.flush item))
      else .orExit (r.ret = .ok) (if inp ≠ [] ∨ last = true then dataLoop last fuel c inp else .done c)

def Compress.compressData (fuel : Nat) (c : Compress Z) (data : List Byte) (last : Bool) : Fate (Compress Z) :=
  let blocks := c.compressedBlocks + 1
  let c :=
    if blockflush ≤ blocks then { c with compressedBlocks := 0, state := .fullFlush }
    else { c with compressedBlocks := blocks }
  (if last then { c with ended := true } else c).dataLoop last fuel data

def Compress.compressEnd (fuel : Nat) (c : Compress Z) : Fate (Compress Z) :=
  if c.availOut ≠ compressOutbuff ∨ c.ended = false then c.compressData fuel [] true else .done c

/-- The calls of `compress_data` for one file. -/
def compressCalls (fuel : Nat) (c : Compress Z) (calls : List DeflateCall) : Fate (Compress Z) :=
  Fate.loop (fun c x => c.compressData fuel x.data x.last) calls c

def compressStream (fuel : Nat) (Z : Deflater) (old : List Byte) (calls : List DeflateCall) : Fate (Compress Z) :=
  (compressCalls fuel (compressInit Z old) calls).bind (Compress.compressEnd fuel)

end PulseImaging
