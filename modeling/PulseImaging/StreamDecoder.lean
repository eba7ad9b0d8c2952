import PulseImaging.Bitmap

/-! Stream compression with the calling convention of zlib: the decoder takes a
piece of input and some room for output and reports a code; the encoder is seen
as the bytes it has written when its stream is finished. -/

namespace PulseImaging

inductive ZRet where
  | ok
  | streamEnd
  | needDict
  | streamError
  | dataError
  | memError
  | bufError
  deriving DecidableEq, Repr

def ZRet.code : ZRet → Int
  | .ok => 0
  | .streamEnd => 1
  | .needDict => 2
  | .streamError => -2
  | .dataError => -3
  | .memError => -4
  | .bufError => -5

inductive Flush where
  | sync
  | finish
  deriving DecidableEq, Repr

structure Inflated (σ : Type) where
  ret : ZRet
  consumed : Nat
  out : List Byte
  state : σ

structure Inflater where
  State : Type
  init : State
  inflate : State → List Byte → Nat → Flush → Inflated State

/-- One input buffer given to the encoder, with the flag that ends the stream. -/
structure DeflateCall where
  data : List Byte
  last : Bool
  deriving DecidableEq, Repr

structure Codec where
  inflater : Inflater
  deflate : List DeflateCall → List Byte

def streamInput (calls : List DeflateCall) : List Byte := (calls.map DeflateCall.data).flatten

/-- The last call, and no other, ends the stream. -/
def Finished (calls : List DeflateCall) : Prop :=
  ∃ init c, calls = init ++ [c] ∧ c.last = true ∧ ∀ x ∈ init, x.last = false

/-- The decoder follows streams it has not yet read to the end: `rel s z o`
says that in state `s` the bytes `z` are still to come and stand for `o`. -/
structure Inflater.Decodes (Z : Inflater) (rel : Z.State → List Byte → List Byte → Prop) : Prop where
  consumed_le : ∀ {s z o inp n} fl, rel s z o → inp <+: z → 0 < n →
    (Z.inflate s inp n fl).consumed ≤ inp.length
  out_le : ∀ {s z o inp n} fl, rel s z o → inp <+: z → 0 < n →
    (Z.inflate s inp n fl).out.length ≤ n
  out_prefix : ∀ {s z o inp n} fl, rel s z o → inp <+: z → 0 < n →
    (Z.inflate s inp n fl).out <+: o
  next : ∀ {s z o inp n} fl, rel s z o → inp <+: z → 0 < n →
    rel (Z.inflate s inp n fl).state (z.drop (Z.inflate s inp n fl).consumed)
      (o.drop (Z.inflate s inp n fl).out.length)
  ret_cases : ∀ {s z o inp n} fl, rel s z o → inp <+: z → 0 < n →
    (Z.inflate s inp n fl).ret = .ok ∨ (Z.inflate s inp n fl).ret = .streamEnd ∨
      (Z.inflate s inp n fl).ret = .bufError
  end_iff : ∀ {s z o inp n} fl, rel s z o → inp <+: z → 0 < n →
    ((Z.inflate s inp n fl).ret = .streamEnd ↔
      z.drop (Z.inflate s inp n fl).consumed = [] ∧ o.drop (Z.inflate s inp n fl).out.length = [])
  ok_progress : ∀ {s z o inp n} fl, rel s z o → inp <+: z → 0 < n →
    (Z.inflate s inp n fl).ret = .ok →
      0 < (Z.inflate s inp n fl).consumed + (Z.inflate s inp n fl).out.length
  ok_greedy : ∀ {s z o inp n} fl, rel s z o → inp <+: z → 0 < n →
    (Z.inflate s inp n fl).ret = .ok →
      (Z.inflate s inp n fl).consumed = inp.length ∨ (Z.inflate s inp n fl).out.length = n
  stuck : ∀ {s z o inp n}, rel s z o → inp <+: z → 0 < n →
    (Z.inflate s inp n .sync).ret = .bufError →
      inp = [] ∧ (Z.inflate s inp n .sync).out = []
  finish_ne_ok : ∀ {s z o inp n}, rel s z o → inp <+: z → 0 < n →
    (Z.inflate s inp n .finish).ret ≠ .ok
  trailer : ∀ {s o}, rel s [] o → o = []

/-- The decoder gives back the encoder's input, under any chunking, and reports
the end of the stream exactly there. -/
structure Codec.Correct (C : Codec) : Prop where
  follows : ∃ rel, C.inflater.Decodes rel ∧
    ∀ calls, Finished calls → rel C.inflater.init (C.deflate calls) (streamInput calls)

/-- The room given is respected, and the end of the stream is final and without output. Any release of
zlib keeps to this. -/
structure Inflater.EndsOnce (Z : Inflater) : Prop where
  out_le : ∀ s inp n fl, (Z.inflate s inp n fl).out.length ≤ n
  end_final : ∀ s inp n fl inp' n' fl', (Z.inflate s inp n fl).ret = .streamEnd →
    (Z.inflate (Z.inflate s inp n fl).state inp' n' fl').ret = .streamEnd
  end_silent : ∀ s inp n fl inp' n' fl', (Z.inflate s inp n fl).ret = .streamEnd →
    (Z.inflate (Z.inflate s inp n fl).state inp' n' fl').out = []

/-- What the documentation of the system's zlib promises on any input beyond that: a missing dictionary
and an error are final, `Z_FINISH` never gives `Z_OK`, a call that could make no progress makes none when
repeated, and a dictionary is asked for by the head of a stream, in states that precede all output. -/
structure Inflater.Documented (Z : Inflater) : Prop extends Z.EndsOnce where
  finish_ne_ok : ∀ s inp n, (Z.inflate s inp n .finish).ret ≠ .ok
  dict_final : ∀ s inp n fl inp' n' fl', (Z.inflate s inp n fl).ret = .needDict →
    (Z.inflate (Z.inflate s inp n fl).state inp' n' fl').ret = .needDict
  error_final : ∀ s inp n fl inp' n' fl', (Z.inflate s inp n fl).ret.code < 0 →
    (Z.inflate s inp n fl).ret ≠ .bufError →
    (Z.inflate (Z.inflate s inp n fl).state inp' n' fl').ret.code < 0
  stuck_again : ∀ s inp n, (Z.inflate s inp n .sync).ret = .bufError →
    (Z.inflate (Z.inflate s inp n .sync).state (inp.drop (Z.inflate s inp n .sync).consumed)
      (n - (Z.inflate s inp n .sync).out.length) .finish).ret = .bufError
  dict_early : ∃ fresh : Z.State → Prop, ∀ s inp n fl,
    (fresh (Z.inflate s inp n fl).state → fresh s ∧ (Z.inflate s inp n fl).out = []) ∧
    ((Z.inflate s inp n fl).ret = .needDict → fresh (Z.inflate s inp n fl).state)

end PulseImaging
