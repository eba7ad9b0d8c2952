import PulseImaging.ByteDecoder

/-! Zlib streams made of stored blocks: two header bytes, blocks that hold their
data as it is, and the Adler-32 sum of the data. -/

namespace PulseImaging

inductive Phase where
  | cmf
  | flg (cmf : Byte)
  | dictid (left : Nat)
  | dict
  | head
  | len (got : List Byte)
  | data (left : Nat)
  | check (got : List Byte)
  | done
  | bad
  deriving DecidableEq, Repr

structure Adler where
  a : Nat
  b : Nat
  deriving DecidableEq, Repr

def Adler.add (s : Adler) (x : Byte) : Adler :=
  ⟨(s.a + x.toNat) % 65521, (s.b + (s.a + x.toNat) % 65521) % 65521⟩

def Adler.bytes (s : Adler) : List Byte :=
  [UInt8.ofNat (s.b / 256), UInt8.ofNat (s.b % 256), UInt8.ofNat (s.a / 256), UInt8.ofNat (s.a % 256)]

structure StoredState where
  phase : Phase
  last : Bool
  sum : Adler
  deriving DecidableEq, Repr

def StoredState.blockEnd (s : StoredState) : StoredState :=
  { s with phase := if s.last then .check [] else .head }

/-- `LEN` and its complement. -/
def StoredState.lengths (s : StoredState) : List Byte → StoredState
  | [l0, l1, n0, n1] =>
    if l0.toNat + n0.toNat = 255 ∧ l1.toNat + n1.toNat = 255 then
      match l0.toNat + 256 * l1.toNat with
      | 0 => s.blockEnd
      | n + 1 => { s with phase := .data n }
    else { s with phase := .bad }
  | got => { s with phase := .len got }

def StoredState.trailer (s : StoredState) (got : List Byte) : StoredState :=
  if got.length < 4 then { s with phase := .check got }
  else if got = s.sum.bytes then { s with phase := .done }
  else { s with phase := .bad }

/-- A header with the `FDICT` flag asks for a preset dictionary. -/
def headerPhase (c x : Byte) : Phase :=
  if c &&& 0x0F = 8 ∧ c.toNat / 16 ≤ 7 ∧ (256 * c.toNat + x.toNat) % 31 = 0 then
    if x &&& 0x20 = 0 then .head else .dictid 3
  else .bad

def StoredState.step (s : StoredState) (x : Byte) : StoredState :=
  match s.phase with
  | .cmf => { s with phase := .flg x }
  | .flg c => { s with phase := headerPhase c x }
  | .dictid 0 => { s with phase := .dict }
  | .dictid (k + 1) => { s with phase := .dictid k }
  | .head => if x &&& 6 = 0 then ⟨.len [], x &&& 1 != 0, s.sum⟩ else { s with phase := .bad }
  | .len got => s.lengths (got ++ [x])
  | .data 0 => { s with sum := s.sum.add x }.blockEnd
  | .data (k + 1) => { s with phase := .data k, sum := s.sum.add x }
  | .check got => s.trailer (got ++ [x])
  | .dict => s
  | .done => s
  | .bad => s

def StoredState.final (s : StoredState) : Option ZRet :=
  match s.phase with
  | .done => some .streamEnd
  | .dict => some .needDict
  | .bad => some .dataError
  | _ => none

def StoredState.copies (s : StoredState) : Bool :=
  match s.phase with
  | .data _ => true
  | _ => false

def StoredState.fresh (s : StoredState) : Bool :=
  match s.phase with
  | .cmf | .flg _ | .dictid _ | .dict => true
  | _ => false

theorem StoredState.blockEnd_fresh (s : StoredState) : s.blockEnd.fresh = false := by
  rw [blockEnd, fresh]
  cases s.last <;> rfl

theorem StoredState.lengths_fresh (s : StoredState) (got : List Byte) :
    (s.lengths got).fresh = false := by
  simp only [lengths]
  split
  · split
    · split
      · exact s.blockEnd_fresh
      · rfl
    · rfl
  · rfl

theorem StoredState.trailer_fresh (s : StoredState) (got : List Byte) :
    (s.trailer got).fresh = false := by
  simp only [trailer]
  split
  · rfl
  · split <;> rfl

theorem StoredState.fresh_of_step (s : StoredState) (b : Byte) (h : (s.step b).fresh = true) :
    s.fresh = true ∧ s.copies = false := by
  obtain ⟨phase, last, sum⟩ := s
  cases phase with
  | cmf => exact ⟨rfl, rfl⟩
  | flg c => exact ⟨rfl, rfl⟩
  | dictid k => exact ⟨rfl, rfl⟩
  | dict => exact ⟨rfl, rfl⟩
  | head =>
    simp only [step] at h
    split at h <;> simp [fresh] at h
  | len got => exact Bool.noConfusion (h.symm.trans (lengths_fresh _ _))
  | data k =>
    cases k with
    | zero => exact Bool.noConfusion (h.symm.trans (blockEnd_fresh _))
    | succ k => simp [step, fresh] at h
  | check got => exact Bool.noConfusion (h.symm.trans (trailer_fresh _ _))
  | done => simp [step, fresh] at h
  | bad => simp [step, fresh] at h

def storedDecoder : ByteDecoder where
  State := StoredState
  init := ⟨.cmf, false, ⟨1, 0⟩⟩
  final := StoredState.final
  copies := StoredState.copies
  step := StoredState.step
  fresh := StoredState.fresh
  final_ne_ok := by
    intro s h
    simp only [StoredState.final] at h
    split at h <;> simp at h
  fresh_of_dict := by
    intro s h
    simp only [StoredState.final] at h
    split at h <;> simp_all [StoredState.fresh]
  fresh_of_step := StoredState.fresh_of_step

def storedBlock (last : Bool) (data : List Byte) : List Byte :=
  [if last then 1 else 0, UInt8.ofNat (data.length % 256), UInt8.ofNat (data.length / 256),
    UInt8.ofNat (255 - data.length % 256), UInt8.ofNat (255 - data.length / 256)] ++ data

def storedBlocks : Nat → List Byte → List Byte
  | 0, data => storedBlock true data
  | fuel + 1, data =>
    if data.length ≤ 65535 then storedBlock true data
    else storedBlock false (data.take 65535) ++ storedBlocks fuel (data.drop 65535)

def adler (s : Adler) (data : List Byte) : Adler := data.foldl Adler.add s

def storedDeflate (calls : List DeflateCall) : List Byte :=
  [0x78, 0x01] ++ storedBlocks (streamInput calls).length (streamInput calls) ++
    (adler ⟨1, 0⟩ (streamInput calls)).bytes

def storedCodec : Codec := ⟨storedDecoder.inflater, storedDeflate⟩

theorem storedDeflate_length {calls : List DeflateCall} (h : (streamInput calls).length ≤ 65535) :
    (storedDeflate calls).length = (streamInput calls).length + 11 := by
  have hblock : storedBlocks (streamInput calls).length (streamInput calls) =
      storedBlock true (streamInput calls) := by
    cases (streamInput calls).length with
    | zero => rfl
    | succ n =>
      rw [storedBlocks, if_pos h]
  rw [storedDeflate, hblock]
  simp [storedBlock, Adler.bytes]

/-! ### The decoder gives back the data -/

theorem stored_decode_cons {s : StoredState} (hf : s.final = none) (hc : s.copies = false) (x : Byte)
    (z : List Byte) : storedDecoder.decode s (x :: z) = storedDecoder.decode (s.step x) z :=
  ByteDecoder.decode_skip (T := storedDecoder) hf hc x z

theorem stored_decode_data (data z : List Byte) {last : Bool} {sum : Adler} {n : Nat}
    (hn : data.length = n + 1) :
    storedDecoder.decode ⟨.data n, last, sum⟩ (data ++ z) =
      (storedDecoder.decode (StoredState.blockEnd ⟨.head, last, adler sum data⟩) z).map
        (data ++ ·) := by
  induction data generalizing n sum with
  | nil => simp at hn
  | cons x data ih =>
    cases n with
    | zero =>
      have hnil : data = [] := List.length_eq_zero_iff.mp (by simpa using hn)
      subst hnil
      simp [ByteDecoder.decode, storedDecoder, StoredState.final, StoredState.copies,
        StoredState.step, StoredState.blockEnd, adler]
    | succ n =>
      have hi := @ih (sum.add x) n (by simpa using hn)
      simp only [List.cons_append, ByteDecoder.decode]
      change (storedDecoder.decode ⟨.data n, last, sum.add x⟩ (data ++ z)).map (fun o => x :: o) = _
      rw [hi, Option.map_map]
      rfl

theorem stored_decode_block {data : List Byte} (h : data.length ≤ 65535) (last l : Bool)
    (sum : Adler) (z : List Byte) :
    storedDecoder.decode ⟨.head, l, sum⟩ (storedBlock last data ++ z) =
      (storedDecoder.decode (StoredState.blockEnd ⟨.head, last, adler sum data⟩) z).map
        (data ++ ·) := by
  have hlo : (UInt8.ofNat (data.length % 256)).toNat = data.length % 256 := by
    simp
  have hhi : (UInt8.ofNat (data.length / 256)).toNat = data.length / 256 := by
    simp
    omega
  have hlo' : (UInt8.ofNat (255 - data.length % 256)).toNat = 255 - data.length % 256 := by
    simp
    omega
  have hhi' : (UInt8.ofNat (255 - data.length / 256)).toNat = 255 - data.length / 256 := by
    simp
    omega
  have hlen : data.length % 256 + 256 * (data.length / 256) = data.length := by omega
  have hhead : storedDecoder.decode ⟨.head, l, sum⟩ (storedBlock last data ++ z) =
      storedDecoder.decode (StoredState.lengths ⟨.len [UInt8.ofNat (data.length % 256),
        UInt8.ofNat (data.length / 256), UInt8.ofNat (255 - data.length % 256)], last, sum⟩
        [UInt8.ofNat (data.length % 256), UInt8.ofNat (data.length / 256),
          UInt8.ofNat (255 - data.length % 256), UInt8.ofNat (255 - data.length / 256)])
          (data ++ z) := by
    have hstep : StoredState.step ⟨.head, l, sum⟩ (if last then 1 else 0) = ⟨.len [], last, sum⟩ := by
      cases last <;> rfl
    rw [storedBlock, List.append_assoc, List.cons_append, stored_decode_cons rfl rfl, hstep,
      List.cons_append, stored_decode_cons rfl rfl, List.cons_append, stored_decode_cons rfl rfl,
      List.cons_append, stored_decode_cons rfl rfl, List.cons_append, stored_decode_cons rfl rfl]
    rfl
  rw [hhead]
  simp only [StoredState.lengths, hlo, hhi, hlo', hhi', hlen]
  rw [if_pos (by omega)]
  cases hd : data.length with
  | zero =>
    have hnil : data = [] := List.length_eq_zero_iff.mp hd
    simp [hnil, StoredState.blockEnd, adler]
  | succ n => exact stored_decode_data data z hd

theorem stored_decode_blocks {fuel : Nat} {data : List Byte} (h : data.length ≤ fuel) (l : Bool)
    (sum : Adler) (z : List Byte) :
    storedDecoder.decode ⟨.head, l, sum⟩ (storedBlocks fuel data ++ z) =
      (storedDecoder.decode ⟨.check [], true, adler sum data⟩ z).map (data ++ ·) := by
  induction fuel generalizing data l sum with
  | zero => exact stored_decode_block (by omega) true l sum z
  | succ fuel ih =>
    rw [storedBlocks]
    split
    · rename_i hle
      exact stored_decode_block hle true l sum z
    · rw [List.append_assoc, stored_decode_block (by simp) false l sum]
      have hi := ih (show (data.drop 65535).length ≤ fuel by rw [List.length_drop]; omega) false
        (adler sum (data.take 65535))
      simp only [StoredState.blockEnd, Bool.false_eq_true, if_false]
      rw [hi, Option.map_map, adler, adler, ← List.foldl_append, List.take_append_drop]
      congr 1
      funext o
      simp only [Function.comp_apply, ← List.append_assoc, List.take_append_drop]

theorem storedCodec_correct : storedCodec.Correct := by
  refine ⟨_, storedDecoder.decodes, fun calls _ => ?_⟩
  have hend (sum : Adler) (last : Bool) :
      storedDecoder.decode ⟨.check [], last, sum⟩ sum.bytes = some [] := by
    simp [Adler.bytes, ByteDecoder.decode, storedDecoder, StoredState.final, StoredState.copies,
      StoredState.step, StoredState.trailer]
  have hblocks := stored_decode_blocks (Nat.le_refl (streamInput calls).length) false ⟨1, 0⟩
    (adler ⟨1, 0⟩ (streamInput calls)).bytes
  rw [hend, Option.map_some, List.append_nil] at hblocks
  change storedDecoder.decode storedDecoder.init (storedDeflate calls) = some (streamInput calls)
  rw [← hblocks, storedDeflate, List.append_assoc, List.cons_append, List.cons_append,
    List.nil_append,
    show storedDecoder.init = (⟨.cmf, false, ⟨1, 0⟩⟩ : StoredState) from rfl,
    stored_decode_cons rfl rfl, stored_decode_cons rfl rfl]
  rfl

end PulseImaging
