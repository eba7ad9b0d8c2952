import PulseImaging.ImageStream
import PulseImaging.LinkedQueue

/-! `new_get` of the boot loader: a file is received in blocks, collected in chunks,
decompressed and written to the disk, all in one polling loop. -/

namespace PulseImaging

def TFTPBLOCK : Nat := 1456
def NB_BUF : Nat := 10
def INBUFF : Nat := 8192
def OUTBUFF : Nat := 24064

/-! ### Header fields -/

def toLower (b : Byte) : Byte := if 65 ≤ b ∧ b ≤ 90 then b + 32 else b

/-- The value of a digit of `safe_parse_maxint`; letters count in hexadecimal only. -/
def digitOf (mult : Nat) (b : Byte) : Option Nat :=
  let c := (toLower b).toNat
  if 48 ≤ c ∧ c ≤ 57 then some (c - 48)
  else if mult ≠ 10 ∧ 97 ≤ c ∧ c ≤ 102 then some (c - 97 + 10)
  else none

def parseDigits (mult : Nat) : Nat → Bool → List Byte → Option Nat
  | acc, found, [] => if found then some acc else none
  | acc, found, b :: t =>
    match digitOf mult b with
    | some d => if acc > (2 ^ 31 - 1 - d) / mult then none else parseDigits mult (acc * mult + d) true t
    | none => if found then some acc else none

/-- `safe_parse_maxint`: decimal, or hexadecimal after `0x`; no sign, no overflow. -/
def safeParseMaxint (t : List Byte) : Option Nat :=
  match t with
  | b :: c :: t' => if b = 48 ∧ toLower c = 120 then parseDigits 16 0 false t' else parseDigits 10 0 false t
  | _ => parseDigits 10 0 false t

/-- The text after `key=` in the buffer. -/
def fieldText (key : String) (buffer : List Byte) : Option (List Byte) :=
  (strstr (ascii key ++ ascii "=") (cstr buffer)).map (fun t => t.drop (key.length + 1))

/-- `val`: -1 if there is no such field; a field that cannot be read leaves the loop
index of the search, which is the length of the key. -/
def val (key : String) (buffer : List Byte) : Int :=
  match fieldText key buffer with
  | some t => match safeParseMaxint t with
    | some v => v
    | none => key.length
  | none => -1

def existField (key : String) (buffer : List Byte) : Bool := (fieldText key buffer).isSome

/-- The globals set from the header of an image. -/
structure ImageInfo where
  fat : Bool
  ntfs : Bool
  files : Int
  newLen : Int
  newType : Int
  deriving DecidableEq, Repr

def ImageInfo.read (info : ImageInfo) (buffer : List Byte) : ImageInfo where
  fat := info.fat || existField "FAT32" buffer
  ntfs := info.ntfs || existField "NTFS" buffer
  files := if existField "BLOCKS" buffer then val "BLOCKS" buffer else info.files
  newLen := if existField "SECTORS" buffer then val "SECTORS" buffer else info.newLen
  newType := if existField "TYPE" buffer then val "TYPE" buffer else info.newType

/-! ### Writing a decompressed buffer -/

/-- `sect` with `sectptr` and `sectmask`; sector numbers are 32-bit. -/
structure Cursor where
  sect : Nat
  ptr : Nat
  mask : Nat
  deriving DecidableEq, Repr

def Cursor.inc (c : Cursor) : Cursor :=
  if c.mask * 2 = 256 then { c with ptr := c.ptr + 1, mask := 1 } else { c with mask := c.mask * 2 }

def Cursor.move (c : Cursor) (n : Nat) : Cursor := { c with sect := (c.sect + n) % 2 ^ 32 }

/-- `alloc[sectptr] & sectmask`; the byte just past the array is `past`, reading
further is a fault. -/
def Cursor.bit (alloc : List Byte) (past : Byte) (c : Cursor) : Option Bool :=
  (alloc ++ [past])[c.ptr]?.map (fun b => b.toNat &&& c.mask != 0)

def skipClear (alloc : List Byte) (past : Byte) : Nat → Cursor → Option Cursor
  | 0, _ => none
  | fuel + 1, c =>
    (c.bit alloc past).bind (fun b => if b then some c else skipClear alloc past fuel (c.move 1).inc)

/-- Counts set bits, at most up to sector `n` of the buffer. -/
def takeRun (alloc : List Byte) (past : Byte) (n i : Nat) : Nat → Nat → Cursor → Option (Nat × Cursor)
  | 0, _, _ => none
  | fuel + 1, nb, c =>
    (c.bit alloc past).bind (fun b =>
      if b ∧ i + nb < n then takeRun alloc past n i fuel (nb + 1) c.inc else some (nb, c))

/-- `biosdisk(BIOSDISK_WRITE, ...)` for `nb` sectors from sector `i` of the buffer on. -/
def writeSectors (disk : Content) (buffer : List Byte) (sect i nb : Nat) : Content :=
  patch disk (512 * sect) ((buffer.drop (512 * i)).take (512 * nb))

/-- The loop over the `n` sectors of a buffer. A run is cut at the end of the disk; a
run behind the end is reported and skipped. -/
def writeLoop (total : Nat) (alloc : List Byte) (past : Byte) (buffer : List Byte) (n : Nat) :
    Nat → Nat → Cursor → Content → Option (Cursor × Content)
  | 0, i, c, disk => if i < n then none else some (c, disk)
  | fuel + 1, i, c, disk =>
    if i < n then
      (skipClear alloc past (8 * alloc.length + 9) c).bind (fun c =>
        (takeRun alloc past n i (n + 1) 0 c).bind (fun x =>
          let nb := if x.2.sect < total ∧ (x.2.sect + x.1) % 2 ^ 32 > total then total - x.2.sect else x.1
          let disk := if x.2.sect < total then writeSectors disk buffer x.2.sect i nb else disk
          writeLoop total alloc past buffer n fuel (i + nb) (x.2.move nb) disk))
    else some (c, disk)

/-! ### The polling loop -/

/-- A received datagram: operation code, block number and data. -/
structure Datagram where
  op : Nat
  block : Nat
  payload : List Byte
  op_lt : op < 2 ^ 16
  block_lt : block < 2 ^ 16
  payload_le : payload.length ≤ TFTPBLOCK

/-- What the surroundings do during one turn of the inner loop: a new second begins,
a datagram can be had, and the byte behind the `alloc` array has some value. -/
structure Event where
  tick : Bool
  poll : Option Datagram
  past : Byte

/-- The variable `end`: 0, 1 and 2. -/
inductive Ending where
  | no
  | flushing
  | over
  deriving DecidableEq, Repr

/-- The variables of `new_get`; `compressed` and `availIn` are the used parts of their
buffers and `outPos` is `OUTBUFF - avail_out`. `accepted`, `fed`, `produced` and `written`
record the attempt: the data packets taken, the bytes consumed by the decoder, its output
and the output handed to the write loop. -/
structure GetState (σ : Type) where
  restarts : Nat
  disk : Content
  info : ImageInfo
  saveSect : Nat
  cursor : Cursor
  alloc : List Byte
  queue : LinkedQueue NB_BUF Byte
  compressed : List Byte
  compressedFull : Bool
  availIn : List Byte
  z : σ
  flush : Flush
  buffer : List Byte
  outPos : Nat
  dbufFull : Bool
  dbufSize : Nat
  firstblock : Bool
  tftpend : Bool
  ending : Ending
  lastblk : Int
  timeout : Nat
  accepted : List Datagram
  fed : List Byte
  produced : List Byte
  written : List Byte

/-- The decoder, its state after each `inflateInit`, the first sector of the partition
and the size of the disk. -/
structure GetEnv where
  decoder : Inflater
  init : Nat → decoder.State
  inSect : Nat
  total : Nat

variable {σ : Type}

/-- The label `restart`: `alloc`, `sectptr`, `sectmask` and the output buffer keep what
they hold. -/
def GetEnv.restart (E : GetEnv) (s : GetState E.decoder.State) : GetState E.decoder.State where
  restarts := s.restarts + 1
  disk := s.disk
  info := s.info
  saveSect := E.inSect
  cursor := { s.cursor with sect := E.inSect }
  alloc := s.alloc
  queue := LinkedQueue.empty NB_BUF Byte
  compressed := []
  compressedFull := false
  availIn := []
  z := E.init (s.restarts + 1)
  flush := .sync
  buffer := s.buffer
  outPos := 0
  dbufFull := false
  dbufSize := 0
  firstblock := true
  tftpend := false
  ending := .no
  lastblk := -1
  timeout := 0
  accepted := []
  fed := []
  produced := []
  written := []

/-- Where a piece of the loop body leads. -/
inductive Flow (σ : Type) where
  | go (s : GetState σ)
  | again (s : GetState σ)
  | ret (code : Nat) (s : GetState σ)

/-- The first full buffer is the header. -/
def GetState.readHeader (s : GetState σ) : GetState σ :=
  { s with
    alloc := (s.buffer.drop HEADERLG).take ALLOCLG
    firstblock := false
    cursor := { s.cursor with ptr := 0, mask := 1 }
    saveSect := ((s.saveSect + val "ALLOCTABLELG" s.buffer * 8) % 2 ^ 32).toNat
    info := s.info.read s.buffer }

/-- A full disk buffer is written and emptied. -/
def GetState.writeBuffer (total : Nat) (past : Byte) (s : GetState σ) : Option (GetState σ) :=
  (if s.firstblock then some s.readHeader
    else (writeLoop total s.alloc past s.buffer (s.dbufSize / 512) (s.dbufSize / 512) 0 s.cursor s.disk).map
      (fun x => { s with
        cursor := x.1, disk := x.2, written := s.written ++ s.buffer.take (512 * (s.dbufSize / 512)) })).map
    (fun t => { t with
      outPos := 0, dbufFull := false, ending := if t.ending = .flushing then .over else t.ending })

/-- A collected chunk is given to the decoder once the last one is used up. -/
def GetState.load (s : GetState σ) : GetState σ :=
  if s.ending = .no ∧ s.compressedFull ∧ s.availIn = [] then { s with availIn := s.compressed } else s

def GetState.advance (s : GetState σ) (r : Inflated σ) : GetState σ :=
  { s with
    z := r.state
    availIn := s.availIn.drop r.consumed
    buffer := overlay s.buffer s.outPos r.out
    outPos := s.outPos + r.out.length
    fed := s.fed ++ s.availIn.take r.consumed
    produced := s.produced ++ r.out }

/-- The stream has ended: what is in the output buffer is to be written. -/
def GetState.finished (s : GetState σ) : GetState σ :=
  { s with flush := .finish, ending := .flushing, dbufFull := true, dbufSize := s.outPos }

/-- A used up chunk makes room for the next one. -/
def GetState.used (s : GetState σ) : GetState σ := if s.availIn = [] then { s with compressedFull := false } else s

def GetState.filled (s : GetState σ) : GetState σ :=
  if s.outPos = OUTBUFF then { s with dbufFull := true, dbufSize := s.outPos } else s

def GetEnv.call (E : GetEnv) (s : GetState E.decoder.State) : Inflated E.decoder.State :=
  E.decoder.inflate s.z s.availIn (OUTBUFF - s.outPos) s.flush

/-- The call of `inflate` and the tests of its code. -/
def GetEnv.inflateTurn (E : GetEnv) (s : GetState E.decoder.State) : Flow E.decoder.State :=
  let r := E.call s
  let s := s.advance r
  let ret := if r.ret = .bufError ∧ s.outPos = OUTBUFF then .ok else r.ret
  if ret = .streamEnd then .go s.finished
  else if ret ≠ .ok then .again s
  else .go s.used.filled

/-- `tot_lg(first)`; `none` if the links do not come to an end. -/
def GetState.totLg (s : GetState σ) : Option Nat :=
  match s.queue.first with
  | some f => s.queue.totalFrom NB_BUF f
  | none => some 0

/-- The next chunk is collected from the queue when there is enough for one, or at the
end of the transfer. -/
def GetState.collect (s : GetState σ) : Option (GetState σ) :=
  s.totLg.bind (fun total =>
    if (INBUFF ≤ total ∨ s.tftpend ∧ 0 < total) ∧ s.queue.first.isSome then
      if s.compressedFull then some s
      else
        (LinkedQueue.drain (NB_BUF + 1) s.queue (min (if s.tftpend then total else INBUFF) INBUFF) []).map
          (fun x => { s with queue := x.1, compressed := x.2, compressedFull := true })
    else some s)

/-- The body of the inner loop up to the label `endturn`. -/
def GetEnv.body (E : GetEnv) (past : Byte) (s : GetState E.decoder.State) : Option (Flow E.decoder.State) :=
  if s.dbufFull then (s.writeBuffer E.total past).map .go
  else
    let s := s.load
    if s.outPos < OUTBUFF ∧ s.availIn ≠ [] then some (E.inflateTurn s)
    else s.collect.map .go

def GetState.clock (tick : Bool) (s : GetState σ) : Flow σ :=
  if tick then
    if s.timeout + 1 > 10 then .again s else .go { s with timeout := s.timeout + 1 }
  else .go s

def GetState.accept (s : GetState σ) (i : Fin NB_BUF) (d : Datagram) : GetState σ :=
  { s with
    lastblk := d.block
    queue := s.queue.push i d.payload
    tftpend := d.payload.length < TFTPBLOCK
    accepted := s.accepted ++ [d] }

/-- The `switch` over the operation codes, with the datagram in slot `i`. -/
def GetState.receive (s : GetState σ) (i : Fin NB_BUF) (d : Datagram) : Flow σ :=
  let s := { s with timeout := 0 }
  if d.op = 6 then
    if s.lastblk ≠ -1 then .again s else .go { s with lastblk := 0 }
  else if d.op = 3 then
    if (d.block : Int) = s.lastblk then .again s
    else if (d.block : Int) ≠ s.lastblk + 1 then .again s
    else .go (s.accept i d)
  else if d.op % 256 = 5 then .ret 1 s
  else .again s

/-- The condition of the outer loop. -/
def GetState.outer (s : GetState σ) : Flow σ := if s.ending = .over then .ret 0 s else .go s

def Flow.andThen (f : Flow σ) (k : GetState σ → Flow σ) : Flow σ :=
  match f with
  | .go s => k s
  | .again s => .again s
  | .ret code s => .ret code s

/-- The condition of the inner loop and what follows it. -/
def GetState.poll (s : GetState σ) (d : Option Datagram) : Flow σ :=
  if s.dbufFull then .go s
  else
    match s.queue.getEmpty with
    | none => .go s
    | some i =>
      if s.tftpend then s.outer
      else
        match d with
        | none => .go s
        | some d => (s.receive i d).andThen GetState.outer

def GetEnv.turn (E : GetEnv) (s : GetState E.decoder.State) (e : Event) : Option (Flow E.decoder.State) :=
  (E.body e.past s).map (fun f => (f.andThen (GetState.clock e.tick)).andThen (fun s => s.poll e.poll))

inductive Progress (σ : Type) where
  | running (s : GetState σ)
  | returned (code : Nat) (s : GetState σ)

def GetEnv.step (E : GetEnv) (s : GetState E.decoder.State) (e : Event) : Option (Progress E.decoder.State) :=
  (E.turn s e).map (fun f =>
    match f with
    | .go s => .running s
    | .again s => .running (E.restart s)
    | .ret code s => .returned code s)

def GetEnv.run (E : GetEnv) : GetState E.decoder.State → List Event → Option (Progress E.decoder.State)
  | s, [] => some (.running s)
  | s, e :: es =>
    (E.step s e).bind (fun p =>
      match p with
      | .running s => E.run s es
      | .returned code s => some (.returned code s))

/-- The entry of `new_get`, with arbitrary contents of its uninitialised variables. -/
def GetEnv.start (E : GetEnv) (disk : Content) (info : ImageInfo) (alloc buffer : List Byte) :
    GetState E.decoder.State where
  restarts := 0
  disk := disk
  info := info
  saveSect := E.inSect
  cursor := ⟨E.inSect, 0, 1⟩
  alloc := alloc
  queue := LinkedQueue.empty NB_BUF Byte
  compressed := []
  compressedFull := false
  availIn := []
  z := E.init 0
  flush := .sync
  buffer := buffer
  outPos := 0
  dbufFull := false
  dbufSize := 0
  firstblock := true
  tftpend := false
  ending := .no
  lastblk := -1
  timeout := 0
  accepted := []
  fed := []
  produced := []
  written := []

end PulseImaging
