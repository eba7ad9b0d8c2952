import PulseImaging.NewGet

/-! `tftp_read` of the boot loader: a file is received in windows of 60 blocks, and
`grub_read` and `grub_seek` treat it as a file that can be read from any position. -/

namespace PulseImaging

/-- `32768-2048`; the macro has no parentheses. -/
def BUFFERSIZE : Nat := 30720

def MAXINT : Nat := 2 ^ 31 - 1

/-- Conversion of an unsigned difference to `int`. -/
def toInt (z : Int) : Int := z.bmod (2 ^ 32)

/-- The file variables. Addresses in `buffer` are counted from `FSYS_BUF`, so memory
before it has negative ones. `inbox` is what the polls on the current port will find,
`none` standing for ten seconds without a datagram, and `opens` counts the ports. -/
structure TftpFile where
  filepos : Nat
  filemax : Nat
  savedpos : Nat
  basepos : Nat
  bufferend : Int
  endoffile : Bool
  nextpacket : Nat
  buffer : Int → Byte
  inbox : List (Option Datagram)
  opens : Nat

def store (m : Int → Byte) (pos : Nat) (data : List Byte) : Int → Byte := fun a =>
  if (pos : Int) ≤ a ∧ a < pos + data.length then data.getD (a - pos).toNat 0 else m a

def load (m : Int → Byte) (pos : Int) (n : Nat) : List Byte := (List.range n).map (fun k => m (pos + (k : Nat)))

def tftpclose (s : TftpFile) : TftpFile := { s with endoffile := true }

/-- `conns n` is what arrives after the `n`-th request for the file. -/
def tftpopen (conns : Nat → List (Option Datagram)) (s : TftpFile) : TftpFile :=
  { s with
    basepos := 0
    bufferend := 0
    endoffile := false
    savedpos := 0
    nextpacket := 0
    inbox := conns s.opens
    opens := s.opens + 1 }

/-- The loop of `tftpget` while `len` bytes are wanted and `siz` have been stored. -/
def tftpgetLoop (len siz : Nat) (first : Bool) (s : TftpFile) : List (Option Datagram) → Int × TftpFile
  | [] => if len = 0 then (siz, { s with inbox := [] }) else (-1, { s with inbox := [] })
  | none :: rest => if len = 0 then (siz, { s with inbox := none :: rest }) else (-1, { s with inbox := rest })
  | some d :: rest =>
    if len = 0 then (siz, { s with inbox := some d :: rest })
    else if d.op ≠ 3 then (-1, { s with inbox := rest })
    else if d.block = s.nextpacket then tftpgetLoop len siz first s rest
    else if d.block ≠ s.nextpacket + 1 then (-1, { s with inbox := rest })
    else
      let data := d.payload.take 512
      let s := { s with
        nextpacket := d.block
        buffer := store s.buffer siz data
        basepos := if first then 512 * (d.block - 1) else s.basepos }
      if data.length ≠ 512 then (siz + data.length, { s with endoffile := true, inbox := rest })
      else tftpgetLoop (len - 512) (siz + 512) false s rest

def tftpget (s : TftpFile) : Int × TftpFile := tftpgetLoop BUFFERSIZE 0 true s s.inbox

/-- The variables of `tftp_read`: `size` bytes are still wanted, `off` is how far `addr`
has come, `out` what has been stored at the address given. -/
structure Transfer where
  size : Nat
  off : Nat
  len : Nat
  out : List Byte
  file : TftpFile

def Transfer.pos (t : Transfer) : Int := toInt (t.file.filepos - t.file.basepos)

def Transfer.remain (t : Transfer) : Int := toInt (t.file.bufferend - (t.file.filepos - t.file.basepos))

def Transfer.copy (t : Transfer) (n : Nat) : Transfer where
  size := t.size - n
  off := t.off + n
  len := t.len + n
  out := overlay t.out t.off (load t.file.buffer t.pos n)
  file := { t.file with filepos := t.file.filepos + n }

/-- How a turn of the copying loop ends. -/
inductive CopyTurn where
  | returned
  | skipping
  | failed
  | next
  | reachedEof
  deriving DecidableEq

def Transfer.drain (t : Transfer) : Transfer := if t.remain > 0 then t.copy t.remain.toNat else t

/-- The next window, with what is to be done after it. -/
def Transfer.receive (t : Transfer) : CopyTurn × Transfer :=
  let r := tftpget t.file
  (if r.1 = -1 then .failed else if r.1 = BUFFERSIZE then .next else .reachedEof,
    { t with file := { r.2 with bufferend := r.1 } })

/-- One turn of the loop: copy what the window has, then receive the next window. -/
def Transfer.turn (t : Transfer) : CopyTurn × Transfer :=
  if t.pos > BUFFERSIZE then (.skipping, t)
  else if t.remain ≥ t.size then (.returned, t.copy t.size)
  else t.drain.receive

def Transfer.loop : Nat → Transfer → Option (CopyTurn × Transfer)
  | 0, _ => none
  | fuel + 1, t => if t.turn.1 = .next then Transfer.loop fuel t.turn.2 else some t.turn

def Transfer.finish (t : Transfer) : Nat × Transfer :=
  if t.remain > 0 then
    let t' := t.copy (if (t.size : Int) > t.remain then t.remain.toNat else t.size)
    (t'.len, t')
  else (0, t)

/-- Windows are received until the position has been passed; the flag says that
`tftpget` has failed. -/
def skipWindows : Nat → TftpFile → Option (Bool × TftpFile)
  | 0, _ => none
  | fuel + 1, s =>
    let r := tftpget s
    if r.1 < 0 then some (true, r.2)
    else
      let s : TftpFile := { r.2 with savedpos := r.2.savedpos + BUFFERSIZE }
      if s.savedpos ≤ s.filepos then skipWindows fuel s else some (false, s)

/-- What comes before the label `next`. The position of the window is `savedpos - 32768 - 2048`. -/
def reposition (conns : Nat → List (Option Datagram)) (s : TftpFile) : Option (Bool × TftpFile) :=
  if s.filepos < s.savedpos ∧ ¬ s.basepos ≤ s.filepos then
    let s := tftpopen conns (tftpclose s)
    if s.savedpos < s.filepos then
      (skipWindows (s.filepos + 1) s).map (fun x =>
        if x.1 then x
        else (false, { x.2 with basepos := (x.2.savedpos + 2 ^ 32 - 32768 - 2048) % 2 ^ 32 }))
    else some (false, s)
  else some (false, s)

/-- From the label `retransmit` on: the value returned and what has been stored. `len` is
not set back when the transfer is started again. -/
def tftpReadLoop (conns : Nat → List (Option Datagram)) (size savePos : Nat) :
    Nat → Nat → List Byte → TftpFile → Option ((Nat × List Byte) × TftpFile)
  | 0, _, _, _ => none
  | turns + 1, len, out, s =>
    (reposition conns { s with filepos := savePos }).bind (fun x =>
      if x.1 then tftpReadLoop conns size savePos turns len out (tftpopen conns (tftpclose x.2))
      else
        let t : Transfer := ⟨size, 0, len, out, { x.2 with savedpos := savePos + size }⟩
        let finished (t : Transfer) : (Nat × List Byte) × TftpFile :=
          ((t.finish.1, t.finish.2.out), t.finish.2.file)
        if t.file.endoffile then some (finished t)
        else (t.loop (t.file.inbox.length + 1)).bind (fun y =>
          match y.1 with
          | .returned => some ((y.2.len, y.2.out), y.2.file)
          | .skipping => some ((0, y.2.out), y.2.file)
          | .failed =>
            tftpReadLoop conns size savePos turns y.2.len y.2.out (tftpopen conns (tftpclose y.2.file))
          | .next => none
          | .reachedEof => some (finished y.2)))

def tftpRead (conns : Nat → List (Option Datagram)) (turns size : Nat) (s : TftpFile) :
    Option ((Nat × List Byte) × TftpFile) :=
  tftpReadLoop conns size s.filepos turns 0 [] s

def TftpFile.clip (s : TftpFile) (len : Int) : Nat :=
  if len < 0 ∨ len > (s.filemax : Int) - s.filepos then s.filemax - s.filepos else len.toNat

/-- `grub_read` of a file that is not compressed. -/
def grubRead (conns : Nat → List (Option Datagram)) (turns : Nat) (len : Int) (s : TftpFile) :
    Option ((Nat × List Byte) × TftpFile) :=
  let s := if s.filepos > s.filemax then { s with filepos := s.filemax } else s
  if s.filepos + s.clip len > MAXINT then some ((0, []), s) else tftpRead conns turns (s.clip len) s

def grubSeek (offset : Int) (s : TftpFile) : Int × TftpFile :=
  if offset > s.filemax ∨ offset < 0 then (-1, s) else (offset, { s with filepos := offset.toNat })

/-- The file as `grub_open` and `tftp_dir` leave it; `filemax` is the size announced. -/
def grubOpen (conns : Nat → List (Option Datagram)) (filemax : Nat) (buffer : Int → Byte) : TftpFile :=
  { tftpopen conns ⟨0, 0, 0, 0, 0, true, 0, buffer, [], 0⟩ with filemax := filemax }

inductive FileOp where
  | seek (offset : Int)
  | read (len : Int)
  deriving DecidableEq

/-- Operations on the open file: what each read has returned and stored. -/
def runOps (conns : Nat → List (Option Datagram)) (turns : Nat) :
    List FileOp → TftpFile → Option (List (Nat × List Byte) × TftpFile)
  | [], s => some ([], s)
  | .seek offset :: ops, s => runOps conns turns ops (grubSeek offset s).2
  | .read len :: ops, s =>
    (grubRead conns turns len s).bind (fun x =>
      (runOps conns turns ops x.2).map (fun y => (x.1 :: y.1, y.2)))

end PulseImaging
