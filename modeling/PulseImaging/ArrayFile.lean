import PulseImaging.TftpWindow

/-! The open file as an array of bytes with a position. `grub_read` and `grub_seek`
refine it as long as no read leaves what the window can reach. -/

namespace PulseImaging

structure ArrayFile where
  bytes : List Byte
  pos : Nat
  pos_le : pos ≤ bytes.length

/-- The length of a read, which ends at the end of the file. -/
def ArrayFile.clip (f : ArrayFile) (len : Int) : Nat :=
  if len < 0 ∨ len > (f.bytes.length : Int) - f.pos then f.bytes.length - f.pos else len.toNat

theorem ArrayFile.pos_clip_le (f : ArrayFile) (len : Int) : f.pos + f.clip len ≤ f.bytes.length := by
  have h := f.pos_le
  rw [ArrayFile.clip]
  split <;> omega

theorem ArrayFile.clip_rest {f : ArrayFile} {len : Int} (h : (f.bytes.length : Int) - f.pos < len) :
    f.clip len = f.bytes.length - f.pos := if_pos (Or.inr h)

def ArrayFile.seek (f : ArrayFile) (offset : Int) : ArrayFile :=
  if h : 0 ≤ offset ∧ offset ≤ f.bytes.length then ⟨f.bytes, offset.toNat, by omega⟩ else f

def ArrayFile.read (f : ArrayFile) (len : Int) : (Nat × List Byte) × ArrayFile :=
  ((f.clip len, (f.bytes.drop f.pos).take (f.clip len)), ⟨f.bytes, f.pos + f.clip len, f.pos_clip_le len⟩)

theorem ArrayFile.read_fst (f : ArrayFile) (len : Int) :
    (f.read len).1 = (f.clip len, (f.bytes.drop f.pos).take (f.clip len)) := rfl

theorem ArrayFile.read_pos (f : ArrayFile) (len : Int) :
    (f.read len).2.pos = f.pos + f.clip len := rfl

def ArrayFile.run : List FileOp → ArrayFile → List (Nat × List Byte) × ArrayFile
  | [], f => ([], f)
  | .seek offset :: ops, f => ArrayFile.run ops (f.seek offset)
  | .read len :: ops, f => ((f.read len).1 :: (ArrayFile.run ops (f.read len).2).1, (ArrayFile.run ops (f.read len).2).2)

/-- The file of the boot loader is at the position of the array and its window is a part of it. -/
structure Window (f : ArrayFile) (s : TftpFile) : Prop where
  filemax_eq : s.filemax = f.bytes.length
  filepos_eq : s.filepos = f.pos
  base_le : s.basepos ≤ s.savedpos
  holds : ∃ e, Holds f.bytes s e

/-- The position is not ahead of the window, or the end of the file has been received. -/
def TftpFile.near (s : TftpFile) : Prop := s.endoffile = true ∨ s.filepos ≤ s.basepos + BUFFERSIZE

instance (s : TftpFile) : Decidable s.near := inferInstanceAs (Decidable (_ ∨ _))

/-- A read would have to start again and skip windows. -/
def TftpFile.rewinds (s : TftpFile) : Prop := s.filepos ≠ 0 ∧ s.filepos < s.savedpos ∧ s.filepos < s.basepos

instance (s : TftpFile) : Decidable s.rewinds := inferInstanceAs (Decidable (_ ∧ _))

/-- What a read returns when it does not skip windows: nothing if the position is too far. -/
def TftpFile.reached (s : TftpFile) (len : Int) : Nat := if s.near then s.clip len else 0

theorem holds_open {file : List Byte} {conns : Nat → List (Option Datagram)} {s : TftpFile}
    (h : InOrder file 0 (conns s.opens)) : Holds file (tftpopen conns s) 0 :=
  ⟨rfl, Nat.zero_le _, fun k hk => absurd hk (Nat.not_lt_zero k),
    fun he => absurd he (by simp [tftpopen]), fun _ => ⟨Or.inr ⟨rfl, rfl⟩, Nat.zero_le _, rfl, h⟩⟩

theorem Copying.start {file : List Byte} {p total e : Nat} {s : TftpFile} (hpos : s.filepos = p)
    (htotal : p + total ≤ file.length) (hmax : s.filemax = file.length) (hbase : s.basepos ≤ p)
    (hholds : Holds file s e) :
    Copying file p total ⟨total, 0, 0, [], { s with savedpos := p + total }⟩ e := by
  refine ⟨⟨hholds.bufferend_eq, hholds.e_le, hholds.buffer_eq, hholds.ended, hholds.going⟩, hmax,
    rfl, htotal, hpos.ge, ?_, ?_, ?_, ?_, ?_⟩
  · exact congrArg (· + total) hpos
  · exact hbase.trans hpos.ge
  · exact (Nat.sub_eq_zero_of_le hpos.le).symm
  · exact (Nat.sub_eq_zero_of_le hpos.le).symm
  · dsimp only
    rw [hpos, Nat.sub_self, List.take_zero]

theorem Copying.done {file : List Byte} {p total e : Nat} {t : Transfer}
    (h : Copying file p total t e) (hz : t.size = 0) :
    t.file.filepos = p + total ∧ t.len = total ∧ t.out = (file.drop p).take total ∧
      t.file.basepos ≤ t.file.savedpos := by
  have hsize := h.size_eq
  have hlen := h.len_eq
  have hsaved := h.savedpos_eq
  have hb := h.base_le
  have hout := h.out_eq
  rw [show t.file.filepos - p = total by omega] at hout
  exact ⟨by omega, by omega, hout, by omega⟩

/-- From the label `next` on. -/
theorem tftpReadLoop_exact {file : List Byte} (hfile : file.length < 2 ^ 31)
    {conns : Nat → List (Option Datagram)} {p total e n : Nat} {s s₁ : TftpFile}
    (hrep : reposition conns { s with filepos := p } = some (false, s₁)) (hpos : s₁.filepos = p)
    (htotal : p + total ≤ file.length) (hmax : s₁.filemax = file.length) (hbase : s₁.basepos ≤ p)
    (hholds : Holds file s₁ e) (hn : n = if s₁.near then total else 0) (turns : Nat) :
    ∃ s' e', tftpReadLoop conns total p (turns + 1) 0 [] s = some ((n, (file.drop p).take n), s') ∧
      s'.filemax = file.length ∧ s'.filepos = p + n ∧ s'.savedpos = p + total ∧
        s'.basepos ≤ s'.savedpos ∧
      Holds file s' e' ∧ (s₁.near → s'.near) := by
  have hcopy := Copying.start hpos htotal hmax hbase hholds
  rw [tftpReadLoop, hrep, Option.bind_some, if_neg (by simp)]
  dsimp only
  by_cases hend : s₁.endoffile = true
  · rw [if_pos (show s₁.near from Or.inl hend)] at hn
    subst hn
    rw [if_pos hend]
    obtain ⟨hlen, ⟨e', hc⟩, hz, hend'⟩ := hcopy.finish hfile hend (fun hz => hz)
    obtain ⟨hp, -, hout, hb⟩ := hc.done hz
    rw [hlen, hout]
    exact ⟨_, e', rfl, hc.filemax_eq, hp, hc.savedpos_eq, hb, hc.holds, fun _ => Or.inl hend'⟩
  · rw [if_neg hend]
    by_cases hnear : s₁.filepos ≤ s₁.basepos + BUFFERSIZE
    · rw [if_pos (show s₁.near from Or.inr hnear)] at hn
      subst hn
      obtain ⟨k, t', e', hloop, hc, ⟨rfl, hz, hn'⟩ | ⟨rfl, hend', hz⟩⟩ :=
        hcopy.loop hfile (by simpa using hend) hnear
        (fun hz => hz) (Nat.lt_succ_self _)
      · obtain ⟨hp, hlen, hout, hb⟩ := hc.done hz
        rw [hloop, Option.bind_some]
        dsimp only
        rw [hlen, hout]
        exact ⟨_, e', rfl, hc.filemax_eq, hp, hc.savedpos_eq, hb, hc.holds, fun _ => Or.inr hn'⟩
      · obtain ⟨hlen, ⟨e'', hc'⟩, hz', hend''⟩ := hc.finish hfile hend' hz
        obtain ⟨hp, -, hout, hb⟩ := hc'.done hz'
        rw [hloop, Option.bind_some]
        dsimp only
        rw [hlen, hout]
        exact ⟨_, e'', rfl, hc'.filemax_eq, hp, hc'.savedpos_eq, hb, hc'.holds,
          fun _ => Or.inl hend''⟩
    · -- "Error : skipping"
      have hfar : ¬ s₁.near := fun h => h.elim hend hnear
      rw [if_neg hfar] at hn
      subst hn
      have hskip : Transfer.turn ⟨total, 0, 0, [], { s₁ with savedpos := p + total }⟩ =
          (.skipping, ⟨total, 0, 0, [], { s₁ with savedpos := p + total }⟩) := by
        have hpeq := hcopy.pos_eq hfile
        dsimp only at hpeq
        rw [Transfer.turn, if_pos (by rw [hpeq]; omega)]
      rw [Transfer.loop, hskip, if_neg (by simp), Option.bind_some]
      dsimp only
      rw [List.take_zero]
      exact ⟨_, e, rfl, hmax, hpos, rfl, by dsimp only; omega, hcopy.holds, fun h => absurd h hfar⟩

def ArrayFile.advance (f : ArrayFile) (n : Nat) (h : f.pos + n ≤ f.bytes.length) : ArrayFile := ⟨f.bytes, f.pos + n, h⟩

theorem Window.clip_eq {f : ArrayFile} {s : TftpFile} (h : Window f s) (len : Int) :
    s.clip len = f.clip len := by
  rw [TftpFile.clip, ArrayFile.clip, h.filemax_eq, h.filepos_eq]

theorem Window.reached_le {f : ArrayFile} {s : TftpFile} (h : Window f s) (len : Int) :
    f.pos + s.reached len ≤ f.bytes.length := by
  have hclip := f.pos_clip_le len
  have hpos := f.pos_le
  rw [TftpFile.reached, h.clip_eq len]
  split <;> omega

/-- A read that does not skip windows returns the bytes at the position, or nothing. -/
theorem grubRead_exact {f : ArrayFile} {s : TftpFile} (h : Window f s)
    (hfile : f.bytes.length < 2 ^ 31) {conns : Nat → List (Option Datagram)} (len : Int)
    (hback : ¬ s.rewinds)
    (hnet : s.filepos < s.savedpos → s.basepos ≤ s.filepos ∨ InOrder f.bytes 0 (conns s.opens))
    (turns : Nat) :
    ∃ s', grubRead conns (turns + 1) len s =
        some ((s.reached len, (f.bytes.drop f.pos).take (s.reached len)), s') ∧
      Window (f.advance (s.reached len) (h.reached_le len)) s' ∧ s'.savedpos = f.pos + f.clip len ∧
      (s.near → s'.near) := by
  obtain ⟨e, hholds⟩ := h.holds
  have hmax := h.filemax_eq
  have hpos := h.filepos_eq
  have hbase := h.base_le
  have hclip := h.clip_eq len
  have htotal := f.pos_clip_le len
  have hread : grubRead conns (turns + 1) len s = tftpReadLoop conns (f.clip len) f.pos
      (turns + 1) 0 [] s := by
    rw [grubRead, if_neg (show ¬ s.filepos > s.filemax by omega),
      if_neg (by rw [hclip, MAXINT]; omega), tftpRead, hclip, hpos]
  have hself : { s with filepos := f.pos } = s := by rw [← hpos]
  have hreached : s.reached len = if s.near then f.clip len else 0 := by rw [TftpFile.reached, hclip]
  by_cases hre : s.filepos < s.savedpos ∧ ¬ s.basepos ≤ s.filepos
  · -- the transfer is started again for position 0
    have hzero : s.filepos = 0 := by
      by_contra hne
      exact hback ⟨hne, hre.1, by omega⟩
    have hopen := holds_open (s := tftpclose s) ((hnet hre.1).resolve_left hre.2)
    have hrep : reposition conns { s with filepos := f.pos } =
        some (false, tftpopen conns (tftpclose s)) := by
      rw [hself, reposition, if_pos hre, if_neg]
      simp [tftpopen, tftpclose, hzero]
    have hnear : s.near := Or.inr (by omega)
    have hnear' : (tftpopen conns (tftpclose s)).near := Or.inr (by simp [tftpopen, tftpclose, hzero])
    obtain ⟨s', e', hrun, hmax', hpos', hsaved, hb, hh, hn⟩ :=
      tftpReadLoop_exact (n := s.reached len) hfile hrep hpos
      htotal hmax (Nat.zero_le _) hopen (by rw [hreached, if_pos hnear, if_pos hnear']) turns
    exact ⟨s', hread.trans hrun, ⟨hmax', hpos', hb, e', hh⟩, hsaved, fun _ => hn hnear'⟩
  · have hrep : reposition conns { s with filepos := f.pos } = some (false, s) := by
      rw [hself, reposition, if_neg hre]
    obtain ⟨s', e', hrun, hmax', hpos', hsaved, hb, hh, hn⟩ :=
      tftpReadLoop_exact hfile hrep hpos htotal hmax
      (by omega) hholds hreached turns
    exact ⟨s', hread.trans hrun, ⟨hmax', hpos', hb, e', hh⟩, hsaved, hn⟩

theorem grubRead_step {f : ArrayFile} {s : TftpFile} (h : Window f s)
    (hfile : f.bytes.length < 2 ^ 31) {conns : Nat → List (Option Datagram)} (len : Int)
    (hback : ¬ s.rewinds) (hnear : s.near)
    (hnet : s.filepos < s.savedpos → s.basepos ≤ s.filepos ∨ InOrder f.bytes 0 (conns s.opens))
    (turns : Nat) :
    ∃ s', grubRead conns (turns + 1) len s = some ((f.read len).1, s') ∧ Window (f.read len).2 s' ∧
      s'.savedpos = s'.filepos ∧ s'.near := by
  obtain ⟨s', hread, hw, hsaved, hnear'⟩ := grubRead_exact h hfile len hback hnet turns
  have hreached : s.reached len = f.clip len := (if_pos hnear).trans (h.clip_eq len)
  have hpos := hw.filepos_eq
  simp only [hreached, ArrayFile.advance] at hread hw hpos
  exact ⟨s', hread, hw, hsaved.trans hpos.symm, hnear' hnear⟩

theorem grubSeek_exact {f : ArrayFile} {s : TftpFile} (h : Window f s) (offset : Int) :
    Window (f.seek offset) (grubSeek offset s).2 := by
  obtain ⟨hmax, hpos, hbase, e, hh⟩ := h
  by_cases ho : 0 ≤ offset ∧ offset ≤ f.bytes.length
  · rw [grubSeek, if_neg (by omega), ArrayFile.seek, dif_pos ho]
    exact ⟨hmax, rfl, hbase, e, hh.bufferend_eq, hh.e_le, hh.buffer_eq, hh.ended, hh.going⟩
  · rw [grubSeek, if_pos (by omega), ArrayFile.seek, dif_neg ho]
    exact ⟨hmax, hpos, hbase, e, hh⟩

theorem window_open {bytes : List Byte} {conns : Nat → List (Option Datagram)}
    (h : InOrder bytes 0 (conns 0)) (buffer : Int → Byte) :
    Window ⟨bytes, 0, Nat.zero_le _⟩ (grubOpen conns bytes.length buffer) := by
  obtain ⟨hend, hle, hbuf, hended, hgoing⟩ := holds_open
    (s := ⟨0, 0, 0, 0, 0, true, 0, buffer, [], 0⟩) h
  exact ⟨rfl, rfl, Nat.le_refl _, 0, hend, hle, hbuf, hended, hgoing⟩

/-! ### Runs -/

theorem ArrayFile.seek_bytes (f : ArrayFile) (offset : Int) : (f.seek offset).bytes = f.bytes := by
  rw [ArrayFile.seek]
  split <;> rfl

theorem runOps_read {conns : Nat → List (Option Datagram)} {turns : Nat} {len : Int}
    {s s₁ : TftpFile} {r : Nat × List Byte} (h : grubRead conns turns len s = some (r, s₁))
    {ops : List FileOp} {out : List (Nat × List Byte)} {s' : TftpFile}
    (hrun : runOps conns turns ops s₁ = some (out, s')) :
    runOps conns turns (.read len :: ops) s = some (r :: out, s') := by
  rw [runOps, h, Option.bind_some, hrun, Option.map_some]

/-- Every read of the run finds a window of the file. -/
theorem runOps_window {f : ArrayFile} {s : TftpFile} {conns : Nat → List (Option Datagram)}
    {turns : Nat} {ops : List FileOp} (h : Window f s) (hfile : f.bytes.length < 2 ^ 31)
    (hnet : ∀ n, InOrder f.bytes 0 (conns n))
    (hback : ∀ pre len post out s', ops = pre ++ .read len :: post →
      runOps conns (turns + 1) pre s = some (out, s') → ¬ s'.rewinds) :
    ∃ out s' f', runOps conns (turns + 1) ops s = some (out, s') ∧ Window f' s' ∧
      f'.bytes = f.bytes := by
  induction ops generalizing f s with
  | nil => exact ⟨[], s, f, rfl, h, rfl⟩
  | cons op ops ih =>
    cases op with
    | seek offset =>
      have hbytes := f.seek_bytes offset
      obtain ⟨out, s', f', hrun, hw, he⟩ := ih (grubSeek_exact h offset) (by rw [hbytes]; exact hfile)
        (by rw [hbytes]; exact hnet) (fun pre len post out s' he hrun =>
          hback (.seek offset :: pre) len post out s' (by rw [he, List.cons_append]) hrun)
      exact ⟨out, s', f', hrun, hw, he.trans hbytes⟩
    | read len =>
      obtain ⟨s₁, hread, hw, -⟩ := grubRead_exact h hfile len (hback [] len ops [] s rfl rfl)
        (fun _ => Or.inr (hnet s.opens)) turns
      obtain ⟨out, s', f', hrun, hw', he⟩ := ih hw hfile hnet (fun pre n post out s' he hrun =>
        hback (.read len :: pre) n post _ s' (by rw [he, List.cons_append]) (runOps_read hread hrun))
      exact ⟨_, s', f', runOps_read hread hrun, hw', he⟩

/-- When no read is too far either, the run is that of the array. -/
theorem runOps_exact {f : ArrayFile} {s : TftpFile} {conns : Nat → List (Option Datagram)}
    {turns : Nat} {ops : List FileOp} (h : Window f s) (hfile : f.bytes.length < 2 ^ 31)
    (hnet : ∀ n, InOrder f.bytes 0 (conns n))
    (hreach : ∀ pre len post out s', ops = pre ++ .read len :: post →
      runOps conns (turns + 1) pre s = some (out, s') → ¬ s'.rewinds ∧ s'.near) :
    ∃ s', runOps conns (turns + 1) ops s = some ((ArrayFile.run ops f).1, s') ∧
      Window (ArrayFile.run ops f).2 s' := by
  induction ops generalizing f s with
  | nil => exact ⟨s, rfl, h⟩
  | cons op ops ih =>
    cases op with
    | seek offset =>
      have hbytes := f.seek_bytes offset
      exact ih (grubSeek_exact h offset) (by rw [hbytes]; exact hfile) (by rw [hbytes]; exact hnet)
        (fun pre len post out s' he hrun =>
          hreach (.seek offset :: pre) len post out s' (by rw [he, List.cons_append]) hrun)
    | read len =>
      obtain ⟨hback, hnear⟩ := hreach [] len ops [] s rfl rfl
      obtain ⟨s₁, hread, hw, -⟩ := grubRead_step h hfile len hback hnear
        (fun _ => Or.inr (hnet s.opens)) turns
      obtain ⟨s', hrun, hw'⟩ := ih hw hfile hnet (fun pre n post out s' he hrun =>
        hreach (.read len :: pre) n post _ s' (by rw [he, List.cons_append]) (runOps_read hread hrun))
      exact ⟨s', runOps_read hread hrun, hw'⟩

/-- Reads only: the transfer is never started again. -/
theorem runOps_reads {f : ArrayFile} {s : TftpFile} {conns : Nat → List (Option Datagram)}
    {turns : Nat} (lens : List Int) (h : Window f s) (hfile : f.bytes.length < 2 ^ 31)
    (hsaved : s.savedpos ≤ s.filepos) (hnear : s.near) :
    ∃ s', runOps conns (turns + 1) (lens.map .read) s =
      some ((ArrayFile.run (lens.map .read) f).1, s') ∧
      Window (ArrayFile.run (lens.map .read) f).2 s' ∧ s'.savedpos ≤ s'.filepos ∧ s'.near := by
  induction lens generalizing f s with
  | nil => exact ⟨s, rfl, h, hsaved, hnear⟩
  | cons len lens ih =>
    obtain ⟨s₁, hread, hw, hsaved₁, hnear₁⟩ := grubRead_step h hfile len
      (fun hback => by have := hback.2.1; omega) hnear (fun hlt => by omega) turns
    obtain ⟨s', hrun, hw'⟩ := ih hw hfile hsaved₁.le hnear₁
    exact ⟨s', runOps_read hread hrun, hw'⟩

theorem ArrayFile.run_reads (lens : List Int) (f : ArrayFile) :
    f.bytes.take f.pos ++ ((ArrayFile.run (lens.map .read) f).1.map Prod.snd).flatten =
        f.bytes.take (ArrayFile.run (lens.map .read) f).2.pos ∧
      f.pos + ((ArrayFile.run (lens.map .read) f).1.map Prod.fst).sum =
        (ArrayFile.run (lens.map .read) f).2.pos := by
  induction lens generalizing f with
  | nil => exact ⟨List.append_nil _, rfl⟩
  | cons len lens ih =>
    obtain ⟨hbytes, hsum⟩ := ih (f.read len).2
    rw [List.map_cons, ArrayFile.run]
    refine ⟨Eq.trans ?_ hbytes, Eq.trans ?_ hsum⟩
    · rw [List.map_cons, List.flatten_cons, ← List.append_assoc]
      congr 1
      exact List.take_add.symm
    · rw [List.map_cons, List.sum_cons, ← Nat.add_assoc]
      rfl

/-! ### Files of equal bytes -/

theorem uniform_length_le (m : Nat) :
    (List.replicate (min 512 m) (0x55 : Byte)).length ≤ TFTPBLOCK := by
  rw [List.length_replicate, TFTPBLOCK]
  omega

theorem dataOp_lt : 3 < 2 ^ 16 := by decide

/-- Block `n + 1` of a file of `size` bytes 0x55. -/
def uniformBlock (size n : Nat) : Datagram where
  op := 3
  block := (n + 1) % 2 ^ 16
  payload := List.replicate (min 512 (size - 512 * n)) 0x55
  op_lt := dataOp_lt
  block_lt := Nat.mod_lt _ (Nat.two_pow_pos 16)
  payload_le := uniform_length_le _

def uniformBlocks (size : Nat) : List (Option Datagram) :=
  (List.range (size / 512 + 1)).map (fun n => some (uniformBlock size n))

theorem uniformBlock_eq {size n : Nat} (h : n + 1 < 2 ^ 16) :
    (uniformBlock size n).op = 3 ∧ (uniformBlock size n).block = n + 1 ∧
      (uniformBlock size n).payload = blockData (List.replicate size 0x55) n :=
  ⟨rfl, Nat.mod_eq_of_lt h, by rw [blockData, List.drop_replicate, List.take_replicate]; rfl⟩

/-- The blocks of a file one after the other arrive in order. -/
theorem inOrder_blocks {file : List Byte} {g : Nat → Datagram} {n k : Nat}
    (hk : n + k = file.length / 512 + 1)
    (h : ∀ i ≤ file.length / 512, (g i).op = 3 ∧ (g i).block = i + 1 ∧
      (g i).payload = blockData file i) :
    InOrder file n ((List.range' n k).map (fun i => some (g i))) := by
  induction k generalizing n with
  | zero => exact .done (by omega)
  | succ k ih =>
    obtain ⟨hop, hblock, hdata⟩ := h n (by omega)
    rw [List.range'_succ, List.map_cons]
    exact .next hop hblock hdata (ih (by omega))

theorem uniformBlocks_inOrder {size : Nat} (h : size / 512 + 1 < 2 ^ 16) :
    InOrder (List.replicate size 0x55) 0 (uniformBlocks size) := by
  have hlen : (List.replicate size (0x55 : Byte)).length = size := List.length_replicate
  rw [uniformBlocks, List.range_eq_range']
  refine inOrder_blocks (by rw [hlen]; omega) (fun i hi => uniformBlock_eq ?_)
  rw [hlen] at hi
  omega

/-- Reads one after the other from the start return the file, however many repeats of the
last block arrive. -/
theorem sequential_reads_exact {bytes : List Byte} (hfile : (bytes.length + 511) / 512 < 65535)
    {conns : Nat → List (Option Datagram)} (hnet : InOrder bytes 0 (conns 0)) (buffer : Int → Byte) (turns : Nat)
    (lens : List Int) :
    ∃ out s', runOps conns (turns + 1) (lens.map .read) (grubOpen conns bytes.length buffer) = some (out, s') ∧
      out = (ArrayFile.run (lens.map .read) ⟨bytes, 0, Nat.zero_le _⟩).1 ∧
      (out.map Prod.snd).flatten = bytes.take s'.filepos ∧ s'.filepos = (out.map Prod.fst).sum := by
  obtain ⟨s', hrun, hw, -⟩ := runOps_reads lens (window_open hnet buffer)
    (by dsimp only; omega) (Nat.le_refl _) (Or.inr (Nat.zero_le _))
  obtain ⟨hbytes, hsum⟩ := ArrayFile.run_reads lens ⟨bytes, 0, Nat.zero_le _⟩
  rw [List.take_zero, List.nil_append] at hbytes
  rw [Nat.zero_add] at hsum
  exact ⟨_, s', hrun, rfl, by rw [hw.filepos_eq, hbytes], by rw [hw.filepos_eq, hsum]⟩

/-- Two blocks, the first one repeated. -/
theorem sequential_reads_two_blocks :
    ∃ out s', runOps (fun _ => [some (uniformBlock 600 0), some (uniformBlock 600 0), some (uniformBlock 600 1)]) 1
        ([500, 200, -1].map .read)
        (grubOpen (fun _ => [some (uniformBlock 600 0), some (uniformBlock 600 0), some (uniformBlock 600 1)]) 600
          (fun _ => 0)) = some (out, s') ∧
      out.map Prod.fst = [500, 100, 0] ∧ (out.map Prod.snd).flatten = (List.replicate 600 0x55).take s'.filepos := by
  have hnet : InOrder (List.replicate 600 0x55) 0
      [some (uniformBlock 600 0), some (uniformBlock 600 0), some (uniformBlock 600 1)] := by
    have h0 := @uniformBlock_eq 600 0 (by decide)
    have h1 := @uniformBlock_eq 600 1 (by decide)
    refine .next h0.1 h0.2.1 h0.2.2 (.again (by decide) h0.1 h0.2.1
      (.next h1.1 h1.2.1 h1.2.2 (.done ?_)))
    rw [List.length_replicate]
    decide
  have hlt : ((List.replicate 600 (0x55 : Byte)).length + 511) / 512 < 65535 := by
    rw [List.length_replicate]
    decide
  obtain ⟨out, s', hrun, hout, hbytes, -⟩ := @sequential_reads_exact _ hlt
    (fun _ => [some (uniformBlock 600 0), some (uniformBlock 600 0), some (uniformBlock 600 1)]) hnet
    (fun _ => 0) 0 [500, 200, -1]
  rw [List.length_replicate] at hrun
  refine ⟨out, s', hrun, ?_, hbytes⟩
  rw [hout]
  decide +kernel

/-- Seeks and reads in any order, as long as no read has to skip windows: a read returns
the bytes at its position, or nothing when that is too far ahead of the window. When it is
not, the whole run is that of an array. -/
theorem random_access_exact {bytes : List Byte} (hfile : (bytes.length + 511) / 512 < 65535)
    {conns : Nat → List (Option Datagram)} (hnet : ∀ n, InOrder bytes 0 (conns n)) (buffer : Int → Byte) (turns : Nat)
    (ops : List FileOp) (hback : ∀ pre len post out s, ops = pre ++ .read len :: post →
      runOps conns (turns + 1) pre (grubOpen conns bytes.length buffer) = some (out, s) → ¬ s.rewinds) :
    (∃ out s, runOps conns (turns + 1) ops (grubOpen conns bytes.length buffer) = some (out, s)) ∧
    (∀ pre len post out s, ops = pre ++ .read len :: post →
      runOps conns (turns + 1) pre (grubOpen conns bytes.length buffer) = some (out, s) →
      s.filemax = bytes.length ∧ s.filepos ≤ bytes.length ∧
      ∃ s', grubRead conns (turns + 1) len s =
          some ((s.reached len, (bytes.drop s.filepos).take (s.reached len)), s') ∧
        s'.filepos = s.filepos + s.reached len) ∧
    ((∀ pre len post out s, ops = pre ++ .read len :: post →
        runOps conns (turns + 1) pre (grubOpen conns bytes.length buffer) = some (out, s) → s.near) →
      ∃ s', runOps conns (turns + 1) ops (grubOpen conns bytes.length buffer) =
          some ((ArrayFile.run ops ⟨bytes, 0, Nat.zero_le _⟩).1, s') ∧
        s'.filepos = (ArrayFile.run ops ⟨bytes, 0, Nat.zero_le _⟩).2.pos) := by
  have hopen := window_open (hnet 0) buffer
  have hlt : bytes.length < 2 ^ 31 := by omega
  refine ⟨?_, fun pre len post out s he hrun => ?_, fun hnear => ?_⟩
  · obtain ⟨out, s, -, hrun, -⟩ := runOps_window hopen hlt hnet hback
    exact ⟨out, s, hrun⟩
  · obtain ⟨out', s', f, hrun', hw, hbytes⟩ := runOps_window hopen hlt hnet
      (fun pre' n post' out' s' (he' : pre = _) => hback pre' n (post' ++ .read len :: post) out' s'
        (by rw [he, he', List.append_assoc, List.cons_append]))
    rw [hrun', Option.some.injEq, Prod.mk.injEq] at hrun
    obtain ⟨-, rfl⟩ := hrun
    dsimp only at hbytes
    subst hbytes
    obtain ⟨s'', hread, hw', -⟩ := grubRead_exact hw hlt len (hback pre len post out' s' he hrun')
      (fun _ => Or.inr (hnet s'.opens)) turns
    rw [hw.filepos_eq]
    exact ⟨hw.filemax_eq, f.pos_le, s'', hread, hw'.filepos_eq⟩
  · obtain ⟨s', hrun, hw⟩ := runOps_exact hopen hlt hnet (fun pre len post out s he hrun =>
      ⟨hback pre len post out s he hrun, hnear pre len post out s he hrun⟩)
    exact ⟨s', hrun, hw.filepos_eq⟩

def backwardOps : List FileOp := [.seek 1500, .read 300, .seek 600, .read 700, .seek 0, .read 2500]

/-- What comes in front of a read of `backwardOps`. -/
def backwardPres : List (List FileOp) :=
  [[.seek 1500], [.seek 1500, .read 300, .seek 600], [.seek 1500, .read 300, .seek 600, .read 700, .seek 0]]

theorem backwardOps_pres {pre post : List FileOp} {len : Int}
    (h : backwardOps = pre ++ .read len :: post) :
    pre ∈ backwardPres := by
  rcases pre with _ |
    ⟨a, _ | ⟨b, _ | ⟨c, _ | ⟨d, _ | ⟨e, _ | ⟨f, pre⟩⟩⟩⟩⟩⟩ <;> simp_all [backwardOps, backwardPres]

/-- In a file of four blocks: a read near its end, one in front of it over three blocks, and one of everything. -/
theorem random_access_four_blocks :
    ∃ out s, runOps (fun _ => uniformBlocks 2000) 1 backwardOps
        (grubOpen (fun _ => uniformBlocks 2000) 2000 (fun _ => 0)) = some (out, s) ∧
      out.map Prod.fst = [300, 700, 2000] := by
  have hlen : (List.replicate 2000 (0x55 : Byte)).length = 2000 := List.length_replicate
  have hnet : InOrder (List.replicate 2000 0x55) 0 (uniformBlocks 2000) :=
    uniformBlocks_inOrder (by decide)
  have hopen : grubOpen (fun _ => uniformBlocks 2000) (List.replicate 2000 (0x55 : Byte)).length
      (fun _ => 0) = grubOpen (fun _ => uniformBlocks 2000) 2000 (fun _ => 0) := by rw [hlen]
  have hdec : ∀ pre ∈ backwardPres,
      (runOps (fun _ => uniformBlocks 2000) 1 pre
        (grubOpen (fun _ => uniformBlocks 2000) 2000 (fun _ => 0))).map
        (fun x => decide (¬ x.2.rewinds ∧ x.2.near)) = some true := by decide +kernel
  have hstate : ∀ pre len post out s, backwardOps = pre ++ FileOp.read len :: post →
      runOps (fun _ => uniformBlocks 2000) 1 pre
        (grubOpen (fun _ => uniformBlocks 2000) (List.replicate 2000 (0x55 : Byte)).length
          (fun _ => 0)) = some (out, s) → ¬ s.rewinds ∧ s.near := by
    intro pre len post out s he hrun
    have h := hdec pre (backwardOps_pres he)
    rw [← hopen, hrun, Option.map_some, Option.some.injEq, decide_eq_true_iff] at h
    exact h
  obtain ⟨-, -, hall⟩ := random_access_exact (by rw [hlen]; decide)
    (fun _ => hnet) (fun _ => 0) 0 backwardOps
    (fun pre len post out s he hrun => (hstate pre len post out s he hrun).1)
  obtain ⟨s', hrun, -⟩ :=
    hall (fun pre len post out s he hrun => (hstate pre len post out s he hrun).2)
  rw [hopen] at hrun
  refine ⟨_, s', hrun, ?_⟩
  decide +kernel

/-- A read one byte further than the window reaches returns nothing; one at a position
before the window returns what is in memory before the buffer. -/
theorem random_access_fails :
    InOrder (List.replicate 31000 0x55) 0 (uniformBlocks 31000) ∧
    (runOps (fun _ => uniformBlocks 31000) 1 [.seek 30721, .read 10]
      (grubOpen (fun _ => uniformBlocks 31000) 31000 (fun _ => 0))).map Prod.fst = some [(0, [])] ∧
    (runOps (fun _ => uniformBlocks 31000) 1 [.seek 30720, .read 10, .seek 5000, .read 10]
      (grubOpen (fun _ => uniformBlocks 31000) 31000 (fun _ => 0))).map Prod.fst =
      some [(10, List.replicate 10 0x55), (10, List.replicate 10 0)] :=
  ⟨uniformBlocks_inOrder (by decide), by decide +kernel, by decide +kernel⟩

end PulseImaging
