import PulseImaging.ArrayFile

/-! Failures of `tftpget` during a read: the file is opened again and the read starts
from the beginning, with `len` as it was when the transfer broke. -/

namespace PulseImaging

/-- After `n` blocks the others arrive in order up to block `k`, which is not the last one;
then nothing arrives in time, or no data, or a block with another number. -/
inductive Broken (file : List Byte) (k : Nat) : Nat → List (Option Datagram) → Prop where
  | silent (hk : 512 * k ≤ file.length) : Broken file k k []
  | timeout {inbox : List (Option Datagram)} (hk : 512 * k ≤ file.length) : Broken file k k (none :: inbox)
  | nonData {d : Datagram} {inbox : List (Option Datagram)} (hk : 512 * k ≤ file.length) (hop : d.op ≠ 3) :
    Broken file k k (some d :: inbox)
  | wrongBlock {d : Datagram} {inbox : List (Option Datagram)} (hk : 512 * k ≤ file.length) (hop : d.op = 3)
      (hlast : d.block ≠ k) (hnext : d.block ≠ k + 1) : Broken file k k (some d :: inbox)
  | next {n : Nat} {d : Datagram} {inbox : List (Option Datagram)} (hop : d.op = 3) (hblock : d.block = n + 1)
      (hdata : d.payload = blockData file n) (h : Broken file k (n + 1) inbox) : Broken file k n (some d :: inbox)
  | again {n : Nat} {d : Datagram} {inbox : List (Option Datagram)} (hop : d.op = 3) (hblock : d.block = n)
      (h : Broken file k n inbox) : Broken file k n (some d :: inbox)

section

variable {file : List Byte} {k n : Nat} {inbox : List (Option Datagram)}

theorem Broken.le (h : Broken file k n inbox) : n ≤ k ∧ 512 * k ≤ file.length := by
  induction h with
  | silent hk => exact ⟨Nat.le_refl _, hk⟩
  | timeout hk => exact ⟨Nat.le_refl _, hk⟩
  | nonData hk _ => exact ⟨Nat.le_refl _, hk⟩
  | wrongBlock hk _ _ _ => exact ⟨Nat.le_refl _, hk⟩
  | next _ _ _ _ ih => exact ⟨by omega, ih.2⟩
  | again _ _ _ ih => exact ih

/-! ### Windows -/

theorem tftpgetLoop_kept (len siz : Nat) (first : Bool) (s : TftpFile)
    (inbox : List (Option Datagram)) :
    (tftpgetLoop len siz first s inbox).2.filepos = s.filepos ∧
      (tftpgetLoop len siz first s inbox).2.filemax = s.filemax ∧
      (tftpgetLoop len siz first s inbox).2.opens = s.opens := by
  induction inbox generalizing len siz first s with
  | nil =>
    rw [tftpgetLoop]
    split <;> exact ⟨rfl, rfl, rfl⟩
  | cons x rest ih =>
    cases x with
    | none =>
      rw [tftpgetLoop]
      split <;> exact ⟨rfl, rfl, rfl⟩
    | some d =>
      rw [tftpgetLoop]
      split
      · exact ⟨rfl, rfl, rfl⟩
      · split
        · exact ⟨rfl, rfl, rfl⟩
        · split
          · exact ih len siz first s
          · split
            · exact ⟨rfl, rfl, rfl⟩
            · dsimp only
              split
              · exact ⟨rfl, rfl, rfl⟩
              · exact ih _ _ _ _

/-- The variables after a whole window from block `b + 1` on. -/
structure Whole (file : List Byte) (k b : Nat) (s : TftpFile) : Prop where
  basepos_eq : s.basepos = 512 * b
  going : s.endoffile = false
  nextpacket_eq : s.nextpacket = b + 60
  broken : Broken file k (b + 60) s.inbox

theorem tftpgetLoop_whole (h : Broken file k n inbox) {b : Nat} (hn : n = b + 60) {s : TftpFile}
    {first : Bool} (hnext : s.nextpacket = n) (hend : s.endoffile = false)
    (hbase : s.basepos = 512 * b) :
    (tftpgetLoop 0 (512 * 60) first s inbox).1 = BUFFERSIZE ∧
      Whole file k b (tftpgetLoop 0 (512 * 60) first s inbox).2 := by
  have hloop : tftpgetLoop 0 (512 * 60) first s inbox =
      (((512 * 60 : Nat) : Int), { s with inbox := inbox }) := by
    cases inbox with
    | nil => rfl
    | cons x rest => cases x <;> rfl
  rw [hloop]
  exact ⟨rfl, hbase, hend, hnext.trans hn, hn ▸ h⟩

/-- A window is received whole if its blocks are there, and `tftpget` fails otherwise. -/
theorem tftpgetLoop_broken (h : Broken file k n inbox) {b j : Nat} (hn : n = b + j) (hj : j < 60)
    {s : TftpFile} {first : Bool} (hnext : s.nextpacket = n) (hend : s.endoffile = false)
    (hfirst : first = true ∧ j = 0 ∨ first = false ∧ s.basepos = 512 * b) :
    b + 60 ≤ k ∧ (tftpgetLoop (BUFFERSIZE - 512 * j) (512 * j) first s inbox).1 = BUFFERSIZE ∧
        Whole file k b (tftpgetLoop (BUFFERSIZE - 512 * j) (512 * j) first s inbox).2 ∨
      k < b + 60 ∧ (tftpgetLoop (BUFFERSIZE - 512 * j) (512 * j) first s inbox).1 = -1 := by
  have hB := BUFFERSIZE_blocks
  induction h generalizing j s first with
  | silent hk =>
    rw [tftpgetLoop, if_neg (by omega)]
    exact Or.inr ⟨by omega, rfl⟩
  | timeout hk =>
    rw [tftpgetLoop, if_neg (by omega)]
    exact Or.inr ⟨by omega, rfl⟩
  | nonData hk hop =>
    rw [tftpgetLoop, if_neg (by omega), if_pos hop]
    exact Or.inr ⟨by omega, rfl⟩
  | wrongBlock hk hop hlast hwrong =>
    rw [tftpgetLoop, if_neg (by omega), if_neg (not_not.mpr hop), if_neg (by rwa [hnext]),
      if_pos (by rwa [hnext])]
    exact Or.inr ⟨by omega, rfl⟩
  | @next n d inbox hop hblock hdata hrest ih =>
    have hle := hrest.le
    have htake : (d.payload.take 512).length = 512 := by
      rw [hdata, blockData, List.take_take, List.length_take, List.length_drop]
      omega
    have hbase : (if first then 512 * (d.block - 1) else s.basepos) = 512 * b := by
      rcases hfirst with ⟨rfl, hz⟩ | ⟨rfl, hb⟩
      · rw [if_pos rfl, hblock]
        omega
      · rw [if_neg Bool.false_ne_true, hb]
    rw [tftpgetLoop, if_neg (by omega), if_neg (not_not.mpr hop), if_neg (by omega),
      if_neg (by omega)]
    dsimp only
    rw [if_neg (not_not.mpr htake), show BUFFERSIZE - 512 * j - 512 =
      BUFFERSIZE - 512 * (j + 1) by omega, show 512 * j + 512 = 512 * (j + 1) by omega]
    by_cases hlast : j + 1 = 60
    · rw [hlast, show BUFFERSIZE - 512 * 60 = 0 by omega]
      exact Or.inl ⟨by omega, tftpgetLoop_whole hrest (by omega) hblock hend hbase⟩
    · exact ih (by omega) (by omega) hblock hend (Or.inr ⟨rfl, hbase⟩)
  | again hop hblock hrest ih =>
    rw [tftpgetLoop, if_neg (by omega), if_neg (not_not.mpr hop), if_pos (by rw [hblock, hnext])]
    exact ih hn hj hnext hend hfirst

theorem tftpget_broken {s : TftpFile} (h : Broken file k s.nextpacket s.inbox)
    (hend : s.endoffile = false) :
    s.nextpacket + 60 ≤ k ∧ (tftpget s).1 = BUFFERSIZE ∧ Whole file k s.nextpacket (tftpget s).2 ∨
      k < s.nextpacket + 60 ∧ (tftpget s).1 = -1 :=
  tftpgetLoop_broken h (j := 0) rfl (by decide) rfl hend (Or.inl ⟨rfl, rfl⟩)

/-! ### An attempt -/

/-- `e` bytes are in the window, which ends in front of the next block. -/
structure Aligned (file : List Byte) (k : Nat) (s : TftpFile) (e : Nat) : Prop where
  going : s.endoffile = false
  bufferend_eq : s.bufferend = e
  window : e = BUFFERSIZE ∨ e = 0 ∧ s.basepos = 0
  end_eq : s.basepos + e = 512 * s.nextpacket
  whole : 60 ∣ s.nextpacket
  broken : Broken file k s.nextpacket s.inbox
  base_le : s.basepos ≤ s.filepos
  near : s.filepos ≤ s.basepos + BUFFERSIZE
  filemax_eq : s.filemax = file.length

/-- What the connection brings in whole windows before it breaks. -/
def brings (k : Nat) : Nat := BUFFERSIZE * (k / 60)

/-- A read of `total` bytes at `p` that has started with `len` at `l` and with `out` stored. -/
structure Reading (file : List Byte) (k p total l : Nat) (out : List Byte) (opens : Nat) (t : Transfer) (e : Nat) : Prop where
  aligned : Aligned file k t.file e
  opens_eq : t.file.opens = opens
  size_eq : t.file.filepos + t.size = p + total
  len_eq : t.len = l + (t.file.filepos - p)
  copied : t.file.filepos = p ∧ t.out = out ∨ p < t.file.filepos ∧ t.file.filepos ≤ t.file.basepos + e

theorem Aligned.end_le_brings {s : TftpFile} {e : Nat} (h : Aligned file k s e) :
    s.basepos + e ≤ brings k := by
  have hB := BUFFERSIZE_blocks
  have hend := h.end_eq
  obtain ⟨w, hw⟩ := h.whole
  have hle := h.broken.le.1
  rw [brings, hB]
  omega

theorem Aligned.end_eq_brings {s : TftpFile} {e : Nat} (h : Aligned file k s e)
    (hlast : k < s.nextpacket + 60) :
    s.basepos + e = brings k := by
  have hB := BUFFERSIZE_blocks
  have hend := h.end_eq
  obtain ⟨w, hw⟩ := h.whole
  have hle := h.broken.le.1
  rw [brings, hB]
  omega

section Reading

variable {p total l opens e : Nat} {out : List Byte} {t : Transfer}

theorem Reading.remain_eq (h : Reading file k p total l out opens t e)
    (hfile : file.length < 2 ^ 31) (htotal : p + total ≤ file.length) :
    t.remain = (e : Int) - ((t.file.filepos : Int) - t.file.basepos) := by
  have hsize := h.size_eq
  have hbase := h.aligned.base_le
  have hend := h.aligned.end_eq
  have hle := h.aligned.broken.le
  rw [Transfer.remain, h.aligned.bufferend_eq]
  exact toInt_eq (by omega) (by omega)

theorem Reading.pos_eq (h : Reading file k p total l out opens t e) (hfile : file.length < 2 ^ 31)
    (htotal : p + total ≤ file.length) : t.pos = (t.file.filepos : Int) - t.file.basepos := by
  have hsize := h.size_eq
  have hbase := h.aligned.base_le
  exact toInt_eq (by omega) (by omega)

theorem Reading.start_le (h : Reading file k p total l out opens t e) : p ≤ t.file.filepos :=
  h.copied.elim (fun h => h.1.ge) fun h => h.1.le

theorem Reading.copy (h : Reading file k p total l out opens t e) {m : Nat} (hm : m ≤ t.size)
    (hpos : 0 < m) (hend : t.file.filepos + m ≤ t.file.basepos + e) :
    Reading file k p total l out opens (t.copy m) e := by
  have ha := h.aligned
  have hsize := h.size_eq
  have hstart := h.start_le
  have hlen := h.len_eq
  have hbase := ha.base_le
  have he : e ≤ BUFFERSIZE := ha.window.elim (fun h => h.le) fun h => h.1 ▸ Nat.zero_le _
  refine ⟨⟨ha.going, ha.bufferend_eq, ha.window, ha.end_eq, ha.whole, ha.broken, ?_, ?_,
    ha.filemax_eq⟩, h.opens_eq, ?_, ?_, Or.inr ⟨?_, ?_⟩⟩ <;> simp only [Transfer.copy] <;> omega

/-- After the window has been copied the position is at its end, or not reached by it. -/
theorem Reading.drain (h : Reading file k p total l out opens t e) (hfile : file.length < 2 ^ 31)
    (htotal : p + total ≤ file.length) (hmore : t.file.basepos + e < p + total) :
    Reading file k p total l out opens t.drain e ∧ t.drain.file.basepos + e ≤ t.drain.file.filepos ∧
      t.drain.file.inbox = t.file.inbox ∧ t.drain.file.nextpacket = t.file.nextpacket := by
  have hremain := h.remain_eq hfile htotal
  have hsize := h.size_eq
  by_cases hr : t.remain > 0
  · rw [show t.drain = t.copy t.remain.toNat from if_pos hr]
    refine ⟨h.copy (by omega) (by omega) (by omega), ?_, rfl, rfl⟩
    simp only [Transfer.copy]
    omega
  · rw [show t.drain = t from if_neg hr]
    exact ⟨h, by omega, rfl, rfl⟩

/-- How an attempt ends: with all bytes, or with those that the connection has brought. -/
structure Failed (file : List Byte) (k p l : Nat) (out : List Byte) (opens : Nat) (t : Transfer) : Prop where
  len_eq : t.len = l + (brings k - p)
  out_eq : brings k ≤ p → t.out = out
  opens_eq : t.file.opens = opens
  filemax_eq : t.file.filemax = file.length

theorem Reading.turn (h : Reading file k p total l out opens t e) (hfile : file.length < 2 ^ 31)
    (htotal : p + total ≤ file.length) :
    p + total ≤ brings k ∧ t.turn.1 = .returned ∧ t.turn.2.file.filepos = p + total ∧
        t.turn.2.file.opens = opens ∧ (∃ e', Aligned file k t.turn.2.file e') ∨
      t.turn.1 = .next ∧ (∃ e', Reading file k p total l out opens t.turn.2 e') ∧
        t.turn.2.file.inbox.length < t.file.inbox.length ∨
      brings k < p + total ∧ t.turn.1 = .failed ∧ Failed file k p l out opens t.turn.2 := by
  have hB := BUFFERSIZE_blocks
  have hpos := h.pos_eq hfile htotal
  have hremain := h.remain_eq hfile htotal
  have hsize := h.size_eq
  have hnear := h.aligned.near
  have hend := h.aligned.end_le_brings
  rw [Transfer.turn, if_neg (by omega)]
  by_cases hr : t.remain ≥ t.size
  · rw [if_pos hr]
    have ha := h.aligned
    have hbase := ha.base_le
    have he : e ≤ BUFFERSIZE := ha.window.elim (fun h => h.le) fun h => h.1 ▸ Nat.zero_le _
    refine Or.inl ⟨by omega, rfl, hsize, h.opens_eq,
      ⟨e, ha.going, ha.bufferend_eq, ha.window, ha.end_eq, ha.whole, ha.broken, ?_, ?_,
      ha.filemax_eq⟩⟩ <;> simp only [Transfer.copy] <;> omega
  · rw [if_neg hr]
    obtain ⟨hd, hreached, hinbox, hnext⟩ := h.drain hfile htotal (by omega)
    have ha := hd.aligned
    have hbase := ha.base_le
    have hdend := ha.end_eq
    have hdnear := ha.near
    obtain ⟨w, hw⟩ := ha.whole
    obtain ⟨hkpos, hkmax, hkopens⟩ :=
      tftpgetLoop_kept BUFFERSIZE 0 true t.drain.file t.drain.file.inbox
    rcases tftpget_broken ha.broken ha.going with ⟨hk, hone, hwhole⟩ | ⟨hk, hone⟩
    · have hinbox' := (tftpgetLoop_inbox (s := t.drain.file) t.drain.file.inbox).2 (by decide)
        (show (tftpget t.drain.file).1 ≠ -1 by rw [hone]; decide)
      have hkpos' : (tftpget t.drain.file).2.filepos = t.drain.file.filepos := hkpos
      have hbase' : t.drain.receive.2.file.basepos = 512 * t.drain.file.nextpacket :=
        hwhole.basepos_eq
      have hnext' : t.drain.receive.2.file.nextpacket = t.drain.file.nextpacket + 60 :=
        hwhole.nextpacket_eq
      have hfilepos : t.drain.receive.2.file.filepos = t.drain.file.filepos := hkpos
      have haligned : Aligned file k t.drain.receive.2.file BUFFERSIZE := by
        refine ⟨hwhole.going, hone, Or.inl rfl, ?_, ⟨w + 1, ?_⟩, hnext' ▸ hwhole.broken, ?_, ?_,
          hkmax.trans ha.filemax_eq⟩ <;> omega
      refine Or.inr (Or.inl ⟨?_, ⟨BUFFERSIZE, haligned, hkopens.trans hd.opens_eq, ?_, ?_, ?_⟩,
        hinbox ▸ hinbox'⟩)
      · rw [Transfer.receive, hone]
        rfl
      · rw [hfilepos]
        exact hd.size_eq
      · rw [hfilepos]
        exact hd.len_eq
      · rw [hfilepos, hbase']
        exact hd.copied.imp_right fun hc => ⟨hc.1, by omega⟩
    · have hbrings := ha.end_eq_brings hk
      have hlen := hd.len_eq
      refine Or.inr (Or.inr ⟨?_, ?_, ⟨?_, fun hle => ?_, hkopens.trans hd.opens_eq,
        hkmax.trans ha.filemax_eq⟩⟩)
      · have := h.aligned.end_eq
        omega
      · rw [Transfer.receive, hone]
        rfl
      · have hlen' : t.drain.receive.2.len = t.drain.len := rfl
        rcases hd.copied with hc | hc <;> omega
      · exact hd.copied.elim And.right fun hc => by omega

/-- An attempt returns if the connection brings enough, and fails otherwise. -/
theorem Reading.loop {fuel : Nat} (h : Reading file k p total l out opens t e)
    (hfile : file.length < 2 ^ 31) (htotal : p + total ≤ file.length)
    (hfuel : t.file.inbox.length < fuel) :
    (p + total ≤ brings k ∧ ∃ t', t.loop fuel = some (.returned, t') ∧ t'.file.filepos = p + total ∧
        t'.file.opens = opens ∧ ∃ e', Aligned file k t'.file e') ∨
      brings k < p + total ∧ ∃ t', t.loop fuel = some (.failed, t') ∧
        Failed file k p l out opens t' := by
  induction fuel generalizing t e with
  | zero => omega
  | succ fuel ih =>
    rw [Transfer.loop]
    rcases h.turn hfile htotal with ⟨hle, hk, hpos, ho, ha⟩ | ⟨hk, ⟨e', hr⟩, hlt⟩ | ⟨hlt, hk, hf⟩
    · rw [if_neg (by rw [hk]; simp)]
      exact Or.inl ⟨hle, t.turn.2, by rw [← hk], hpos, ho, ha⟩
    · rw [if_pos hk]
      exact ih hr (by omega)
    · rw [if_neg (by rw [hk]; simp)]
      exact Or.inr ⟨hlt, t.turn.2, by rw [← hk], hf⟩

end Reading

/-! ### Attempts of one read -/

variable {conns : Nat → List (Option Datagram)} {p total : Nat}

/-- A read from the label `retransmit` on: it returns, or the file is opened for the next attempt. -/
theorem tftpReadLoop_attempt {s : TftpFile} {e : Nat}
    (h : Aligned file k { s with filepos := p } e) (hfile : file.length < 2 ^ 31)
    (htotal : p + total ≤ file.length) (turns l : Nat) (out : List Byte) :
    (p + total ≤ brings k ∧ ∃ r s', tftpReadLoop conns total p (turns + 1) l out s = some (r, s') ∧
      s'.filepos = p + total ∧
        s'.opens = s.opens ∧ ∃ e', Aligned file k s' e') ∨
      brings k < p + total ∧ ∃ out' s', tftpReadLoop conns total p (turns + 1) l out s =
          tftpReadLoop conns total p turns (l + (brings k - p)) out' (tftpopen conns s') ∧
        (brings k ≤ p → out' = out) ∧ s'.opens = s.opens ∧ s'.filemax = file.length := by
  have hrep : reposition conns { s with filepos := p } = some (false, { s with filepos := p }) := by
    rw [reposition, if_neg fun hre => hre.2 h.base_le]
  have hstart : Reading file k p total l out s.opens
      ⟨total, 0, l, out, { s with filepos := p, savedpos := p + total }⟩ e := by
    refine ⟨⟨h.going, h.bufferend_eq, h.window, h.end_eq, h.whole, h.broken, h.base_le, h.near,
      h.filemax_eq⟩, rfl, rfl, ?_, Or.inl ⟨rfl, rfl⟩⟩
    dsimp only
    rw [Nat.sub_self, Nat.add_zero]
  have hgoing : ¬ s.endoffile = true := by
    rw [show s.endoffile = false from h.going]
    exact Bool.false_ne_true
  rw [tftpReadLoop, hrep, Option.bind_some, if_neg Bool.false_ne_true]
  dsimp only
  rw [if_neg hgoing]
  rcases hstart.loop hfile htotal (Nat.lt_succ_self _) with ⟨hle, t', hloop, hpos, ho, ha⟩ |
    ⟨hlt, t', hloop, hf⟩
  · rw [hloop, Option.bind_some]
    exact Or.inl ⟨hle, _, t'.file, rfl, hpos, ho, ha⟩
  · rw [hloop, Option.bind_some]
    dsimp only
    rw [hf.len_eq]
    exact Or.inr ⟨hlt, t'.out, tftpclose t'.file, rfl, hf.out_eq, hf.opens_eq, hf.filemax_eq⟩

theorem aligned_open {s : TftpFile} (h : Broken file k 0 (conns s.opens)) (hp : p ≤ BUFFERSIZE)
    (hmax : s.filemax = file.length) : Aligned file k { tftpopen conns s with filepos := p } 0 := by
  refine ⟨rfl, rfl, Or.inr ⟨rfl, rfl⟩, rfl, Nat.dvd_zero 60, h, Nat.zero_le _, ?_, hmax⟩
  rw [show (tftpopen conns s).basepos = 0 from rfl, Nat.zero_add]
  exact hp

/-- Behind the first window a read that has failed once returns nothing. -/
theorem tftpReadLoop_skipping {s : TftpFile} (hp : BUFFERSIZE < p) (hp' : p < 2 ^ 31) (turns l : Nat) (out : List Byte) :
    ∃ s', tftpReadLoop conns total p (turns + 1) l out (tftpopen conns s) = some ((0, out), s') := by
  have hpos : Transfer.pos ⟨total, 0, l, out, { tftpopen conns s with filepos := p, savedpos := p + total }⟩ = p := by
    rw [Transfer.pos, toInt_eq (by dsimp only [tftpopen]; omega) (by dsimp only [tftpopen]; omega)]
    dsimp only [tftpopen]
    omega
  have hturn : Transfer.turn ⟨total, 0, l, out, { tftpopen conns s with filepos := p, savedpos := p + total }⟩ =
      (.skipping, ⟨total, 0, l, out, { tftpopen conns s with filepos := p, savedpos := p + total }⟩) := by
    rw [Transfer.turn, if_pos (by rw [hpos]; omega)]
  have hrep : reposition conns { tftpopen conns s with filepos := p } =
      some (false, { tftpopen conns s with filepos := p }) := by
    rw [reposition, if_neg fun hre => hre.2 (Nat.zero_le _)]
  rw [tftpReadLoop, hrep, Option.bind_some, if_neg Bool.false_ne_true]
  dsimp only
  rw [if_neg (show ¬ (tftpopen conns s).endoffile = true from Bool.false_ne_true), Transfer.loop,
    hturn, if_neg (by simp), Option.bind_some]
  exact ⟨_, rfl⟩

/-! ### What `len` brings along -/

def Transfer.shift (t : Transfer) (l : Nat) (out : List Byte) : Transfer := { t with len := l + t.len, out := out }

theorem Transfer.shift_copy (t : Transfer) (l n : Nat) (out : List Byte) :
    (t.shift l out).copy n = (t.copy n).shift l (overlay out t.off (load t.file.buffer t.pos n)) := by
  rw [Transfer.copy, Transfer.shift, Transfer.shift, Transfer.copy, Nat.add_assoc]
  rfl

theorem Transfer.shift_turn (t : Transfer) (l : Nat) (out : List Byte) :
    ∃ out', (t.shift l out).turn = (t.turn.1, t.turn.2.shift l out') := by
  have hpos : (t.shift l out).pos = t.pos := rfl
  have hremain : (t.shift l out).remain = t.remain := rfl
  have hsize : (t.shift l out).size = t.size := rfl
  rw [Transfer.turn, hpos, hremain, hsize, Transfer.turn]
  split
  · exact ⟨out, rfl⟩
  · split
    · exact ⟨_, by rw [t.shift_copy]⟩
    · have hreceive : ∀ (u : Transfer) (o : List Byte),
          (u.shift l o).receive = (u.receive.1, u.receive.2.shift l o) := by
        intro u o
        rfl
      rw [Transfer.drain, hremain, Transfer.drain]
      split
      · rw [t.shift_copy, hreceive]
        exact ⟨_, rfl⟩
      · rw [hreceive]
        exact ⟨_, rfl⟩

theorem Transfer.shift_loop (t : Transfer) (l : Nat) (out : List Byte) (fuel : Nat) :
    ∃ out', (t.shift l out).loop fuel = (t.loop fuel).map (fun r => (r.1, r.2.shift l out')) := by
  induction fuel generalizing t out with
  | zero => exact ⟨out, rfl⟩
  | succ fuel ih =>
    obtain ⟨out', hturn⟩ := t.shift_turn l out
    rw [Transfer.loop, hturn, Transfer.loop]
    split
    · exact ih t.turn.2 out'
    · exact ⟨out', rfl⟩

theorem Transfer.shift_finish (t : Transfer) (l : Nat) (out : List Byte) (h : t.finish.1 ≠ 0) :
    ∃ out', (t.shift l out).finish = (l + t.finish.1, t.finish.2.shift l out') := by
  have hremain : (t.shift l out).remain = t.remain := rfl
  have hsize : (t.shift l out).size = t.size := rfl
  rw [Transfer.finish] at h
  rw [Transfer.finish, hremain, hsize, Transfer.finish]
  split
  · dsimp only
    rw [t.shift_copy]
    exact ⟨_, rfl⟩
  · rename_i hr
    rw [if_neg hr] at h
    exact absurd rfl h

/-- A read that starts with `len` at `l` returns so much more. -/
theorem tftpReadLoop_shift {s s' : TftpFile} {n : Nat} {o : List Byte} (hn : n ≠ 0)
    (h : tftpReadLoop conns total p 1 0 [] s = some ((n, o), s')) (turns l : Nat) (out : List Byte) :
    ∃ out', tftpReadLoop conns total p (turns + 1) l out s = some ((l + n, out'), s') := by
  rw [tftpReadLoop] at h ⊢
  obtain ⟨⟨failed, s₁⟩, hrep, h⟩ := Option.bind_eq_some_iff.mp h
  rw [hrep, Option.bind_some]
  dsimp only at h ⊢
  cases failed with
  | true => cases h
  | false =>
    have hshift : (⟨total, 0, l, out, { s₁ with savedpos := p + total }⟩ : Transfer) =
        Transfer.shift ⟨total, 0, 0, [], { s₁ with savedpos := p + total }⟩ l out := rfl
    rw [if_neg Bool.false_ne_true] at h ⊢
    by_cases hend : s₁.endoffile = true
    · rw [if_pos hend] at h ⊢
      rw [hshift]
      obtain ⟨⟨hone, -⟩, htwo⟩ := by simpa only [Option.some.injEq, Prod.mk.injEq] using h
      obtain ⟨out', hfinish⟩ := Transfer.shift_finish ⟨total, 0, 0, [],
        { s₁ with savedpos := p + total }⟩ l out (hone ▸ hn)
      rw [hfinish, hone]
      exact ⟨out', congrArg (fun f => some ((l + n, out'), f)) htwo⟩
    · rw [if_neg hend] at h ⊢
      rw [hshift]
      obtain ⟨out', hloop⟩ := Transfer.shift_loop ⟨total, 0, 0, [],
        { s₁ with savedpos := p + total }⟩ l out
        (s₁.inbox.length + 1)
      obtain ⟨⟨turn, t'⟩, ht', h⟩ := Option.bind_eq_some_iff.mp h
      rw [hloop, ht', Option.map_some, Option.bind_some]
      cases turn with
      | returned =>
        obtain ⟨⟨hone, -⟩, htwo⟩ := by simpa only [Option.some.injEq, Prod.mk.injEq] using h
        exact ⟨out', by rw [← hone, ← htwo]; rfl⟩
      | skipping =>
        obtain ⟨⟨hone, -⟩, -⟩ := by simpa only [Option.some.injEq, Prod.mk.injEq] using h
        exact absurd hone.symm hn
      | failed => cases h
      | next => cases h
      | reachedEof =>
        obtain ⟨⟨hone, -⟩, htwo⟩ := by simpa only [Option.some.injEq, Prod.mk.injEq] using h
        obtain ⟨out'', hfinish⟩ := Transfer.shift_finish t' l out' (hone ▸ hn)
        dsimp only
        rw [hfinish, hone]
        exact ⟨out'', congrArg (fun f => some ((l + n, out''), f)) htwo⟩

/-- The failed attempts one after the other, each from the first block on. -/
theorem tftpReadLoop_attempts (hfile : file.length < 2 ^ 31) (htotal : p + total ≤ file.length)
    (hp : p ≤ BUFFERSIZE) {m : Nat} {k : Nat → Nat} {j : Nat} (hj : j ≤ m)
    (hbroken : ∀ i, j ≤ i → i < m → Broken file (k i) 0 (conns i))
    (hduring : ∀ i, j ≤ i → i < m → brings (k i) < p + total) {s : TftpFile}
    (hopens : s.opens = j) (hmax : s.filemax = file.length) (turns l : Nat) (out : List Byte) :
    ∃ extra out' s', tftpReadLoop conns total p (m - j + turns) l out (tftpopen conns s) =
        tftpReadLoop conns total p turns (l + extra) out' (tftpopen conns s') ∧ s'.opens = m ∧
          s'.filemax = file.length ∧
      (extra = 0 ↔ ∀ i, j ≤ i → i < m → brings (k i) ≤ p) ∧ (extra = 0 → out' = out) := by
  obtain ⟨d, rfl⟩ := Nat.exists_eq_add_of_le hj
  induction d generalizing j s l out with
  | zero =>
    refine ⟨0, out, s, ?_, hopens, hmax, ⟨fun _ i hi hlt => by omega, fun _ => rfl⟩, fun _ => rfl⟩
    rw [Nat.add_zero, Nat.sub_self, Nat.zero_add, Nat.add_zero]
  | succ d ih =>
    have hconn : Broken file (k j) 0 (conns s.opens) := by
      rw [hopens]
      exact hbroken j (Nat.le_refl _) (by omega)
    have ha := aligned_open hconn hp hmax
    have hlt := hduring j (Nat.le_refl _) (by omega)
    rcases tftpReadLoop_attempt ha hfile htotal (d + turns) l out with ⟨hle, -⟩ |
      ⟨-, out₁, s₁, hrun, hout₁, ho₁, hmax₁⟩
    · omega
    · have ho : s₁.opens = j + 1 := ho₁.trans (congrArg (· + 1) hopens)
      obtain ⟨extra, out', s', hrest, ho', hmax', hextra, hout'⟩ :=
        ih ho hmax₁ (l + (brings (k j) - p)) out₁ (by omega)
        (fun i hi hlt => hbroken i (by omega) (by omega))
          (fun i hi hlt => hduring i (by omega) (by omega))
      have hturns : j + (d + 1) - j + turns = d + turns + 1 := by omega
      have hturns' : j + 1 + d - (j + 1) + turns = d + turns := by omega
      have hm : j + 1 + d = j + (d + 1) := by omega
      rw [hturns'] at hrest
      rw [hm] at ho' hextra
      refine ⟨brings (k j) - p + extra, out', s', ?_, ho', hmax', ?_, fun hz => ?_⟩
      · rw [hturns, hrun, hrest, Nat.add_assoc]
      · constructor
        · intro hz i hi hlt
          by_cases hij : i = j
          · rw [hij]
            omega
          · exact hextra.mp (by omega) i (by omega) hlt
        · intro hall
          have hz := hextra.mpr fun i hi hlt => hall i (by omega) hlt
          have := hall j (Nat.le_refl _) (by omega)
          omega
      · rw [hout' (by omega), hout₁ (by omega)]

/-! ### The reads before -/

theorem grubRead_eq {f : ArrayFile} {s : TftpFile} (hfile : f.bytes.length < 2 ^ 31)
    (hmax : s.filemax = f.bytes.length) (hpos : s.filepos = f.pos) (turns : Nat) (len : Int) :
    grubRead conns turns len s = tftpReadLoop conns (f.clip len) f.pos turns 0 [] s := by
  have hle := f.pos_le
  have hend := f.pos_clip_le len
  have hclip : s.clip len = f.clip len := by rw [TftpFile.clip, ArrayFile.clip, hmax, hpos]
  rw [grubRead, if_neg (show ¬ s.filepos > s.filemax by omega),
    if_neg (by rw [hclip, MAXINT]; omega), tftpRead, hclip, hpos]

theorem ArrayFile.run_pos_le (lens : List Int) (f : ArrayFile) :
    f.pos ≤ (ArrayFile.run (lens.map .read) f).2.pos := by
  have h := (ArrayFile.run_reads lens f).2
  omega

theorem ArrayFile.run_bytes (lens : List Int) (f : ArrayFile) :
    (ArrayFile.run (lens.map .read) f).2.bytes = f.bytes := by
  induction lens generalizing f with
  | nil => rfl
  | cons len lens ih => exact ih (f.read len).2

/-- Reads that need no more than the first connection brings open no other one. -/
theorem runOps_aligned {f : ArrayFile} {s : TftpFile} {e : Nat} (lens : List Int)
    (h : Aligned f.bytes k s e) (hfile : f.bytes.length < 2 ^ 31) (hpos : s.filepos = f.pos)
    (hbefore : (ArrayFile.run (lens.map .read) f).2.pos ≤ brings k) (turns : Nat) :
    ∃ out s' e', runOps conns (turns + 1) (lens.map .read) s = some (out, s') ∧
      Aligned f.bytes k s' e' ∧
      s'.filepos = (ArrayFile.run (lens.map .read) f).2.pos ∧ s'.opens = s.opens := by
  induction lens generalizing f s e with
  | nil => exact ⟨[], s, e, rfl, h, hpos, rfl⟩
  | cons len lens ih =>
    have hself : { s with filepos := f.pos } = s := by rw [← hpos]
    have hnext := ArrayFile.run_pos_le lens (f.read len).2
    have hneed : (f.read len).2.pos = f.pos + f.clip len := rfl
    have hall : (ArrayFile.run ((len :: lens).map .read) f).2.pos =
      (ArrayFile.run (lens.map .read) (f.read len).2).2.pos := rfl
    rcases tftpReadLoop_attempt (hself.symm ▸ h) hfile (f.pos_clip_le len) turns 0 [] with
      ⟨-, r, s₁, hread, hpos₁, ho, e₁, ha⟩ | ⟨hlt, -⟩
    · rw [← grubRead_eq hfile h.filemax_eq hpos] at hread
      obtain ⟨out, s', e', hrun, ha', hpos', ho'⟩ := ih (f := (f.read len).2) ha hfile hpos₁ hbefore
      exact ⟨r :: out, s', e', runOps_read hread hrun, ha', hpos', ho'.trans ho⟩
    · omega

theorem aligned_grubOpen {bytes : List Byte} (h : Broken bytes k 0 (conns 0)) (buffer : Int → Byte) :
    Aligned bytes k (grubOpen conns bytes.length buffer) 0 :=
  ⟨rfl, rfl, Or.inr ⟨rfl, rfl⟩, rfl, Nat.dvd_zero 60, h, Nat.zero_le _, Nat.zero_le _, rfl⟩

/-! ### The read with the failures -/

/-- A connection without failures, for a position in its first window. -/
theorem tftpReadLoop_reopened (hfile : file.length < 2 ^ 31) (htotal : p + total ≤ file.length)
    (hp : p ≤ BUFFERSIZE) {s : TftpFile} (hnet : InOrder file 0 (conns s.opens))
    (hmax : s.filemax = file.length) (turns : Nat) :
    ∃ s', tftpReadLoop conns total p (turns + 1) 0 [] (tftpopen conns s) =
      some ((total, (file.drop p).take total), s') ∧ s'.filepos = p + total := by
  have hopen : Holds file { tftpopen conns s with filepos := p } 0 := by
    obtain ⟨h1, h2, h3, h4, h5⟩ := holds_open hnet
    exact ⟨h1, h2, h3, h4, h5⟩
  have hrep : reposition conns { tftpopen conns s with filepos := p } =
      some (false, { tftpopen conns s with filepos := p }) := by
    rw [reposition, if_neg fun hre => hre.2 (Nat.zero_le _)]
  have hnear : TftpFile.near { tftpopen conns s with filepos := p } := Or.inr (by
    rw [show (tftpopen conns s).basepos = 0 from rfl, Nat.zero_add]
    exact hp)
  obtain ⟨s', -, hrun, -, hpos, -⟩ := tftpReadLoop_exact hfile hrep rfl htotal hmax
    (Nat.zero_le _) hopen (if_pos hnear).symm turns
  exact ⟨s', hrun, hpos⟩

/-- The read is repeated exactly if no attempt had stored anything when it failed, and if
its position is in the first window. -/
theorem tftpReadLoop_failures (hfile : file.length < 2 ^ 31) (htotal : p + total ≤ file.length)
    {m : Nat} (hm : 0 < m) {k : Nat → Nat} (hbroken : ∀ j < m, Broken file (k j) 0 (conns j))
    (hnet : InOrder file 0 (conns m)) (hbefore : p ≤ brings (k 0))
    (hduring : ∀ j < m, brings (k j) < p + total) {s : TftpFile} {e : Nat}
    (h : Aligned file (k 0) s e) (hpos : s.filepos = p) (hopens : s.opens = 1) (turns : Nat) :
    (∃ s', tftpReadLoop conns total p (m + turns + 1) 0 [] s =
      some ((total, (file.drop p).take total), s') ∧
        s'.filepos = p + total) ↔
      p ≤ BUFFERSIZE ∧ ∀ j < m, brings (k j) ≤ p := by
  have hself : { s with filepos := p } = s := by rw [← hpos]
  have hfirst := hduring 0 hm
  rcases tftpReadLoop_attempt (hself.symm ▸ h) hfile htotal (m + turns) 0 [] with ⟨hle, -⟩ |
    ⟨-, out₁, s₁, hrun, hout₁, ho₁, hmax₁⟩
  · omega
  · by_cases hp : p ≤ BUFFERSIZE
    · have hturns : m + turns = m - 1 + (turns + 1) := by omega
      obtain ⟨extra, out', s', hrest, ho, hmax, hextra, hout⟩ :=
        tftpReadLoop_attempts (j := 1) hfile htotal hp hm (fun i _ hi => hbroken i hi)
          (fun i _ hi => hduring i hi) (ho₁.trans hopens) hmax₁ (turns + 1)
          (0 + (brings (k 0) - p)) out₁
      rw [hrun, hturns, hrest]
      obtain ⟨s'', hclean, hpos''⟩ :=
        tftpReadLoop_reopened hfile htotal hp (ho ▸ hnet) hmax turns
      obtain ⟨s₀, hclean₀, -⟩ := tftpReadLoop_reopened hfile htotal hp (ho ▸ hnet) hmax 0
      have hall : 0 + (brings (k 0) - p) + extra = 0 ↔ ∀ j < m, brings (k j) ≤ p := by
        constructor
        · intro hz j hj
          by_cases hj0 : j = 0
          · rw [hj0]
            omega
          · exact hextra.mp (by omega) j (by omega) hj
        · intro hall
          have hz := hextra.mpr fun i _ hi => hall i hi
          have := hall 0 hm
          omega
      rw [and_iff_right hp, ← hall]
      constructor
      · rintro ⟨s₂, hexact, -⟩
        obtain ⟨out₂, hshift⟩ := tftpReadLoop_shift (by omega) hclean₀ turns
          (0 + (brings (k 0) - p) + extra) out'
        rw [hexact, Option.some.injEq, Prod.mk.injEq, Prod.mk.injEq] at hshift
        have hcount := hshift.1.1
        omega
      · intro hz
        rw [hz, hout (by omega), hout₁ (by omega)]
        exact ⟨s'', hclean, hpos''⟩
    · obtain ⟨s', hskip⟩ := @tftpReadLoop_skipping conns _ total s₁ (Nat.lt_of_not_le hp) (by omega)
        (m - 1 + turns) (0 + (brings (k 0) - p)) out₁
      have hturns : m + turns = m - 1 + turns + 1 := by omega
      rw [hrun, hturns, hskip]
      refine ⟨?_, fun hcond => absurd hcond.1 hp⟩
      rintro ⟨s₂, hexact, -⟩
      rw [Option.some.injEq, Prod.mk.injEq, Prod.mk.injEq] at hexact
      have hcount := hexact.1.1
      omega

theorem grubRead_failures {f : ArrayFile} (hfile : f.bytes.length < 2 ^ 31) {m : Nat} (hm : 0 < m)
    {k : Nat → Nat} (hbroken : ∀ j < m, Broken f.bytes (k j) 0 (conns j))
    (hnet : InOrder f.bytes 0 (conns m)) (hbefore : f.pos ≤ brings (k 0)) {len : Int}
    (hduring : ∀ j < m, brings (k j) < (f.read len).2.pos) {s : TftpFile} {e : Nat}
    (h : Aligned f.bytes (k 0) s e) (hpos : s.filepos = f.pos) (hopens : s.opens = 1)
    (turns : Nat) :
    (∃ s', grubRead conns (m + turns + 1) len s = some ((f.read len).1, s') ∧
      s'.filepos = (f.read len).2.pos) ↔
      m = 0 ∨ s.filepos ≤ BUFFERSIZE ∧ ∀ j < m, brings (k j) ≤ s.filepos := by
  have hexact := tftpReadLoop_failures hfile
    (f.pos_clip_le len) hm hbroken hnet hbefore hduring h hpos hopens turns
  rw [grubRead_eq hfile h.filemax_eq hpos, hpos]
  exact hexact.trans ⟨Or.inr, fun h => h.resolve_left (by omega)⟩

/-- The array after reads one after the other from its start. -/
def afterReads (bytes : List Byte) (lens : List Int) : ArrayFile := (ArrayFile.run (lens.map .read) ⟨bytes, 0, Nat.zero_le _⟩).2

theorem afterReads_bytes (bytes : List Byte) (lens : List Int) :
    (afterReads bytes lens).bytes = bytes :=
  ArrayFile.run_bytes lens ⟨bytes, 0, Nat.zero_le _⟩

theorem afterReads_pos {bytes : List Byte} {len : Int} (hpos : 0 ≤ len) (h : len ≤ bytes.length) :
    (afterReads bytes [len]).pos = len.toNat := by
  change 0 + ArrayFile.clip ⟨bytes, 0, Nat.zero_le _⟩ len = len.toNat
  rw [ArrayFile.clip, if_neg (by dsimp only; omega), Nat.zero_add]

/-- Sequential reads, then one during which `tftpget` fails on `m` connections: it reads what it
would without failures exactly if there was none, or if its position is in the first window and
no connection had brought a whole window behind it. -/
theorem retransmission_exact {bytes : List Byte} (hfile : (bytes.length + 511) / 512 < 65535)
    {conns : Nat → List (Option Datagram)} {m : Nat} {k : Nat → Nat} (hbroken : ∀ j < m, Broken bytes (k j) 0 (conns j))
    (hnet : InOrder bytes 0 (conns m)) (buffer : Int → Byte) (turns : Nat) (lens : List Int) (len : Int)
    (hbefore : 0 < m → (afterReads bytes lens).pos ≤ brings (k 0))
    (hduring : ∀ j < m, brings (k j) < ((afterReads bytes lens).read len).2.pos) :
    ∃ out s, runOps conns (turns + 1) (lens.map .read) (grubOpen conns bytes.length buffer) = some (out, s) ∧
      s.filepos = (afterReads bytes lens).pos ∧
      ((∃ s', grubRead conns (m + turns + 1) len s = some (((afterReads bytes lens).read len).1, s') ∧
          s'.filepos = ((afterReads bytes lens).read len).2.pos) ↔
        m = 0 ∨ s.filepos ≤ BUFFERSIZE ∧ ∀ j < m, brings (k j) ≤ s.filepos) := by
  have hlt : bytes.length < 2 ^ 31 := by omega
  have hbytes := afterReads_bytes bytes lens
  rcases Nat.eq_zero_or_pos m with rfl | hm
  · obtain ⟨s, hrun, hw, hsaved, hnear⟩ := @runOps_reads _ _ conns turns lens
      (window_open hnet buffer) hlt
      (Nat.le_refl _) (Or.inr (Nat.zero_le _))
    obtain ⟨s', hread, hw', -, -⟩ := @grubRead_step _ _ hw
      (by rw [ArrayFile.run_bytes]; exact hlt) conns len
      (fun hback => by have := hback.2.1; omega) hnear (fun hlt => by omega) (0 + turns)
    exact ⟨_, s, hrun, hw.filepos_eq, fun _ => Or.inl rfl, fun _ => ⟨s', hread, hw'.filepos_eq⟩⟩
  · obtain ⟨out, s, e, hrun, ha, hpos, ho⟩ := runOps_aligned (f := ⟨bytes, 0, Nat.zero_le _⟩) lens
      (aligned_grubOpen (hbroken 0 hm) buffer) hlt rfl (hbefore hm) turns
    refine ⟨out, s, hrun, hpos, ?_⟩
    have hpos' : s.filepos = (afterReads bytes lens).pos := hpos
    generalize afterReads bytes lens = f at hbytes hbefore hduring hpos'
    subst hbytes
    exact grubRead_failures hlt hm hbroken hnet (hbefore hm) hduring ha hpos' ho turns

/-- Blocks in order in front of what breaks the transfer. -/
theorem broken_append {g : Nat → Datagram} {d : Nat} (hd : n + d = k) (hrest : Broken file k k inbox)
    (h : ∀ i < k, (g i).op = 3 ∧ (g i).block = i + 1 ∧ (g i).payload = blockData file i) :
    Broken file k n ((List.range' n d).map (fun i => some (g i)) ++ inbox) := by
  induction d generalizing n with
  | zero =>
    obtain rfl : n = k := hd
    exact hrest
  | succ d ih =>
    obtain ⟨hop, hblock, hdata⟩ := h n (by omega)
    rw [List.range'_succ, List.map_cons]
    exact .next hop hblock hdata (ih (by omega))

theorem broken_blocks {g : Nat → Datagram} {d : Nat} (hd : n + d = k) (hk : 512 * k ≤ file.length)
    (h : ∀ i < k, (g i).op = 3 ∧ (g i).block = i + 1 ∧ (g i).payload = blockData file i) :
    Broken file k n ((List.range' n d).map (fun i => some (g i))) := by
  have hall := broken_append hd (.silent hk) h
  rwa [List.append_nil] at hall

/-- The connections for a file of 31000 bytes: one is silent behind the first window, one behind ten blocks. -/
def twiceBroken (j : Nat) : List (Option Datagram) :=
  if j = 0 then (List.range' 0 60).map (fun n => some (uniformBlock 31000 n))
  else if j = 1 then (List.range' 0 10).map (fun n => some (uniformBlock 31000 n))
  else uniformBlocks 31000

theorem twiceBroken_broken (j : Nat) (h : j < 2) :
    Broken (List.replicate 31000 0x55) (if j = 0 then 60 else 10) 0 (twiceBroken j) := by
  have hlen : (List.replicate 31000 (0x55 : Byte)).length = 31000 := List.length_replicate
  rw [twiceBroken]
  by_cases hj : j = 0
  · rw [if_pos hj, if_pos hj]
    exact broken_blocks rfl (by rw [hlen]; decide) (fun i hi => uniformBlock_eq (by omega))
  · rw [if_neg hj, if_neg hj, if_pos (by omega)]
    exact broken_blocks rfl (by rw [hlen]; decide) (fun i hi => uniformBlock_eq (by omega))

/-- The rest of the file is read behind the window that the first of them has brought. -/
theorem retransmission_second_window :
    ∃ out s s', runOps twiceBroken 1 [.read 30720] (grubOpen twiceBroken 31000 (fun _ => 0)) = some (out, s) ∧
      s.filepos = 30720 ∧ grubRead twiceBroken 3 1000 s = some ((280, List.replicate 280 0x55), s') ∧
      s'.filepos = 31000 := by
  have hlen : (List.replicate 31000 (0x55 : Byte)).length = 31000 := List.length_replicate
  have hpos : (afterReads (List.replicate 31000 0x55) [30720]).pos = 30720 :=
    afterReads_pos (by decide) (by rw [hlen]; decide)
  have hclip : (afterReads (List.replicate 31000 0x55) [30720]).clip 1000 = 280 :=
    (ArrayFile.clip_rest (by rw [hpos, afterReads_bytes, hlen]; decide)).trans
      (by rw [hpos, afterReads_bytes, hlen])
  have hend : ((afterReads (List.replicate 31000 0x55) [30720]).read 1000).2.pos = 31000 := by
    rw [ArrayFile.read_pos, hclip, hpos]
  have hbytes : ((afterReads (List.replicate 31000 0x55) [30720]).read 1000).1 =
      (280, List.replicate 280 0x55) := by
    rw [ArrayFile.read_fst, hclip, hpos, afterReads_bytes, List.drop_replicate, List.take_replicate,
      Nat.min_eq_left (Nat.le_refl 280)]
  obtain ⟨out, s, hrun, hs, hiff⟩ := retransmission_exact
    (show ((List.replicate 31000 (0x55 : Byte)).length + 511) / 512 < 65535 by rw [hlen]; decide)
    twiceBroken_broken (uniformBlocks_inOrder (by decide)) (fun _ => 0) 0 [30720] 1000
    (fun _ => by rw [hpos]; decide)
    (fun j hj => by rw [hend]; split <;> decide)
  rw [hpos] at hs
  obtain ⟨s', hread, hs'⟩ := hiff.mpr (Or.inr ⟨by rw [hs]; decide,
    fun j hj => by rw [hs]; split <;> decide⟩)
  rw [hbytes] at hread
  rw [hend] at hs'
  rw [hlen] at hrun
  exact ⟨out, s, s', hrun, hs, hread, hs'⟩

/-- The first window of a file of 31000 bytes is counted twice when the connection breaks behind it. -/
theorem retransmission_counts_twice :
    Broken (List.replicate 31000 0x55) 60 0 ((List.range' 0 60).map (fun n => some (uniformBlock 31000 n))) ∧
    InOrder (List.replicate 31000 0x55) 0 (uniformBlocks 31000) ∧
    (grubRead (fun _ => uniformBlocks 31000) 1 31000 (grubOpen (fun _ => uniformBlocks 31000) 31000 (fun _ => 0))).map
      (fun r => r.1.1) = some 31000 ∧
    (grubRead (fun j => if j = 0 then (List.range' 0 60).map (fun n => some (uniformBlock 31000 n)) else uniformBlocks 31000) 2
      31000 (grubOpen (fun j => if j = 0 then (List.range' 0 60).map (fun n => some (uniformBlock 31000 n))
        else uniformBlocks 31000) 31000 (fun _ => 0))).map (fun r => r.1.1) = some 61720 := by
  refine ⟨broken_blocks rfl ?_ fun i hi => uniformBlock_eq (by omega),
    uniformBlocks_inOrder (by decide), by decide +kernel, by decide +kernel⟩
  rw [List.length_replicate]
  decide

end

end PulseImaging
