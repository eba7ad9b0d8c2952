import PulseImaging.TftpRead

/-! Reading a file in windows when the blocks of each connection arrive in order: the
window is a part of the file, and a read inside or just behind it is exact. -/

namespace PulseImaging

/-- Data of the block that follows the first `n`. -/
def blockData (file : List Byte) (n : Nat) : List Byte := (file.drop (512 * n)).take 512

/-- After `n` blocks the others arrive in order, with any number of repeats of the block
just accepted. -/
inductive InOrder (file : List Byte) : Nat → List (Option Datagram) → Prop where
  | done {n : Nat} {inbox : List (Option Datagram)} (hn : file.length / 512 < n) : InOrder file n inbox
  | next {n : Nat} {d : Datagram} {inbox : List (Option Datagram)} (hop : d.op = 3) (hblock : d.block = n + 1)
      (hdata : d.payload = blockData file n) (h : InOrder file (n + 1) inbox) : InOrder file n (some d :: inbox)
  | again {n : Nat} {d : Datagram} {inbox : List (Option Datagram)} (hn : 0 < n) (hop : d.op = 3)
      (hblock : d.block = n) (h : InOrder file n inbox) : InOrder file n (some d :: inbox)

theorem blockData_length (file : List Byte) (n : Nat) :
    (blockData file n).length = min 512 (file.length - 512 * n) := by
  rw [blockData, List.length_take, List.length_drop]

theorem blockData_getD {file : List Byte} {n i : Nat} (hi : i < 512) :
    (blockData file n).getD i 0 = file.getD (512 * n + i) 0 := by
  simp only [blockData, List.getD_eq_getElem?_getD, List.getElem?_take, if_pos hi, List.getElem?_drop]

theorem store_natCast (m : Int → Byte) (pos k : Nat) (data : List Byte) :
    store m pos data k = if pos ≤ k ∧ k < pos + data.length then data.getD (k - pos) 0 else m k := by
  have hk : ((k : Int) - (pos : Int)).toNat = k - pos := by omega
  rw [store, hk]
  by_cases h : pos ≤ k ∧ k < pos + data.length
  · rw [if_pos h, if_pos (by omega)]
  · rw [if_neg h, if_neg (by omega)]

/-! ### Receiving a window -/

/-- What a window received from block `b + 1` on leaves in the variables. -/
structure Received (file : List Byte) (b : Nat) (s s' : TftpFile) : Prop where
  basepos_eq : s'.basepos = 512 * b
  buffer_eq : ∀ k < BUFFERSIZE, 512 * b + k < file.length → s'.buffer k = file.getD (512 * b + k) 0
  endoffile_eq : s'.endoffile = decide (file.length < 512 * b + BUFFERSIZE)
  rest : 512 * b + BUFFERSIZE ≤ file.length → s'.nextpacket = b + 60 ∧ InOrder file (b + 60) s'.inbox
  kept : s'.filepos = s.filepos ∧ s'.filemax = s.filemax ∧ s'.savedpos = s.savedpos ∧ s'.opens = s.opens

theorem BUFFERSIZE_blocks : BUFFERSIZE = 512 * 60 := rfl

theorem received_full {file : List Byte} {n b : Nat} (hn : n = b + 60)
    (hle : 512 * n ≤ file.length) {s : TftpFile} {inbox : List (Option Datagram)}
    (h : InOrder file n inbox) (hnext : s.nextpacket = n) (hend : s.endoffile = false)
    (hbase : s.basepos = 512 * b)
    (hbuf : ∀ k < BUFFERSIZE, s.buffer k = file.getD (512 * b + k) 0) :
    Received file b s { s with inbox := inbox } := by
  have hB := BUFFERSIZE_blocks
  subst hn
  refine ⟨hbase, fun k hk _ => hbuf k hk, ?_, fun _ => ⟨hnext, h⟩, rfl, rfl, rfl, rfl⟩
  rw [show s.endoffile = false from hend]
  exact (decide_eq_false (by omega)).symm

theorem tftpgetLoop_received {file : List Byte} {n : Nat} {inbox : List (Option Datagram)}
    (h : InOrder file n inbox) {b j : Nat} (hn : n = b + j) (hj : j ≤ 60)
    (hle : 512 * n ≤ file.length) {s : TftpFile} {first : Bool} (hnext : s.nextpacket = n)
    (hend : s.endoffile = false)
    (hfirst : first = true ∧ j = 0 ∨ first = false ∧ s.basepos = 512 * b)
    (hbuf : ∀ k < 512 * j, s.buffer k = file.getD (512 * b + k) 0) :
    (tftpgetLoop (BUFFERSIZE - 512 * j) (512 * j) first s inbox).1 =
        ((min BUFFERSIZE (file.length - 512 * b) : Nat) : Int) ∧
      Received file b s (tftpgetLoop (BUFFERSIZE - 512 * j) (512 * j) first s inbox).2 := by
  have hB := BUFFERSIZE_blocks
  induction h generalizing j s first with
  | done hn' => omega
  | @next n d inbox hop hblock hdata hrest ih =>
    by_cases h60 : j = 60
    · subst h60
      have hbase : s.basepos = 512 * b := hfirst.elim (fun h => absurd h.2 (by decide)) And.right
      rw [tftpgetLoop, if_pos (by omega)]
      exact ⟨by dsimp only; omega,
        received_full hn hle (InOrder.next hop hblock hdata hrest) hnext hend hbase hbuf⟩
    · have htake : d.payload.take 512 = blockData file n := by
        rw [hdata, blockData, List.take_take, Nat.min_self]
      have hlen := blockData_length file n
      rw [tftpgetLoop, if_neg (by omega), if_neg (by simp [hop]), if_neg (by omega),
        if_neg (by simp [hblock, hnext])]
      dsimp only
      rw [htake]
      have hstore : ∀ k < 512 * j + (blockData file n).length,
          store s.buffer (512 * j) (blockData file n) (k : Nat) = file.getD (512 * b + k) 0 := by
        intro k hk
        rw [store_natCast]
        by_cases hj' : 512 * j ≤ k
        · rw [if_pos ⟨hj', hk⟩, blockData_getD (by omega)]
          congr 1
          omega
        · rw [if_neg (by omega)]
          exact hbuf k (by omega)
      have hbase : (if first then 512 * (d.block - 1) else s.basepos) = 512 * b := by
        rcases hfirst with ⟨rfl, hz⟩ | ⟨rfl, hb⟩
        · rw [if_pos rfl, hblock]
          omega
        · rw [if_neg (by simp), hb]
      by_cases hshort : (blockData file n).length ≠ 512
      · rw [if_pos hshort]
        refine ⟨by dsimp only; omega, ⟨hbase, fun k hk hlt => hstore k (by omega), ?_,
          fun hge => ?_, rfl, rfl, rfl, rfl⟩⟩
        · exact (decide_eq_true (by omega)).symm
        · omega
      · rw [if_neg hshort, show BUFFERSIZE - 512 * j - 512 = BUFFERSIZE - 512 * (j + 1) by omega,
          show 512 * j + 512 = 512 * (j + 1) by omega]
        obtain ⟨hr, hgot⟩ := ih (j := j + 1) (s := { s with
            nextpacket := d.block
            buffer := store s.buffer (512 * j) (blockData file n)
            basepos := if first then 512 * (d.block - 1) else s.basepos })
          (by omega) (by omega) (by omega) hblock hend (Or.inr ⟨rfl, hbase⟩)
            (fun k hk => hstore k (by omega))
        exact ⟨hr, hgot.basepos_eq, hgot.buffer_eq, hgot.endoffile_eq, hgot.rest, hgot.kept⟩
  | @again n d inbox hpos hop hblock hrest ih =>
    by_cases h60 : j = 60
    · subst h60
      have hbase : s.basepos = 512 * b := hfirst.elim (fun h => absurd h.2 (by decide)) And.right
      rw [tftpgetLoop, if_pos (by omega)]
      exact ⟨by dsimp only; omega,
        received_full hn hle (InOrder.again hpos hop hblock hrest) hnext hend hbase hbuf⟩
    · rw [tftpgetLoop, if_neg (by omega), if_neg (by simp [hop]), if_pos (by rw [hblock, hnext])]
      exact ih hn hj hle hnext hend hfirst hbuf

theorem tftpget_received {file : List Byte} {b : Nat} {s : TftpFile} (h : InOrder file b s.inbox)
    (hle : 512 * b ≤ file.length) (hnext : s.nextpacket = b) (hend : s.endoffile = false) :
    (tftpget s).1 = ((min BUFFERSIZE (file.length - 512 * b) : Nat) : Int) ∧
      Received file b s (tftpget s).2 :=
  tftpgetLoop_received h (j := 0) rfl (Nat.zero_le _) hle hnext hend (Or.inl ⟨rfl, rfl⟩)
    (fun k hk => by omega)

/-- Whatever arrives, `tftpget` takes something from the queue or fails. -/
theorem tftpgetLoop_inbox {len siz : Nat} {first : Bool} {s : TftpFile}
    (inbox : List (Option Datagram)) :
    (tftpgetLoop len siz first s inbox).2.inbox.length ≤ inbox.length ∧
      (0 < len → (tftpgetLoop len siz first s inbox).1 ≠ -1 →
        (tftpgetLoop len siz first s inbox).2.inbox.length < inbox.length) := by
  induction inbox generalizing len siz first s with
  | nil =>
    rw [tftpgetLoop]
    split
    · exact ⟨Nat.le_refl _, fun h => by omega⟩
    · exact ⟨Nat.le_refl _, fun _ h => absurd rfl h⟩
  | cons x rest ih =>
    cases x with
    | none =>
      rw [tftpgetLoop]
      split
      · exact ⟨Nat.le_refl _, fun h => by omega⟩
      · exact ⟨Nat.le_succ _, fun _ h => absurd rfl h⟩
    | some d =>
      rw [tftpgetLoop]
      split
      · exact ⟨Nat.le_refl _, fun h => by omega⟩
      · split
        · exact ⟨Nat.le_succ _, fun _ h => absurd rfl h⟩
        · split
          · obtain ⟨hle, -⟩ := @ih len siz first s
            exact ⟨by simp only [List.length_cons]; omega,
              fun _ _ => by simp only [List.length_cons]; omega⟩
          · split
            · exact ⟨Nat.le_succ _, fun _ h => absurd rfl h⟩
            · dsimp only
              split
              · exact ⟨Nat.le_succ _, fun _ _ => Nat.lt_succ_self _⟩
              · obtain ⟨hle, -⟩ := @ih (len - 512) (siz + 512) false { s with
                  nextpacket := d.block
                  buffer := store s.buffer siz (d.payload.take 512)
                  basepos := if first then 512 * (d.block - 1) else s.basepos }
                exact ⟨by simp only [List.length_cons]; omega,
                  fun _ _ => by simp only [List.length_cons]; omega⟩

/-! ### The window as a part of the file -/

/-- `e` bytes of the file from `basepos` on are in the buffer; unless the end has been
received, the next block is the one that follows. -/
structure Holds (file : List Byte) (s : TftpFile) (e : Nat) : Prop where
  bufferend_eq : s.bufferend = e
  e_le : e ≤ BUFFERSIZE
  buffer_eq : ∀ k < e, s.buffer k = file.getD (s.basepos + k) 0
  ended : s.endoffile = true → s.basepos + e = file.length
  going : s.endoffile = false → (e = BUFFERSIZE ∨ e = 0 ∧ s.basepos = 0) ∧ s.basepos + e ≤ file.length ∧
    s.basepos + e = 512 * s.nextpacket ∧ InOrder file s.nextpacket s.inbox

theorem Holds.end_le {file : List Byte} {s : TftpFile} {e : Nat} (h : Holds file s e) :
    s.basepos + e ≤ file.length := by
  cases hend : s.endoffile with
  | true => exact (h.ended hend).le
  | false => exact (h.going hend).2.1

theorem Received.holds {file : List Byte} {b : Nat} {s s' : TftpFile} (h : Received file b s s')
    (hle : 512 * b ≤ file.length) :
    Holds file { s' with bufferend := ((min BUFFERSIZE (file.length - 512 * b) : Nat) : Int) }
      (min BUFFERSIZE (file.length - 512 * b)) := by
  have hB := BUFFERSIZE_blocks
  have hend := h.endoffile_eq
  refine ⟨rfl, by omega, fun k hk => ?_, fun he => ?_, fun he => ?_⟩
  · dsimp only
    rw [h.basepos_eq]
    exact h.buffer_eq k (by omega) (by omega)
  · dsimp only at he ⊢
    rw [he, eq_comm, decide_eq_true_iff] at hend
    rw [h.basepos_eq]
    omega
  · dsimp only at he ⊢
    rw [he, eq_comm, decide_eq_false_iff_not] at hend
    obtain ⟨hnext, hin⟩ := h.rest (by omega)
    rw [h.basepos_eq, hnext]
    exact ⟨Or.inl (by omega), by omega, by omega, hin⟩

theorem load_holds {file : List Byte} {s : TftpFile} {e n : Nat} (h : Holds file s e)
    (hbase : s.basepos ≤ s.filepos) (hn : s.filepos + n ≤ s.basepos + e) :
    load s.buffer ((s.filepos : Int) - s.basepos) n = (file.drop s.filepos).take n := by
  have hend := h.end_le
  apply List.ext_getElem?
  intro k
  by_cases hk : k < n
  · have haddr : (s.filepos : Int) - s.basepos + (k : Nat) =
      ((s.filepos - s.basepos + k : Nat) : Int) := by omega
    have hfile : file[s.filepos + k]? = some (file.getD (s.filepos + k) 0) := by
      rw [List.getD_eq_getElem?_getD, List.getElem?_eq_getElem (by omega), Option.getD_some]
    rw [List.getElem?_take, if_pos hk, List.getElem?_drop, hfile, load, List.getElem?_map,
      List.getElem?_range hk,
      Option.map_some, haddr, h.buffer_eq _ (by omega),
      show s.basepos + (s.filepos - s.basepos + k) = s.filepos + k by omega]
  · rw [List.getElem?_eq_none_iff.mpr (by simp [load]; omega),
      List.getElem?_eq_none_iff.mpr (by simp; omega)]

theorem toInt_eq {z : Int} (hlo : -2 ^ 31 ≤ z) (hhi : z < 2 ^ 31) : toInt z = z := by
  rw [toInt]
  exact Int.bmod_eq_of_le (by omega) (by omega)

/-! ### Copying -/

/-- A read of `total` bytes at `p`: what has been copied so far is the file up to `filepos`. -/
structure Copying (file : List Byte) (p total : Nat) (t : Transfer) (e : Nat) : Prop where
  holds : Holds file t.file e
  filemax_eq : t.file.filemax = file.length
  savedpos_eq : t.file.savedpos = p + total
  total_le : p + total ≤ file.length
  start_le : p ≤ t.file.filepos
  size_eq : t.file.filepos + t.size = p + total
  base_le : t.file.basepos ≤ t.file.filepos
  off_eq : t.off = t.file.filepos - p
  len_eq : t.len = t.file.filepos - p
  out_eq : t.out = (file.drop p).take (t.file.filepos - p)

section Copying

variable {file : List Byte} {p total e : Nat} {t : Transfer}

theorem Copying.pos_eq (h : Copying file p total t e) (hfile : file.length < 2 ^ 31) :
    t.pos = (t.file.filepos : Int) - t.file.basepos := by
  have := h.size_eq
  have := h.total_le
  have := h.base_le
  exact toInt_eq (by omega) (by omega)

theorem Copying.remain_eq (h : Copying file p total t e) (hfile : file.length < 2 ^ 31) :
    t.remain = (e : Int) - ((t.file.filepos : Int) - t.file.basepos) := by
  have := h.size_eq
  have := h.total_le
  have := h.base_le
  have hend := h.holds.end_le
  rw [Transfer.remain, h.holds.bufferend_eq]
  exact toInt_eq (by omega) (by omega)

theorem Copying.copy (h : Copying file p total t e) (hfile : file.length < 2 ^ 31) {n : Nat}
    (hn : n ≤ t.size) (he : t.file.filepos + n ≤ t.file.basepos + e) :
    Copying file p total (t.copy n) e := by
  have hsize := h.size_eq
  have hstart := h.start_le
  have htotal := h.total_le
  have hbase := h.base_le
  have hload := load_holds h.holds hbase he
  have hout : t.out.length = t.off := by
    rw [h.out_eq, h.off_eq, List.length_take, List.length_drop]
    omega
  refine ⟨⟨h.holds.bufferend_eq, h.holds.e_le, h.holds.buffer_eq, h.holds.ended, h.holds.going⟩,
    h.filemax_eq, h.savedpos_eq, htotal, ?_, ?_, ?_, ?_, ?_, ?_⟩
  · simp only [Transfer.copy]
    omega
  · simp only [Transfer.copy]
    omega
  · simp only [Transfer.copy]
    omega
  · simp only [Transfer.copy, h.off_eq]
    omega
  · simp only [Transfer.copy, h.len_eq]
    omega
  · simp only [Transfer.copy]
    have hend : ∀ data : List Byte, overlay t.out t.off data = t.out ++ data := by
      intro data
      rw [overlay, List.take_of_length_le hout.le, List.drop_of_length_le
        (hout.le.trans (Nat.le_add_right _ _)), List.append_nil]
    rw [h.pos_eq hfile, hload, hend, h.out_eq, show t.file.filepos + n - p =
      (t.file.filepos - p) + n by omega,
      List.take_add, List.drop_drop, show p + (t.file.filepos - p) = t.file.filepos by omega]

theorem Copying.drain (h : Copying file p total t e) (hfile : file.length < 2 ^ 31)
    (hnear : t.file.filepos ≤ t.file.basepos + BUFFERSIZE) (hsize : t.size = 0 → total = 0)
    (hr : ¬ t.remain ≥ t.size) :
    Copying file p total t.drain e ∧ t.drain.file.basepos + e ≤ t.drain.file.filepos ∧
      t.drain.file.filepos ≤ t.drain.file.basepos + BUFFERSIZE ∧ (t.drain.size = 0 → total = 0) ∧
      t.drain.file.endoffile = t.file.endoffile ∧ t.drain.file.inbox = t.file.inbox := by
  have hremain := h.remain_eq hfile
  have hbase := h.base_le
  have he := h.holds.e_le
  by_cases hr' : t.remain > 0
  · rw [show t.drain = t.copy t.remain.toNat from if_pos hr']
    refine ⟨h.copy hfile (by omega) (by omega), ?_, ?_, fun hz => ?_, rfl, rfl⟩
    · simp only [Transfer.copy]
      omega
    · simp only [Transfer.copy]
      omega
    · simp only [Transfer.copy] at hz
      omega
  · rw [show t.drain = t from if_neg hr']
    exact ⟨h, by omega, hnear, hsize, rfl, rfl⟩

/-- The next window takes the place of one that has been copied. -/
theorem Copying.receive (h : Copying file p total t e) (hend : t.file.endoffile = false)
    (hdone : t.file.basepos + e ≤ t.file.filepos)
    (hnear : t.file.filepos ≤ t.file.basepos + BUFFERSIZE) :
    ∃ e', Copying file p total t.receive.2 e' ∧ t.receive.2.size = t.size ∧
      (t.receive.1 = .next ∧ t.receive.2.file.endoffile = false ∧
          t.receive.2.file.filepos ≤ t.receive.2.file.basepos + BUFFERSIZE ∧
          t.receive.2.file.inbox.length < t.file.inbox.length ∨
        t.receive.1 = .reachedEof ∧ t.receive.2.file.endoffile = true) := by
  obtain ⟨-, hle, hnext, hin⟩ := h.holds.going hend
  have hb : 512 * t.file.nextpacket ≤ file.length := by omega
  obtain ⟨hr, hgot⟩ := tftpget_received hin hb rfl hend
  obtain ⟨hpos, hmax, hsaved, -⟩ := hgot.kept
  have hbase := hgot.basepos_eq
  have hholds := hgot.holds hb
  have hB := BUFFERSIZE_blocks
  have hendoffile := hgot.endoffile_eq
  have hinbox := (tftpgetLoop_inbox (s := t.file) t.file.inbox).2
    (by decide) (show (tftpget t.file).1 ≠ -1 by omega)
  rw [← hr] at hholds
  refine ⟨_, ⟨hholds, hmax.trans h.filemax_eq, hsaved.trans h.savedpos_eq, h.total_le, ?_, ?_, ?_,
    ?_, ?_, ?_⟩, rfl, ?_⟩
  · exact h.start_le.trans_eq hpos.symm
  · simp only [Transfer.receive, hpos, h.size_eq]
  · simp only [Transfer.receive, hpos, hbase]
    omega
  · simp only [Transfer.receive, hpos, h.off_eq]
  · simp only [Transfer.receive, hpos, h.len_eq]
  · simp only [Transfer.receive, hpos, h.out_eq]
  · simp only [Transfer.receive, hendoffile, hpos, hbase]
    rw [if_neg (show (tftpget t.file).1 ≠ -1 by omega)]
    by_cases hfull : 512 * t.file.nextpacket + BUFFERSIZE ≤ file.length
    · left
      rw [if_pos (by omega)]
      exact ⟨rfl, decide_eq_false (by omega), by omega, hinbox⟩
    · right
      rw [if_neg (by omega)]
      exact ⟨rfl, decide_eq_true (by omega)⟩

/-- A turn copies the rest, or what the window has before it is filled again. -/
theorem Copying.turn (h : Copying file p total t e) (hfile : file.length < 2 ^ 31)
    (hend : t.file.endoffile = false) (hnear : t.file.filepos ≤ t.file.basepos + BUFFERSIZE)
    (hsize : t.size = 0 → total = 0) :
    t.turn.1 = .returned ∧ (∃ e', Copying file p total t.turn.2 e' ∧ t.turn.2.size = 0 ∧
        t.turn.2.file.filepos ≤ t.turn.2.file.basepos + BUFFERSIZE) ∨
      ∃ e', Copying file p total t.turn.2 e' ∧ (t.turn.2.size = 0 → total = 0) ∧
        (t.turn.1 = .next ∧ t.turn.2.file.endoffile = false ∧
            t.turn.2.file.filepos ≤ t.turn.2.file.basepos + BUFFERSIZE ∧
            t.turn.2.file.inbox.length < t.file.inbox.length ∨
          t.turn.1 = .reachedEof ∧ t.turn.2.file.endoffile = true) := by
  have hpos := h.pos_eq hfile
  have hremain := h.remain_eq hfile
  rw [Transfer.turn, if_neg (by omega)]
  by_cases hr : t.remain ≥ t.size
  · rw [if_pos hr]
    have he := h.holds.e_le
    have hbase := h.base_le
    refine Or.inl ⟨rfl, e, h.copy hfile (Nat.le_refl _) (by omega), Nat.sub_self _, ?_⟩
    simp only [Transfer.copy]
    omega
  · rw [if_neg hr]
    obtain ⟨hc, hdone, hnear', hsize', hend', hinbox⟩ := h.drain hfile hnear hsize hr
    obtain ⟨e', hc', hsz, hcase⟩ := hc.receive (hend'.trans hend) hdone hnear'
    rw [hinbox] at hcase
    exact Or.inr ⟨e', hc', fun hz => hsize' (hsz.symm.trans hz), hcase⟩

theorem Copying.loop {fuel : Nat} (h : Copying file p total t e) (hfile : file.length < 2 ^ 31)
    (hend : t.file.endoffile = false) (hnear : t.file.filepos ≤ t.file.basepos + BUFFERSIZE)
    (hsize : t.size = 0 → total = 0) (hfuel : t.file.inbox.length < fuel) :
    ∃ k t' e', t.loop fuel = some (k, t') ∧ Copying file p total t' e' ∧
      (k = .returned ∧ t'.size = 0 ∧ t'.file.filepos ≤ t'.file.basepos + BUFFERSIZE ∨
        k = .reachedEof ∧ t'.file.endoffile = true ∧ (t'.size = 0 → total = 0)) := by
  induction fuel generalizing t e with
  | zero => omega
  | succ fuel ih =>
    rw [Transfer.loop]
    rcases h.turn hfile hend hnear hsize with ⟨hk, e', hc, hz, hn⟩ |
      ⟨e', hc, hz, ⟨hk, hend', hnear', hlt⟩ | ⟨hk, hend'⟩⟩
    · rw [if_neg (by rw [hk]; simp)]
      exact ⟨_, _, e', rfl, hc, Or.inl ⟨hk, hz, hn⟩⟩
    · rw [if_pos hk]
      exact ih hc hend' hnear' hz (by omega)
    · rw [if_neg (by rw [hk]; simp)]
      exact ⟨_, _, e', rfl, hc, Or.inr ⟨hk, hend', hz⟩⟩

theorem Copying.finish (h : Copying file p total t e) (hfile : file.length < 2 ^ 31)
    (hend : t.file.endoffile = true) (hsize : t.size = 0 → total = 0) :
    t.finish.1 = total ∧ (∃ e', Copying file p total t.finish.2 e') ∧ t.finish.2.size = 0 ∧
      t.finish.2.file.endoffile = true := by
  have hremain := h.remain_eq hfile
  have hlast := h.holds.ended hend
  have hbase := h.base_le
  have hsz := h.size_eq
  have htotal := h.total_le
  rw [Transfer.finish]
  by_cases hr : t.remain > 0
  · rw [if_pos hr, if_neg (by omega)]
    have hc := h.copy hfile (Nat.le_refl _) (by omega)
    have hlen := hc.len_eq
    have hsz' := hc.size_eq
    have hz : (t.copy t.size).size = 0 := Nat.sub_self _
    exact ⟨by dsimp only; omega, ⟨e, hc⟩, hz, hend⟩
  · rw [if_neg hr]
    have hz : t.size = 0 := by omega
    exact ⟨(hsize hz).symm, ⟨e, h⟩, hz, hend⟩

end Copying

end PulseImaging
