import PulseImaging.Repetition
import PulseImaging.SectorRuns
import PulseImaging.TrackBuffer

/-! The write loop of `new_get` with the requests it makes, where a read of `alloc` beyond its
end is a fault. -/

namespace PulseImaging

/-- `biosdisk(BIOSDISK_WRITE, ...)` with the data that is at the place given. -/
structure WriteRequest where
  sect : Nat
  nb : Nat
  data : List Byte
  deriving DecidableEq

/-- The BIOS refuses a block that is not `q.sect`, which lies far behind every disk; `new_get` reports it and
goes on. -/
def WriteRequest.apply (disk : Content) (q : WriteRequest) : Content :=
  if dapBlock q.sect = q.sect then patch disk (512 * q.sect) q.data else disk

theorem WriteRequest.apply_low (disk : Content) {q : WriteRequest} (h : q.sect < 2 ^ 31) :
    WriteRequest.apply disk q = patch disk (512 * q.sect) q.data := if_pos (dapBlock_eq_iff.mpr h)

theorem WriteRequest.apply_high (disk : Content) {q : WriteRequest} (h : 2 ^ 31 ≤ q.sect) :
    WriteRequest.apply disk q = disk :=
      if_neg (fun he => absurd (dapBlock_eq_iff.mp he) (Nat.not_lt.mpr h))

/-- The variables of the loop over a buffer, and the requests made so far. -/
structure WriteScan where
  i : Nat
  cursor : Cursor
  log : List WriteRequest
  deriving DecidableEq

def WriteScan.disk (disk : Content) (s : WriteScan) : Content := s.log.foldl WriteRequest.apply disk

/-- `alloc[sectptr] & sectmask` -/
def Cursor.read (alloc : List Byte) (c : Cursor) : Fate Bool :=
  Fate.ofAccess (alloc[c.ptr]?.map (fun b => b.toNat &&& c.mask != 0))

/-- A turn of the loop over clear bits. -/
def clearTurn (alloc : List Byte) (c : Cursor) : Fate (Cursor ⊕ Cursor) :=
  (c.read alloc).bind (fun b => .done (if b then .inr c else .inl (c.move 1).inc))

/-- A turn of the loop over set bits, with `nb` and the cursor. The bit is read before `nb` is tested. -/
def countTurn (alloc : List Byte) (n i : Nat) (x : Nat × Cursor) : Fate ((Nat × Cursor) ⊕ (Nat × Cursor)) :=
  (x.2.read alloc).bind (fun b => .done (if b ∧ i + x.1 < n then .inl (x.1 + 1, x.2.inc) else .inr x))

/-- `nb` after the test for the end of the disk; the sum is 32-bit. -/
def cutRun (total sect nb : Nat) : Nat := if sect < total ∧ (sect + nb) % 2 ^ 32 > total then total - sect else nb

/-- What is done with a run of `nb` bits. Behind the end of the disk nothing is written. -/
def WriteScan.after (total : Nat) (buffer : List Byte) (s : WriteScan) (x : Nat × Cursor) : WriteScan :=
  let nb := cutRun total x.2.sect x.1
  { i := s.i + nb
    cursor := x.2.move nb
    log := if x.2.sect < total then s.log ++ [⟨x.2.sect, nb, (buffer.drop (512 * s.i)).take (512 * nb)⟩] else s.log }

/-- A turn of the loop over the sectors of a buffer. -/
def WriteScan.turn (total : Nat) (alloc buffer : List Byte) (fuel : Nat) (s : WriteScan) : Fate (WriteScan ⊕ WriteScan) :=
  if s.i < buffer.length / 512 then
    (Fate.iterate (clearTurn alloc) fuel s.cursor).bind (fun c =>
      (Fate.iterate (countTurn alloc (buffer.length / 512) s.i) fuel (0, c)).bind (fun x =>
        .done (.inl (s.after total buffer x))))
  else .done (.inr s)

def writeBuffer (total : Nat) (alloc : List Byte) (fuel : Nat) (s : WriteScan) (buffer : List Byte) : Fate WriteScan :=
  Fate.iterate (WriteScan.turn total alloc buffer fuel) fuel { s with i := 0 }

/-- `alloc` as it is copied from the first buffer of the decompressed file. -/
def allocOf (out : List Byte) : List Byte := ((out.take OUTBUFF).drop HEADERLG).take ALLOCLG

/-- Buffer `b` of those behind the header. -/
def outputBuffer (out : List Byte) (b : Nat) : List Byte := (out.drop (OUTBUFF * (b + 1))).take OUTBUFF

def outputBuffers (out : List Byte) : List (List Byte) :=
  (List.range ((out.length - 1) / OUTBUFF)).map (outputBuffer out)

/-- The loop for all buffers of a file, from the sector where the partition starts. -/
def writeOutput (out : List Byte) (sect total fuel : Nat) : Fate WriteScan :=
  Fate.loop (writeBuffer total (allocOf out) fuel) (outputBuffers out) ⟨0, ⟨sect, 0, 1⟩, []⟩

/-! ### The bits read -/

theorem cursorOf_read (alloc : List Byte) (sect k : Nat) :
    (cursorOf sect k).read alloc = Fate.ofAccess (bits alloc)[k]? := by
  have hs : k >>> 3 = k / 8 := Nat.shiftRight_eq_div_pow k 3
  have hm : k &&& 7 = k % 8 := Nat.and_two_pow_sub_one_eq_mod k 3
  rw [← testBit_eq, testBit, hs, hm, Cursor.read, cursorOf]
  simp only [mask_bit _ (Nat.mod_lt k (show 0 < 8 by omega))]

theorem cursorAt_of_lt {sect : Nat} (h : sect < 2 ^ 32) (k : Nat) :
    ∃ S, cursorOf sect k = cursorAt S k :=
  ⟨2 ^ 32 * k + sect - k, by rw [cursorAt, show (2 ^ 32 * k + sect - k + k) % 2 ^ 32 = sect by omega]⟩

section Bits

variable {alloc : List Byte} {S sect k n i nb fuel : Nat}

/-- The loop over clear bits ends at the next set bit. -/
theorem clear_eq_done {c : Cursor} :
    Fate.iterate (clearTurn alloc) fuel (cursorAt S k) = .done c ↔
      ∃ g rest, remaining alloc k = g :: rest ∧ g < fuel + k ∧ c = cursorAt S g := by
  induction fuel generalizing k with
  | zero =>
    refine iff_of_false (fun h => by cases h) ?_
    rintro ⟨g, rest, hrem, hg, -⟩
    have := (remaining_tail hrem).1
    omega
  | succ fuel ih =>
    have hread : (cursorAt S k).read alloc = Fate.ofAccess (bits alloc)[k]? := cursorOf_read alloc _ k
    rw [Fate.iterate, clearTurn, hread]
    cases hb : (bits alloc)[k]? with
    | none =>
      rw [remaining_end hb]
      refine iff_of_false (fun h => by cases h) ?_
      rintro ⟨g, rest, h, -⟩
      cases h
    | some b =>
      rw [remaining_step hb, Fate.ofAccess_some, Fate.bind_done, Fate.bind_done]
      cases b with
      | true =>
        simp only [if_true, Sum.elim_inr, Fate.done.injEq]
        constructor
        · rintro rfl
          exact ⟨k, _, rfl, by omega, rfl⟩
        · rintro ⟨g, rest, h, -, rfl⟩
          rw [(List.cons.inj h).1]
      | false =>
        simp only [Bool.false_eq_true, if_false, Sum.elim_inl]
        rw [cursorAt_move_inc, ih]
        simp only [show fuel + (k + 1) = fuel + 1 + k by omega]

/-- The length of the run that starts at bit `k`. -/
def runFrom : Nat → List Nat → Nat
  | _, [] => 0
  | k, g :: gs => if g = k then runFrom (k + 1) gs + 1 else 0

theorem runFrom_le (k : Nat) (gs : List Nat) : runFrom k gs ≤ gs.length := by
  induction gs generalizing k with
  | nil => exact Nat.le_refl _
  | cons g gs ih =>
    rw [runFrom, List.length_cons]
    split
    · exact Nat.succ_le_succ (ih (k + 1))
    · exact Nat.zero_le _

theorem runFrom_getElem {k o : Nat} {gs : List Nat} (ho : o < runFrom k gs) :
    gs[o]? = some (k + o) := by
  induction gs generalizing k o with
  | nil => cases ho
  | cons g gs ih =>
    rw [runFrom] at ho
    split at ho
    · rename_i hg
      cases o with
      | zero => rw [List.getElem?_cons_zero, hg, Nat.add_zero]
      | succ o =>
        rw [List.getElem?_cons_succ, ih (Nat.lt_of_succ_lt_succ ho), Nat.add_assoc, Nat.add_comm 1]
    · cases ho

theorem runFrom_take_le (k m : Nat) (gs : List Nat) : runFrom k (gs.take m) ≤ runFrom k gs := by
  induction gs generalizing k m with
  | nil => rw [List.take_nil]
  | cons g gs ih =>
    cases m with
    | zero => exact Nat.zero_le _
    | succ m =>
      rw [List.take_succ_cons, runFrom, runFrom]
      split
      · exact Nat.succ_le_succ (ih (k + 1) m)
      · exact Nat.le_refl _

/-- Behind the run there is another bit, if there is one. -/
theorem runFrom_end {k : Nat} {gs : List Nat} : gs[runFrom k gs]? ≠ some (k + runFrom k gs) := by
  induction gs generalizing k with
  | nil => simp
  | cons g gs ih =>
    rw [runFrom]
    split
    · rw [List.getElem?_cons_succ, ← Nat.add_assoc, Nat.add_right_comm]
      exact ih
    · rename_i hg
      rw [List.getElem?_cons_zero, Nat.add_zero]
      exact fun h => hg (Option.some.inj h)

theorem remaining_drop {g : Nat} {gs : List Nat} {r : Nat} (h : remaining alloc g = gs)
    (hr : r ≤ runFrom g gs) :
    remaining alloc (g + r) = gs.drop r := by
  induction r generalizing g gs with
  | zero => exact h
  | succ r ih =>
    cases gs with
    | nil => cases hr
    | cons a gs =>
      rw [runFrom] at hr
      split at hr
      · rename_i ha
        have htail := (remaining_tail h).2.2
        rw [ha] at htail
        rw [List.drop_succ_cons, ← ih htail (by omega)]
        congr 1
        omega
      · cases hr

theorem runFrom_remaining (h : (bits alloc)[k]? = some false) (m : Nat) :
    runFrom k ((remaining alloc k).take m) = 0 := by
  rw [remaining_step h, if_neg Bool.false_ne_true]
  cases hrem : (remaining alloc (k + 1)).take m with
  | nil => rfl
  | cons g gs =>
    have hmem : g ∈ remaining alloc (k + 1) := List.mem_of_mem_take (hrem ▸ List.mem_cons_self)
    have := (indexes_bounds hmem).1
    rw [runFrom, if_neg (by omega)]

/-- The loop over set bits counts the run, and reads the bit behind it. -/
theorem count_eq_done {x : Nat × Cursor} :
    Fate.iterate (countTurn alloc n i) fuel (nb, cursorOf sect k) = .done x ↔
      runFrom k ((remaining alloc k).take (n - (i + nb))) < fuel ∧
        k + runFrom k ((remaining alloc k).take (n - (i + nb))) < 8 * alloc.length ∧
        x = (nb + runFrom k ((remaining alloc k).take (n - (i + nb))),
          cursorOf sect (k + runFrom k ((remaining alloc k).take (n - (i + nb))))) := by
  induction fuel generalizing k nb with
  | zero => exact iff_of_false (fun h => by cases h) (fun h => Nat.not_lt_zero _ h.1)
  | succ fuel ih =>
    rw [Fate.iterate, countTurn, cursorOf_read]
    cases hb : (bits alloc)[k]? with
    | none =>
      have hle := List.getElem?_eq_none_iff.mp hb
      rw [bits_length] at hle
      exact iff_of_false (fun h => by cases h) (fun h => by omega)
    | some b =>
      have hlt := (List.getElem?_eq_some_iff.mp hb).1
      rw [bits_length] at hlt
      rw [Fate.ofAccess_some, Fate.bind_done, Fate.bind_done]
      by_cases hin : b = true ∧ i + nb < n
      · obtain ⟨rfl, hnb⟩ := hin
        rw [if_pos ⟨rfl, hnb⟩, Sum.elim_inl, cursorOf_inc, ih, remaining_step hb, if_pos rfl,
          show n - (i + nb) = n - (i + (nb + 1)) + 1 by omega, List.take_succ_cons,
          runFrom, if_pos rfl]
        simp only [Nat.add_assoc, Nat.add_comm 1, Nat.add_lt_add_iff_right]
      · have hzero : runFrom k ((remaining alloc k).take (n - (i + nb))) = 0 := by
          cases b with
          | true =>
            rw [show n - (i + nb) = 0 by
              have : ¬ i + nb < n := fun h => hin ⟨rfl, h⟩
              omega, List.take_zero]
            rfl
          | false => exact runFrom_remaining hb _
        rw [if_neg hin, Sum.elim_inr, hzero, Fate.done.injEq]
        constructor
        · rintro rfl
          exact ⟨Nat.succ_pos _, hlt, rfl⟩
        · rintro ⟨-, -, rfl⟩
          rfl

end Bits

/-! ### A turn -/

section Turn

variable {total fuel k S : Nat} {alloc buffer : List Byte} {s : WriteScan}

/-- The length of the run that a turn takes from bit `g` on. -/
def WriteScan.run (s : WriteScan) (alloc buffer : List Byte) (g : Nat) : Nat :=
  runFrom g ((remaining alloc g).take (buffer.length / 512 - s.i))

theorem turn_eq_done (hi : s.i < buffer.length / 512) (hc : s.cursor = cursorAt S k)
    {y : WriteScan ⊕ WriteScan} :
    s.turn total alloc buffer fuel = .done y ↔
      ∃ g rest, remaining alloc k = g :: rest ∧ g < fuel + k ∧ s.run alloc buffer g < fuel ∧
        g + s.run alloc buffer g < 8 * alloc.length ∧
        y = .inl (s.after total buffer (s.run alloc buffer g,
          cursorOf ((S + g) % 2 ^ 32) (g + s.run alloc buffer g))) := by
  rw [WriteScan.turn, if_pos hi, Fate.bind_eq_done, hc]
  constructor
  · rintro ⟨c, hclear, h⟩
    obtain ⟨g, rest, hrem, hg, rfl⟩ := clear_eq_done.mp hclear
    obtain ⟨x, hcount, h⟩ := Fate.bind_eq_done.mp h
    obtain ⟨hfuel, hlt, rfl⟩ := count_eq_done.mp hcount
    cases h
    rw [Nat.add_zero, Nat.zero_add] at *
    exact ⟨g, rest, hrem, hg, hfuel, hlt, rfl⟩
  · rintro ⟨g, rest, hrem, hg, hfuel, hlt, rfl⟩
    refine ⟨_, clear_eq_done.mpr ⟨g, rest, hrem, hg, rfl⟩,
      Fate.bind_eq_done.mpr ⟨_, count_eq_done.mpr ⟨?_, ?_, rfl⟩, ?_⟩⟩
    · exact hfuel
    · exact hlt
    · rw [Nat.zero_add]
      rfl

theorem run_le (s : WriteScan) (alloc buffer : List Byte) (g : Nat) :
    s.run alloc buffer g ≤ buffer.length / 512 - s.i ∧
      s.run alloc buffer g ≤ runFrom g (remaining alloc g) ∧
      s.run alloc buffer g ≤ (remaining alloc g).length := by
  have htake := runFrom_le g ((remaining alloc g).take (buffer.length / 512 - s.i))
  rw [List.length_take] at htake
  have hrun := runFrom_take_le g (buffer.length / 512 - s.i) (remaining alloc g)
  exact ⟨htake.trans (Nat.min_le_left _ _), hrun, htake.trans (Nat.min_le_right _ _)⟩

theorem run_pos {g : Nat} {rest : List Nat} (hi : s.i < buffer.length / 512)
    (h : remaining alloc k = g :: rest) :
    0 < s.run alloc buffer g := by
  rw [WriteScan.run, remaining_self h, show buffer.length / 512 - s.i =
    buffer.length / 512 - s.i - 1 + 1 by omega, List.take_succ_cons, runFrom, if_pos rfl]
  exact Nat.succ_pos _

theorem cutRun_le (total sect nb : Nat) : cutRun total sect nb ≤ nb := by
  have hmod := Nat.mod_le (sect + nb) (2 ^ 32)
  rw [cutRun]
  split <;> omega

theorem after_cursorOf (s : WriteScan) (buffer : List Byte) (sect r k : Nat) :
    s.after total buffer (r, cursorOf sect k) = ⟨s.i + cutRun total sect r,
      (cursorOf sect k).move (cutRun total sect r),
      if sect < total then
        s.log ++ [⟨sect, cutRun total sect r, (buffer.drop (512 * s.i)).take
          (512 * cutRun total sect r)⟩]
      else s.log⟩ :=
  rfl

theorem after_cursor (total : Nat) (s : WriteScan) (buffer : List Byte) (sect r k : Nat) :
    ∃ S', (s.after total buffer (r, cursorOf sect k)).cursor = cursorAt S' k :=
  cursorAt_of_lt (Nat.mod_lt _ (Nat.two_pow_pos 32)) k

theorem cutRun_pos (total sect : Nat) {nb : Nat} (h : 0 < nb) : 0 < cutRun total sect nb := by
  rw [cutRun]
  split <;> omega

/-- A loop that comes to its end has used at least as many bits as it has dealt with sectors. -/
theorem buffer_count {turns : Nat} {t : WriteScan} (hc : s.cursor = cursorAt S k)
    (h : Fate.iterate (WriteScan.turn total alloc buffer fuel) turns s = .done t) :
    s.log <+: t.log ∧ ∃ S' k', t.cursor = cursorAt S' k' ∧
      buffer.length / 512 - s.i + (remaining alloc k').length ≤ (remaining alloc k).length := by
  induction turns generalizing s S k with
  | zero => cases h
  | succ turns ih =>
    obtain ⟨y, hturn, h⟩ := Fate.bind_eq_done.mp h
    by_cases hi : s.i < buffer.length / 512
    · obtain ⟨g, rest, hrem, -, -, -, rfl⟩ := (turn_eq_done hi hc).mp hturn
      obtain ⟨-, hrun, hlen⟩ := run_le s alloc buffer g
      have hdrop := remaining_drop rfl hrun
      obtain ⟨S₁, hc₁⟩ := after_cursor total s buffer ((S + g) % 2 ^ 32) (s.run alloc buffer g)
        (g + s.run alloc buffer g)
      obtain ⟨hlog, S', k', hcur, hle⟩ := ih hc₁ h
      have hcut := cutRun_le total ((S + g) % 2 ^ 32) (s.run alloc buffer g)
      refine ⟨List.IsPrefix.trans ?_ hlog, S', k', hcur, ?_⟩
      · rw [WriteScan.after]
        dsimp only
        split
        · exact List.prefix_append _ _
        · exact List.prefix_rfl
      · have hi' : (s.after total buffer (s.run alloc buffer g, cursorOf ((S + g) % 2 ^ 32)
            (g + s.run alloc buffer g))).i = s.i + cutRun total ((S + g) % 2 ^ 32)
            (s.run alloc buffer g) := rfl
        rw [hi', hdrop, List.length_drop] at hle
        rw [(remaining_self hrem).trans hrem.symm] at hle hlen
        omega
    · rw [WriteScan.turn, if_neg hi] at hturn
      cases hturn
      cases h
      exact ⟨List.prefix_rfl, S, k, hc, by omega⟩

/-! ### The loop that reads a byte further -/

theorem read_bit {c : Cursor} {b : Bool} (h : c.read alloc = .done b) (past : Byte) :
    c.bit alloc past = some b := by
  rw [Cursor.read, Fate.ofAccess_eq_done, Option.map_eq_some_iff] at h
  obtain ⟨v, hv, rfl⟩ := h
  obtain ⟨hlt, -⟩ := List.getElem?_eq_some_iff.mp hv
  rw [Cursor.bit, List.getElem?_append_left hlt, hv]
  rfl

theorem count_takeRun {n i fuel : Nat} {x y : Nat × Cursor} (past : Byte)
    (h : Fate.iterate (countTurn alloc n i) fuel x = .done y) :
    takeRun alloc past n i fuel x.1 x.2 = some y := by
  induction fuel generalizing x with
  | zero => cases h
  | succ fuel ih =>
    obtain ⟨z, hturn, h⟩ := Fate.bind_eq_done.mp h
    obtain ⟨b, hread, hz⟩ := Fate.bind_eq_done.mp hturn
    rw [takeRun, read_bit hread past, Option.bind_some]
    cases hz
    split at h
    · rename_i hin
      rw [if_pos hin]
      exact ih h
    · rename_i hin
      rw [if_neg hin]
      cases h
      rfl

theorem disk_append (disk : Content) (s : WriteScan) (x : Nat × Cursor)
    (hlow : x.2.sect < total → x.2.sect < 2 ^ 31) :
    (s.after total buffer x).disk disk =
      if x.2.sect < total then writeSectors (s.disk disk) buffer x.2.sect s.i
        (cutRun total x.2.sect x.1) else s.disk disk := by
  rw [WriteScan.disk, WriteScan.after]
  dsimp only
  split
  · rename_i hlt
    rw [List.foldl_append]
    exact WriteRequest.apply_low _ (hlow hlt)
  · rfl

/-- Where no byte outside is read and the BIOS serves every request, `writeLoop` does the same whatever is there. -/
theorem writeLoop_of_done {turns : Nat} {t : WriteScan} (hc : s.cursor = cursorAt S k)
    (h : Fate.iterate (WriteScan.turn total alloc buffer fuel) turns s = .done t) (past : Byte)
    (disk : Content) (hlow : ∀ q ∈ t.log, q.sect < 2 ^ 31) {m : Nat}
    (hm : buffer.length / 512 ≤ s.i + m) :
    writeLoop total alloc past buffer (buffer.length / 512) m s.i s.cursor (s.disk disk) =
      some (t.cursor, t.disk disk) := by
  induction turns generalizing s S k m with
  | zero => cases h
  | succ turns ih =>
    obtain ⟨y, hturn, h⟩ := Fate.bind_eq_done.mp h
    by_cases hi : s.i < buffer.length / 512
    · obtain ⟨g, rest, hrem, -, -, hlt, rfl⟩ := (turn_eq_done hi hc).mp hturn
      obtain ⟨m, rfl⟩ : ∃ m', m = m' + 1 := ⟨m - 1, by omega⟩
      have hcut := cutRun_pos total ((S + g) % 2 ^ 32) (run_pos hi hrem)
      obtain ⟨S₁, hc₁⟩ := after_cursor total s buffer ((S + g) % 2 ^ 32) (s.run alloc buffer g)
        (g + s.run alloc buffer g)
      have hrest := ih hc₁ h (m := m) (by
        change _ ≤ s.i + cutRun total ((S + g) % 2 ^ 32) (s.run alloc buffer g) + m
        omega)
      have hskip : skipClear alloc past (8 * alloc.length + 9) s.cursor = some (cursorAt S g) := by
        rw [hc]
        exact skipClear_eq past hrem (by omega)
      have hcount : takeRun alloc past (buffer.length / 512) s.i (buffer.length / 512 + 1) 0
          (cursorAt S g) =
          some (s.run alloc buffer g, cursorOf ((S + g) % 2 ^ 32) (g + s.run alloc buffer g)) := by
        obtain ⟨hle, -⟩ := run_le s alloc buffer g
        refine count_takeRun (x := (0, cursorAt S g)) past (count_eq_done.mpr ⟨?_, hlt, ?_⟩)
        · exact Nat.lt_succ_of_le (hle.trans (Nat.sub_le _ _))
        · rw [Nat.zero_add]
          rfl
      rw [disk_append _ _ _ fun hlt => hlow _ ((buffer_count hc₁ h).1.subset (by
        rw [WriteScan.after, if_pos hlt]
        exact List.mem_append_right _ (List.mem_singleton.mpr rfl)))] at hrest
      rw [writeLoop, if_pos hi, hskip, Option.bind_some, hcount, Option.bind_some]
      exact hrest
    · rw [WriteScan.turn, if_neg hi] at hturn
      cases hturn
      cases h
      cases m with
      | zero => rw [writeLoop, if_neg hi]
      | succ m => rw [writeLoop, if_neg hi]

end Turn

end PulseImaging
