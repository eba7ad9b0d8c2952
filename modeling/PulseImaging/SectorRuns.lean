import PulseImaging.NewGet
import PulseImaging.Restore

/-! The write loop of `new_get` writes runs of sectors with one call. The cursor keeps a
sector number and a bit of the bitmap in step; a run of calls amounts to one write for
each set bit. -/

namespace PulseImaging

/-- The cursor at sector `sect` and bit `k`. -/
def cursorOf (sect k : Nat) : Cursor := ⟨sect, k / 8, 2 ^ (k % 8)⟩

/-- The cursor at bit `k` of a partition that starts at sector `S`. -/
def cursorAt (S k : Nat) : Cursor := cursorOf ((S + k) % 2 ^ 32) k

theorem cursorOf_inc (sect k : Nat) : (cursorOf sect k).inc = cursorOf sect (k + 1) := by
  have hlt : k % 8 < 8 := Nat.mod_lt _ (by omega)
  by_cases h7 : k % 8 = 7
  · have hdiv : (k + 1) / 8 = k / 8 + 1 := by omega
    have hmod : (k + 1) % 8 = 0 := by omega
    simp [Cursor.inc, cursorOf, h7, hdiv, hmod]
  · have hdiv : (k + 1) / 8 = k / 8 := by omega
    have hmod : (k + 1) % 8 = k % 8 + 1 := by omega
    have hne : 2 ^ (k % 8) * 2 ≠ 256 := by
      rw [← Nat.pow_succ, show (256 : Nat) = 2 ^ 8 from rfl]
      intro he
      have := Nat.pow_right_injective (Nat.le_refl 2) he
      omega
    simp only [Cursor.inc, cursorOf, hne, if_false, hdiv, hmod, Nat.pow_succ]

theorem cursorAt_move_inc (S k : Nat) : ((cursorAt S k).move 1).inc = cursorAt S (k + 1) := by
  have hmove : (cursorAt S k).move 1 = cursorOf ((S + (k + 1)) % 2 ^ 32) k := by
    simp only [cursorAt, Cursor.move, cursorOf, Cursor.mk.injEq, and_true]
    omega
  rw [hmove, cursorOf_inc]
  rfl

theorem mask_bit (b : Byte) {j : Nat} (hj : j < 8) :
    (b.toNat &&& 2 ^ j != 0) = (b &&& masks.getD j 0 != 0) := by
  have hm : (masks.getD j 0).toNat = 2 ^ j := by
    interval_cases j <;> rfl
  have hz : ∀ x : Byte, (x.toNat != 0) = (x != 0) := by
    intro x
    by_cases hx : x = 0
    · simp [hx]
    · have : x.toNat ≠ 0 := fun h => hx (UInt8.toNat_inj.mp h)
      rw [bne_iff_ne.mpr this, bne_iff_ne.mpr hx]
  rw [← hz, UInt8.toNat_and, hm]

theorem cursorOf_bit (alloc : List Byte) (past : Byte) (sect k : Nat) :
    (cursorOf sect k).bit alloc past = (bits (alloc ++ [past]))[k]? := by
  have hs : k >>> 3 = k / 8 := Nat.shiftRight_eq_div_pow k 3
  have hm : k &&& 7 = k % 8 := Nat.and_two_pow_sub_one_eq_mod k 3
  rw [← testBit_eq, testBit, hs, hm, Cursor.bit, cursorOf]
  simp only [mask_bit _ (Nat.mod_lt k (show 0 < 8 by omega))]

theorem cursorOf_bit_lt {alloc : List Byte} {past : Byte} {sect k : Nat} (h : k < 8 * alloc.length) :
    (cursorOf sect k).bit alloc past = (bits alloc)[k]? := by
  rw [cursorOf_bit, bits_append, List.getElem?_append_left (by rwa [bits_length])]

theorem remaining_self {alloc : List Byte} {k g : Nat} {rest : List Nat}
    (h : remaining alloc k = g :: rest) :
    remaining alloc g = g :: rest := by
  obtain ⟨hle, -, htail⟩ := remaining_tail h
  have hmem : g ∈ remaining alloc k := by simp [h]
  have hbit := (mem_indexes.mp hmem).2
  rw [List.getElem?_drop, Nat.add_sub_cancel' hle] at hbit
  rw [remaining_step hbit, if_pos rfl, htail]

theorem skipClear_eq {alloc : List Byte} (past : Byte) {S k g fuel : Nat} {rest : List Nat}
    (h : remaining alloc k = g :: rest) (hf : g < fuel + k) :
    skipClear alloc past fuel (cursorAt S k) = some (cursorAt S g) := by
  induction fuel generalizing k with
  | zero =>
    have := (remaining_tail h).1
    omega
  | succ fuel ih =>
    obtain ⟨hle, hlt, -⟩ := remaining_tail h
    obtain ⟨b, hb⟩ : ∃ b, (bits alloc)[k]? = some b :=
      ⟨_, List.getElem?_eq_getElem (show k < (bits alloc).length by rw [bits_length]; omega)⟩
    have hbit : (cursorAt S k).bit alloc past = some b := (cursorOf_bit_lt (by omega)).trans hb
    rw [remaining_step hb] at h
    rw [skipClear, hbit, Option.bind_some]
    cases b with
    | true =>
      obtain ⟨rfl, -⟩ := List.cons.inj ((if_pos rfl).symm.trans h)
      rfl
    | false =>
      rw [if_neg (by simp), cursorAt_move_inc]
      exact ih ((if_neg (by simp)).symm.trans h) (by omega)

theorem takeRun_eq {alloc : List Byte} (past : Byte) {n i nb fuel sect k : Nat} {gs : List Nat}
    (hrem : remaining alloc k = gs) (hk : k ≤ 8 * alloc.length) (hcount : n ≤ i + nb + gs.length)
    (hfuel : n < i + nb + fuel) (hn : i + nb ≤ n) :
    ∃ r, takeRun alloc past n i fuel nb (cursorOf sect k) = some (nb + r, cursorOf sect (k + r)) ∧
      i + nb + r ≤ n ∧ gs.take r = List.range' k r ∧ remaining alloc (k + r) = gs.drop r ∧
      k + r ≤ 8 * alloc.length ∧ (gs.head? = some k → i + nb < n → 0 < r) := by
  induction fuel generalizing nb k gs with
  | zero => omega
  | succ fuel ih =>
    have hpast : k < (bits (alloc ++ [past])).length := by
      rw [bits_length, List.length_append, List.length_singleton]
      omega
    obtain ⟨b, hb⟩ : ∃ b, (bits (alloc ++ [past]))[k]? = some b := ⟨_, List.getElem?_eq_getElem hpast⟩
    rw [takeRun, cursorOf_bit, hb, Option.bind_some]
    by_cases hin : i + nb < n
    · obtain ⟨g, rest, hgs⟩ : ∃ g rest, gs = g :: rest := by
        cases gs with
        | nil => simp at hcount; omega
        | cons g rest => exact ⟨g, rest, rfl⟩
      subst hgs
      obtain ⟨hle, hlt, htail⟩ := remaining_tail hrem
      have hbit : (bits alloc)[k]? = some b := by
        rwa [bits_append, List.getElem?_append_left (by rw [bits_length]; omega)] at hb
      rw [remaining_step hbit] at hrem
      cases b with
      | true =>
        obtain ⟨rfl, hrest⟩ := List.cons.inj ((if_pos rfl).symm.trans hrem)
        rw [if_pos ⟨rfl, hin⟩, cursorOf_inc]
        obtain ⟨r, hr, hle', htake, hdrop, hk', -⟩ := ih hrest (by omega)
          (show n ≤ i + (nb + 1) + _ by rw [List.length_cons] at hcount; omega) (by omega) (by omega)
        refine ⟨r + 1, ?_, by omega, ?_, ?_, by omega, fun _ _ => by omega⟩
        · rw [hr]
          simp only [Option.some.injEq, Prod.mk.injEq]
          exact ⟨by omega, by rw [Nat.add_assoc, Nat.add_comm 1 r]⟩
        · rw [List.take_succ_cons, htake, List.range'_succ]
        · rw [List.drop_succ_cons, ← hdrop, Nat.add_assoc, Nat.add_comm 1 r]
      | false =>
        rw [if_neg (by simp)]
        refine ⟨0, rfl, by omega, rfl, ?_, by omega, fun hh _ => ?_⟩
        · rw [Nat.add_zero, List.drop_zero, remaining_step hbit]
          exact hrem
        · have hg : g = k := by simpa using hh
          have := (remaining_tail ((if_neg (by simp)).symm.trans hrem)).1
          omega
    · rw [if_neg (fun hc => hin hc.2)]
      exact ⟨0, rfl, by omega, rfl, hrem, by omega, fun _ hc => absurd hc hin⟩

theorem patch_run (S g : Nat) (c : Content) {secs : List (List Byte)}
    (h : ∀ s ∈ secs, s.length = 512) :
    patch c (512 * (S + g)) secs.flatten = puts S c ((List.range' g secs.length).zip secs) := by
  induction secs generalizing g c with
  | nil => simp [puts, patch_nil]
  | cons s secs ih =>
    have hs := h s (by simp)
    rw [List.length_cons, List.range'_succ, List.zip_cons_cons, puts, List.foldl_cons, ← puts,
      ← ih (g + 1) _ (fun t ht => h t (by simp [ht])), List.flatten_cons, patch_append, hs]
    congr 1

theorem visitEnd_run {g r : Nat} {secs : List (List Byte)} (hr : 0 < r) (hlen : secs.length = r)
    (k : Nat) :
    visitEnd k (writes ((List.range' g r).zip secs)) = g + r := by
  induction r generalizing k g secs with
  | zero => omega
  | succ r ih =>
    obtain ⟨s, secs, rfl⟩ : ∃ s t, secs = s :: t := by
      cases secs with
      | nil => simp at hlen
      | cons s t => exact ⟨s, t, rfl⟩
    have hlen : secs.length = r := by simpa using hlen
    rw [List.range'_succ, List.zip_cons_cons, writes, List.map_cons, ← writes, visitEnd]
    by_cases h0 : r = 0
    · subst h0
      rfl
    · rw [ih (by omega) hlen]
      omega

section Run

variable {gs : List Nat} {secs : List (List Byte)} {g r : Nat}

theorem zip_take_run (hrun : gs.take r = List.range' g r) :
    (gs.zip secs).take r = (List.range' g r).zip (secs.take r) := by
  rw [← hrun]
  exact List.take_zipWith

theorem zip_drop_run : (gs.zip secs).drop r = (gs.drop r).zip (secs.drop r) := List.drop_zipWith

/-- One call writes the sectors of the run. -/
theorem writeSectors_run (S : Nat) (disk : Content) {buffer junk : List Byte} {i : Nat}
    (hrun : gs.take r = List.range' g r) (hle : r ≤ secs.length)
    (hsecs : ∀ s ∈ secs, s.length = 512) (hbuf : buffer.drop (512 * i) = secs.flatten ++ junk) :
    writeSectors disk buffer (S + g) i r = puts S disk ((gs.zip secs).take r) := by
  have hdata : (buffer.drop (512 * i)).take (512 * r) = (secs.take r).flatten := by
    rw [hbuf, List.take_append_of_le_length, take_flatten_512 hsecs]
    rw [length_flatten_512 hsecs]
    omega
  rw [writeSectors, hdata, patch_run S g disk (fun s hs => hsecs s (List.mem_of_mem_take hs)),
    List.length_take, Nat.min_eq_left hle, ← zip_take_run hrun]

theorem visitEnd_after_run (k : Nat) (hrun : gs.take r = List.range' g r) (hpos : 0 < r)
    (hle : r ≤ secs.length) :
    visitEnd k (writes (gs.zip secs)) =
      visitEnd (g + r) (writes ((gs.drop r).zip (secs.drop r))) := by
  conv_lhs => rw [← List.take_append_drop r (gs.zip secs)]
  rw [writes_append, visitEnd_append, zip_take_run hrun,
    visitEnd_run hpos (by rw [List.length_take, Nat.min_eq_left hle]), zip_drop_run]

theorem puts_after_run (S : Nat) (disk : Content) :
    puts S (puts S disk ((gs.zip secs).take r)) ((gs.drop r).zip (secs.drop r)) =
      puts S disk (gs.zip secs) := by
  rw [← zip_drop_run, ← puts_append, List.take_append_drop]

end Run

/-- The sectors of a buffer, written at the next set bits. -/
theorem writeLoop_eq {total : Nat} {alloc : List Byte} (past : Byte) {buffer junk : List Byte}
    {n fuel i k S : Nat} {gs rest : List Nat} {secs : List (List Byte)} {disk : Content}
    (htotal : total < 2 ^ 32) (hrem : remaining alloc k = gs ++ rest) (hk : k ≤ 8 * alloc.length)
    (hcount : gs.length = secs.length) (hn : i + secs.length = n)
    (hsecs : ∀ s ∈ secs, s.length = 512) (hbuf : buffer.drop (512 * i) = secs.flatten ++ junk)
    (hdisk : ∀ g ∈ gs, S + g < total) (hfuel : secs.length ≤ fuel) :
    writeLoop total alloc past buffer n fuel i (cursorAt S k) disk =
        some (cursorAt S (visitEnd k (writes (gs.zip secs))), puts S disk (gs.zip secs)) ∧
      remaining alloc (visitEnd k (writes (gs.zip secs))) = rest := by
  induction fuel generalizing i k gs secs disk with
  | zero =>
    obtain rfl : secs = [] := List.length_eq_zero_iff.mp (by omega)
    obtain rfl : gs = [] := List.length_eq_zero_iff.mp hcount
    exact ⟨by simp [writeLoop, ← hn, writes, visitEnd, puts], hrem⟩
  | succ fuel ih =>
    by_cases hi : i < n
    · obtain ⟨g, gs', rfl⟩ : ∃ g gs', gs = g :: gs' := by
        cases gs with
        | nil => simp at hcount; omega
        | cons g gs' => exact ⟨g, gs', rfl⟩
      obtain ⟨hle, hlt, htail⟩ := remaining_tail hrem
      have hself : remaining alloc g = g :: (gs' ++ rest) := remaining_self hrem
      obtain ⟨r, hr, hrn, htake, hdrop, hk', hpos⟩ := @takeRun_eq _ past n i 0 (n + 1) _ _ _
        hself hlt.le (by simp at hcount ⊢; omega) (by omega) (by omega)
      have hr0 := hpos rfl (by omega)
      have hrsecs : r ≤ secs.length := by omega
      have hrlen : r ≤ (g :: gs').length := by omega
      have hrun : (g :: gs').take r = List.range' g r := by
        rwa [← List.cons_append, List.take_append_of_le_length hrlen] at htake
      have hlast : S + (g + (r - 1)) < total := by
        apply hdisk
        apply List.mem_of_mem_take (i := r)
        rw [hrun, List.mem_range'_1]
        omega
      -- no sector of the run wraps around or is behind the end of the disk
      have hsect : (S + g) % 2 ^ 32 = S + g := Nat.mod_eq_of_lt (by omega)
      have hcut : ¬ ((S + g) % 2 ^ 32 < total ∧ ((S + g) % 2 ^ 32 + r) % 2 ^ 32 > total) := by
        have := Nat.mod_le (S + g + r) (2 ^ 32)
        omega
      have hskip := @skipClear_eq _ past S _ g (8 * alloc.length + 9) _ hrem (by omega)
      have hmove : (cursorOf ((S + g) % 2 ^ 32) (g + r)).move r = cursorAt S (g + r) := by
        simp only [cursorAt, Cursor.move, cursorOf, Cursor.mk.injEq, and_true]
        omega
      have hrest : remaining alloc (g + r) = (g :: gs').drop r ++ rest := by
        rw [hdrop, ← List.cons_append, List.drop_append_of_le_length hrlen]
      have hbuf' : buffer.drop (512 * (i + r)) = (secs.drop r).flatten ++ junk := by
        rw [Nat.mul_add, ← List.drop_drop, hbuf, List.drop_append_of_le_length
          (by rw [length_flatten_512 hsecs]; omega), drop_flatten_512 hsecs]
      obtain ⟨hloop, hfin⟩ := ih (i := i + r) hrest hk'
        (by rw [List.length_drop, List.length_drop, hcount]) (by rw [List.length_drop]; omega)
        (fun s hs => hsecs s (List.mem_of_mem_drop hs)) hbuf'
        (fun x hx => hdisk x (List.mem_of_mem_drop hx)) (by rw [List.length_drop]; omega)
      rw [puts_after_run, ← visitEnd_after_run k hrun hr0 hrsecs] at hloop
      rw [← visitEnd_after_run k hrun hr0 hrsecs] at hfin
      refine ⟨?_, hfin⟩
      rw [writeLoop, if_pos hi, hskip, Option.bind_some, cursorAt, hr, Option.bind_some]
      simp only [Nat.zero_add]
      rw [show (cursorOf ((S + g) % 2 ^ 32) (g + r)).sect = (S + g) % 2 ^ 32 from rfl, if_neg hcut,
        hmove, hsect, if_pos (by omega), writeSectors_run S disk hrun hrsecs hsecs hbuf]
      exact hloop
    · obtain rfl : secs = [] := List.length_eq_zero_iff.mp (by omega)
      obtain rfl : gs = [] := List.length_eq_zero_iff.mp hcount
      exact ⟨by simp [writeLoop, hi, writes, visitEnd, puts], hrem⟩

end PulseImaging
