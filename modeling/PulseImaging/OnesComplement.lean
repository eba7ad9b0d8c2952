import Mathlib.Data.List.Induction
import Mathlib.Data.Nat.ModEq

/-! One's complement addition of words up to `m`, where `m + 1` is a power of two: zero is both `0` and `m`. -/

namespace PulseImaging

/-- The carry is added to what it left. -/
def onesAdd (m a b : Nat) : Nat := (a + b) % (m + 1) + (a + b) / (m + 1)

def onesSum (m : Nat) (ws : List Nat) : Nat := ws.foldl (onesAdd m) 0

section

variable {m a b : Nat}

/-- There is a carry of one at most. -/
theorem onesAdd_eq (ha : a ≤ m) (hb : b ≤ m) :
    onesAdd m a b = if m < a + b then a + b - m else a + b := by
  rw [onesAdd]
  split
  · next h =>
    have hdiv : (a + b) / (m + 1) = 1 := Nat.div_eq_of_lt_le (by omega) (by omega)
    have hmod := Nat.mod_add_div (a + b) (m + 1)
    rw [hdiv] at hmod ⊢
    omega
  · next h => rw [Nat.mod_eq_of_lt (by omega), Nat.div_eq_of_lt (by omega), Nat.add_zero]

theorem onesAdd_le (ha : a ≤ m) (hb : b ≤ m) : onesAdd m a b ≤ m := by
  rw [onesAdd_eq ha hb]
  split <;> omega

theorem onesAdd_modEq (m a b : Nat) : onesAdd m a b ≡ a + b [MOD m] := by
  have hexpand : onesAdd m a b + m * ((a + b) / (m + 1)) = a + b := by
    have h := Nat.mod_add_div (a + b) (m + 1)
    rw [Nat.succ_mul] at h
    rw [onesAdd]
    omega
  have hself : onesAdd m a b + m * ((a + b) / (m + 1)) ≡ onesAdd m a b [MOD m] :=
    Nat.add_mul_mod_self_left _ _ _
  rw [hexpand] at hself
  exact hself.symm

/-- The sum is zero only when there is nothing to add. -/
theorem onesAdd_eq_zero (ha : a ≤ m) (hb : b ≤ m) : onesAdd m a b = 0 ↔ a = 0 ∧ b = 0 := by
  rw [onesAdd_eq ha hb]
  split <;> omega

theorem onesSum_append (m : Nat) (ws : List Nat) (w : Nat) :
    onesSum m (ws ++ [w]) = onesAdd m (onesSum m ws) w := by
  rw [onesSum, List.foldl_append]
  rfl

theorem onesSum_le {ws : List Nat} (h : ∀ w ∈ ws, w ≤ m) : onesSum m ws ≤ m := by
  induction ws using List.reverseRecOn with
  | nil => exact Nat.zero_le m
  | append_singleton ws w ih =>
    rw [onesSum_append]
    exact onesAdd_le (ih (fun v hv => h v (List.mem_append_left _ hv))) (h w (by simp))

theorem onesSum_modEq (m : Nat) (ws : List Nat) : onesSum m ws ≡ ws.sum [MOD m] := by
  induction ws using List.reverseRecOn with
  | nil => rfl
  | append_singleton ws w ih =>
    rw [onesSum_append, List.sum_append, List.sum_singleton]
    exact (onesAdd_modEq m _ w).trans (ih.add_right w)

theorem onesSum_eq_zero {ws : List Nat} (h : ∀ w ∈ ws, w ≤ m) : onesSum m ws = 0 ↔ ws.sum = 0 := by
  induction ws using List.reverseRecOn with
  | nil => exact Iff.rfl
  | append_singleton ws w ih =>
    have hws : ∀ v ∈ ws, v ≤ m := fun v hv => h v (List.mem_append_left _ hv)
    rw [onesSum_append, onesAdd_eq_zero (onesSum_le hws) (h w (by simp)), ih hws, List.sum_append,
      List.sum_singleton]
    omega

/-- A word that was zero is filled with the complement of the sum. -/
theorem onesSum_filled {us ws : List Nat} (hu : ∀ w ∈ us, w ≤ m) (hw : ∀ w ∈ ws, w ≤ m) :
    onesSum m (us ++ (m - onesSum m (us ++ 0 :: ws)) :: ws) = m := by
  obtain ⟨s, hs⟩ : ∃ s, s = onesSum m (us ++ 0 :: ws) := ⟨_, rfl⟩
  have hblank : ∀ w ∈ us ++ 0 :: ws, w ≤ m := by
    intro w h
    rcases List.mem_append.mp h with h | h
    · exact hu w h
    · rcases List.mem_cons.mp h with rfl | h
      · exact Nat.zero_le m
      · exact hw w h
  have hfilled : ∀ w ∈ us ++ (m - s) :: ws, w ≤ m := by
    intro w h
    rcases List.mem_append.mp h with h | h
    · exact hu w h
    · rcases List.mem_cons.mp h with rfl | h
      · exact Nat.sub_le m s
      · exact hw w h
  have hle : s ≤ m := hs ▸ onesSum_le hblank
  have hsum : (us ++ (m - s) :: ws).sum = (us ++ 0 :: ws).sum + (m - s) := by
    simp only [List.sum_append, List.sum_cons]
    omega
  have hmod : onesSum m (us ++ (m - s) :: ws) ≡ 0 [MOD m] := by
    have hself : s ≡ (us ++ 0 :: ws).sum [MOD m] := hs ▸ onesSum_modEq m _
    calc onesSum m (us ++ (m - s) :: ws)
      _ ≡ (us ++ (m - s) :: ws).sum [MOD m] := onesSum_modEq m _
      _ = (us ++ 0 :: ws).sum + (m - s) := hsum
      _ ≡ s + (m - s) [MOD m] := hself.symm.add_right _
      _ = m := Nat.add_sub_of_le hle
      _ ≡ 0 [MOD m] := (Nat.modEq_zero_iff_dvd.mpr dvd_rfl)
  rw [← hs]
  have hbound := onesSum_le hfilled
  have hdvd : m ∣ onesSum m (us ++ (m - s) :: ws) := Nat.modEq_zero_iff_dvd.mp hmod
  by_cases hzero : onesSum m (us ++ (m - s) :: ws) = 0
  · -- all words are zero, the one that was filled as well: `m` is zero
    have h0 := (onesSum_eq_zero hfilled).mp hzero
    have hs0 : s = 0 := by
      rw [hs, onesSum_eq_zero hblank]
      omega
    omega
  · exact Nat.le_antisymm hbound (Nat.le_of_dvd (Nat.pos_of_ne_zero hzero) hdvd)

end

end PulseImaging
