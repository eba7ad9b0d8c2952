import PulseImaging.BitmapMarks
import PulseImaging.NtfsParser

/-! The clusters of `$Bitmap`: which sectors `parse_datarun` marks for them. -/

namespace PulseImaging

/-! ### Sectors of clusters -/

theorem NtfsBoot.spc_pos (boot : NtfsBoot) : 0 < boot.spc := by
  have h : ∀ n ∈ [1, 2, 4, 8, 16, 32, 64, 128], 0 < n := by decide
  exact h _ boot.spc_mem

/-- The test before a bit is set, for sector `s`. -/
def NtfsBoot.passes (boot : NtfsBoot) (s : Nat) : Prop := s % 2 ^ 32 < boot.sectors

theorem NtfsBoot.inVolume_iff (boot : NtfsBoot) (cur nb : Nat) :
    boot.inVolume cur nb = true ↔ boot.passes (8 * cur + nb) := decide_eq_true_iff

/-- The sectors from `a` on that the bits of the clusters set. -/
def NtfsBoot.Spread (boot : NtfsBoot) (a : Nat) (bs : List Bool) (s : Nat) : Prop :=
  a ≤ s ∧ bs.getD ((s - a) / boot.spc) false = true ∧ boot.passes s

theorem spread_nil (boot : NtfsBoot) (a s : Nat) : ¬ boot.Spread a [] s := fun h => by
  simpa using h.2.1

theorem spread_append (boot : NtfsBoot) (a : Nat) (bs cs : List Bool) (s : Nat) :
    boot.Spread a (bs ++ cs) s ↔ boot.Spread a bs s ∨
      boot.Spread (a + boot.spc * bs.length) cs s := by
  have hpos := boot.spc_pos
  by_cases ha : a ≤ s
  · obtain ⟨t, rfl⟩ := Nat.exists_eq_add_of_le ha
    have hdiv : t / boot.spc < bs.length ↔ t < boot.spc * bs.length := by
      rw [Nat.div_lt_iff_lt_mul hpos, Nat.mul_comm]
    simp only [NtfsBoot.Spread, Nat.add_sub_cancel_left, Nat.le_add_right, true_and]
    by_cases ht : t < boot.spc * bs.length
    · rw [List.getD_append _ _ _ _ (hdiv.mpr ht)]
      exact ⟨Or.inl, fun h => h.resolve_right (fun h => by omega)⟩
    · have hle : bs.length ≤ t / boot.spc := not_lt.mp (mt hdiv.mp ht)
      have hsub : (a + t - (a + boot.spc * bs.length)) / boot.spc = t / boot.spc - bs.length := by
        rw [Nat.add_sub_add_left, Nat.sub_mul_div_of_le _ _ _ (not_lt.mp ht)]
      have hnone : bs.getD (t / boot.spc) false = false := List.getD_eq_default _ _ hle
      rw [List.getD_append_right _ _ _ _ hle, hsub, hnone]
      exact ⟨fun h => Or.inr ⟨by omega, h⟩,
        fun h => (h.resolve_left (fun h => Bool.noConfusion h.1)).2⟩
  · exact iff_of_false (fun h => ha h.1) (fun h => h.elim (fun h => ha h.1)
      (fun h => ha (by have := h.1; omega)))

theorem spread_singleton (boot : NtfsBoot) (a : Nat) (b : Bool) (s : Nat) :
    boot.Spread a [b] s ↔ (a ≤ s ∧ s < a + boot.spc) ∧ b = true ∧ boot.passes s := by
  have hpos := boot.spc_pos
  rw [NtfsBoot.Spread, and_assoc]
  refine and_congr_right fun ha => ?_
  by_cases hs : s < a + boot.spc
  · rw [Nat.div_eq_of_lt (by omega), and_iff_right hs]
    rfl
  · have hge : 1 ≤ (s - a) / boot.spc := (Nat.one_le_div_iff hpos).mpr (by omega)
    rw [List.getD_eq_default _ _ hge]
    exact iff_of_false (fun h => Bool.noConfusion h.1) (fun h => hs h.1)

/-! ### The loops -/

theorem setSectors_storing (boot : NtfsBoot) (cur : Nat) (set : Bool) (l nb : Nat)
    (bitmap : List Byte) :
    Storing bitmap (fun s => (8 * cur + nb ≤ s ∧ s < 8 * cur + nb + l) ∧ set = true ∧ boot.passes s)
      (fun b => setSectors boot cur set l nb bitmap = some b) := by
  induction l generalizing nb bitmap with
  | zero =>
    refine (Storing.refl bitmap (fun s hs => ?_)).congr (fun s => Iff.rfl)
      (fun b => Option.some_inj.symm)
    have := hs.1
    omega
  | succ l ih =>
    have hrest (b : List Byte) := ih (nb + 1) b
    by_cases hset : (set && boot.inVolume cur nb) = true
    · obtain ⟨hset', hpass⟩ : set = true ∧ boot.passes (8 * cur + nb) := by
        rwa [Bool.and_eq_true, boot.inVolume_iff] at hset
      refine ((setbit_storing bitmap cur nb).trans (fun b _ => hrest b)).congr (fun s => ?_)
        (fun b => ?_)
      · constructor
        · rintro (rfl | ⟨hs, hmarked⟩)
          · exact ⟨by omega, hset', hpass⟩
          · exact ⟨by omega, hmarked⟩
        · rintro ⟨hs, hmarked⟩
          by_cases he : s = 8 * cur + nb
          · exact .inl he
          · exact .inr ⟨by omega, hmarked⟩
      · rw [setSectors, if_pos hset, Option.bind_eq_some_iff]
    · refine (hrest bitmap).congr (fun s => and_congr_left fun hmarked => ⟨fun hs => by omega,
        fun hs => ?_⟩)
        (fun b => ?_)
      · have hne : s ≠ 8 * cur + nb := by
          rintro rfl
          exact hset (by rw [Bool.and_eq_true, boot.inVolume_iff]; exact hmarked)
        omega
      · rw [setSectors, if_neg hset, Option.bind_some]

theorem setClusters_storing (boot : NtfsBoot) (cur : Nat) (bs : List Bool) (nb : Nat)
    (bitmap : List Byte) :
    Storing bitmap (boot.Spread (8 * cur + nb) bs) (fun b => setClusters boot cur bs nb bitmap =
      some b) := by
  induction bs generalizing nb bitmap with
  | nil => exact (Storing.refl bitmap (spread_nil boot _)).congr (fun s => Iff.rfl) (fun b => Option.some_inj.symm)
  | cons set bs ih =>
    refine ((setSectors_storing boot cur set boot.spc nb bitmap).trans
      (fun b _ => ih (nb + boot.spc) b)).congr
      (fun s => ?_) (fun b => ?_)
    · have happ := spread_append boot (8 * cur + nb) [set] bs s
      rw [List.singleton_append, List.length_singleton, Nat.mul_one, spread_singleton] at happ
      rw [happ, Nat.add_assoc]
    · rw [setClusters, Option.bind_eq_some_iff]

theorem setClusters_length {boot : NtfsBoot} {cur nb : Nat} {bs : List Bool}
    {bitmap bitmap' : List Byte} (h : setClusters boot cur bs nb bitmap = some bitmap') :
    bitmap'.length = bitmap.length :=
  ((setClusters_storing boot cur bs nb bitmap).marks bitmap' h).1

end PulseImaging
