import PulseImaging.Fate
import Mathlib.Logic.Function.Iterate

/-! Loops whose turns go on or leave the loop, and views of their states. -/

namespace PulseImaging

variable {σ α β : Type}

/-- A call that fails with the error exit. -/
def Fate.ofCall : Option α → Fate α
  | some a => .done a
  | none => .exit

theorem Fate.ofCall_eq_done {o : Option α} {a : α} : Fate.ofCall o = .done a ↔ o = some a := by
  cases o <;> simp [Fate.ofCall]

theorem Fate.ofCall_eq_exit {o : Option α} : Fate.ofCall o = .exit ↔ o = none := by
  cases o <;> simp [Fate.ofCall]

/-- A turn gives the next state, or what is behind the loop. -/
def Fate.iterate (turn : σ → Fate (σ ⊕ β)) : Nat → σ → Fate β
  | 0, _ => .more
  | fuel + 1, s => (turn s).bind (Sum.elim (Fate.iterate turn fuel) .done)

/-- A loop with a number of turns. -/
def Fate.times (f : σ → Fate σ) : Nat → σ → Fate σ
  | 0, s => .done s
  | n + 1, s => (f s).bind (Fate.times f n)

/-- `n` steps. -/
inductive Steps (R : σ → σ → Prop) : Nat → σ → σ → Prop
  | zero (s : σ) : Steps R 0 s s
  | succ {n : Nat} {s s₁ s' : σ} (h : R s s₁) (hs : Steps R n s₁ s') : Steps R (n + 1) s s'

theorem Steps.last {R : σ → σ → Prop} {n : Nat} {a c : σ} (h : Steps R n a c) :
    (n = 0 ∧ c = a) ∨ ∃ m b, n = m + 1 ∧ Steps R m a b ∧ R b c := by
  induction h with
  | zero => exact .inl ⟨rfl, rfl⟩
  | succ hstep hs ih =>
    rcases ih with ⟨rfl, rfl⟩ | ⟨m, b, rfl, hsteps, hlast⟩
    · exact .inr ⟨0, _, rfl, .zero _, hstep⟩
    · exact .inr ⟨m + 1, b, rfl, .succ hstep hsteps, hlast⟩

/-! ### Loops -/

/-- The turn goes on. -/
def GoesOn (turn : σ → Fate (σ ⊕ β)) (s s' : σ) : Prop := turn s = .done (.inl s')

/-- What a turn that does not go on gives. -/
def Fate.leave (turn : σ → Fate (σ ⊕ β)) (s : σ) : Fate β := (turn s).bind (Sum.elim (fun _ => .more) .done)

theorem Fate.iterate_iff {turn : σ → Fate (σ ⊕ β)} {x : Fate β} (hx : x ≠ .more) (fuel : Nat)
    (s : σ) :
    Fate.iterate turn fuel s = x ↔ ∃ n < fuel, ∃ s', Steps (GoesOn turn) n s s' ∧
      Fate.leave turn s' = x := by
  induction fuel generalizing s with
  | zero => exact iff_of_false (fun h => hx h.symm) (fun ⟨n, hn, _⟩ => Nat.not_lt_zero n hn)
  | succ fuel ih =>
    rw [Fate.iterate]
    by_cases hon : ∃ s₁, turn s = .done (.inl s₁)
    · obtain ⟨s₁, hs₁⟩ := hon
      have hleave : Fate.leave turn s = .more := by rw [Fate.leave, hs₁]; rfl
      rw [hs₁, Fate.bind_done, Sum.elim_inl, ih]
      constructor
      · rintro ⟨n, hn, s', hsteps, hlast⟩
        exact ⟨n + 1, Nat.succ_lt_succ hn, s', .succ hs₁ hsteps, hlast⟩
      · rintro ⟨n, hn, s', hsteps, hlast⟩
        cases hsteps with
        | zero => exact absurd (hlast.symm.trans hleave) hx
        | succ hgo hsteps =>
          cases hs₁.symm.trans hgo
          exact ⟨_, Nat.lt_of_succ_lt_succ hn, s', hsteps, hlast⟩
    · have hstays : (turn s).bind (Sum.elim (Fate.iterate turn fuel) .done) = Fate.leave turn s := by
        rw [Fate.leave]
        cases hturn : turn s with
        | done y =>
          cases y with
          | inl s₁ => exact absurd ⟨s₁, hturn⟩ hon
          | inr b => rfl
        | exit | fault | more => rfl
      rw [hstays]
      constructor
      · exact fun h => ⟨0, Nat.succ_pos fuel, s, .zero s, h⟩
      · rintro ⟨n, -, s', hsteps, hlast⟩
        cases hsteps with
        | zero => exact hlast
        | succ hgo => exact absurd ⟨_, hgo⟩ hon

theorem Fate.leave_eq_done {turn : σ → Fate (σ ⊕ β)} {s : σ} {b : β} :
    Fate.leave turn s = .done b ↔ turn s = .done (.inr b) := by
  rw [Fate.leave, Fate.bind_eq_done]
  constructor
  · rintro ⟨s₁ | c, hturn, h⟩
    · cases h
    · cases h
      exact hturn
  · exact fun h => ⟨_, h, rfl⟩

theorem Fate.leave_eq_exit {turn : σ → Fate (σ ⊕ β)} {s : σ} :
    Fate.leave turn s = .exit ↔ turn s = .exit := by
  rw [Fate.leave, Fate.bind_eq_exit]
  refine or_iff_left ?_
  rintro ⟨s₁ | b, -, h⟩
  · cases h
  · cases h

/-- A turn that leaves the state as it is comes again and again. -/
theorem Fate.iterate_of_stays {turn : σ → Fate (σ ⊕ β)} {s : σ} (h : turn s = .done (.inl s))
    (fuel : Nat) :
    Fate.iterate turn fuel s = .more := by
  induction fuel with
  | zero => rfl
  | succ fuel ih => rw [Fate.iterate, h, Fate.bind_done, Sum.elim_inl, ih]

theorem Fate.times_eq_done {f : σ → Fate σ} {n : Nat} {s s' : σ} :
    Fate.times f n s = .done s' ↔ Steps (fun s s' => f s = .done s') n s s' := by
  induction n generalizing s with
  | zero =>
    constructor
    · intro h
      cases h
      exact .zero _
    · rintro ⟨⟩
      rfl
  | succ n ih =>
    rw [Fate.times, Fate.bind_eq_done]
    constructor
    · rintro ⟨s₁, h, hs⟩
      exact .succ h (ih.mp hs)
    · rintro (_ | ⟨h, hs⟩)
      exact ⟨_, h, ih.mpr hs⟩

theorem Fate.times_eq_exit {f : σ → Fate σ} {n : Nat} {s : σ} :
    Fate.times f n s = .exit ↔ ∃ i < n, ∃ s', Steps (fun s s' => f s = .done s') i s s' ∧
      f s' = .exit := by
  induction n generalizing s with
  | zero => exact iff_of_false (fun h => by cases h) (fun ⟨i, hi, _⟩ => Nat.not_lt_zero i hi)
  | succ n ih =>
    rw [Fate.times, Fate.bind_eq_exit]
    constructor
    · rintro (h | ⟨s₁, h, hs⟩)
      · exact ⟨0, Nat.succ_pos n, s, .zero s, h⟩
      · obtain ⟨i, hi, s', hsteps, hexit⟩ := ih.mp hs
        exact ⟨i + 1, Nat.succ_lt_succ hi, s', .succ h hsteps, hexit⟩
    · rintro ⟨i, hi, s', hsteps, hexit⟩
      cases hsteps with
      | zero => exact .inl hexit
      | succ h hsteps => exact .inr ⟨_, h, ih.mpr ⟨_, Nat.lt_of_succ_lt_succ hi, s', hsteps, hexit⟩⟩

/-! ### Views -/

/-- What is seen of a state says whether there is a step, and what is seen behind it. -/
structure View (R : σ → σ → Prop) (view : σ → α) (next : α → α) (passes : α → Prop) : Prop where
  step : ∀ {s s'}, R s s' → passes (view s) ∧ view s' = next (view s)
  progress : ∀ {s}, passes (view s) → ∃ s', R s s'

variable {R : σ → σ → Prop} {view : σ → α} {next : α → α} {passes : α → Prop}

theorem View.steps (h : View R view next passes) {n : Nat} {s s' : σ} (hs : Steps R n s s') :
    (∀ i < n, passes (next^[i] (view s))) ∧ view s' = next^[n] (view s) := by
  induction hs with
  | zero s => exact ⟨fun i hi => absurd hi (Nat.not_lt_zero i), rfl⟩
  | succ hstep _ ih =>
    obtain ⟨hpasses, hview⟩ := h.step hstep
    rw [hview] at ih
    refine ⟨fun i hi => ?_, ih.2⟩
    cases i with
    | zero => exact hpasses
    | succ i => exact ih.1 i (Nat.lt_of_succ_lt_succ hi)

theorem View.exists_steps (h : View R view next passes) {n : Nat} {s : σ}
    (hpasses : ∀ i < n, passes (next^[i] (view s))) : ∃ s', Steps R n s s' := by
  induction n generalizing s with
  | zero => exact ⟨s, .zero s⟩
  | succ n ih =>
    obtain ⟨s₁, hs₁⟩ := h.progress (hpasses 0 (Nat.succ_pos n))
    obtain ⟨s', hs'⟩ := @ih s₁ (fun i hi => by
      rw [(h.step hs₁).2]
      exact hpasses (i + 1) (Nat.succ_lt_succ hi))
    exact ⟨s', .succ hs₁ hs'⟩

theorem View.steps_iff (h : View R view next passes) (n : Nat) (s : σ) (P : α → Prop) :
    (∃ s', Steps R n s s' ∧ P (view s')) ↔ (∀ i < n, passes (next^[i] (view s))) ∧
      P (next^[n] (view s)) := by
  constructor
  · rintro ⟨s', hs, hP⟩
    obtain ⟨hpasses, hview⟩ := h.steps hs
    exact ⟨hpasses, hview ▸ hP⟩
  · rintro ⟨hpasses, hP⟩
    obtain ⟨s', hs⟩ := h.exists_steps hpasses
    exact ⟨s', hs, (h.steps hs).2.symm ▸ hP⟩

end PulseImaging
