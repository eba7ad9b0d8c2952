import Mathlib.Algebra.Order.Group.Abs
import Mathlib.Algebra.Order.Ring.Int

/-! The times of the benchmark. An assertion that fails is `none`; the seconds are taken to be in the range of `time_t`. -/

namespace PulseImaging

def TIME_RESOLUTION : Int := 1000000000

structure Timespec where
  tvSec : Int
  tvNsec : Int
  deriving DecidableEq

namespace Timespec

/-- What is asserted of each argument. -/
def Normalised (t : Timespec) : Prop := 0 ≤ t.tvSec ∧ 0 ≤ t.tvNsec ∧ t.tvNsec < TIME_RESOLUTION

instance (t : Timespec) : Decidable t.Normalised := inferInstanceAs (Decidable (_ ∧ _ ∧ _))

def nanos (t : Timespec) : Int := t.tvSec * TIME_RESOLUTION + t.tvNsec

end Timespec

def timespecCompare (x y : Timespec) : Option Int :=
  if x.Normalised ∧ y.Normalised then
    some (if x.tvSec > y.tvSec then 1
      else if x.tvSec < y.tvSec then -1
      else if x.tvNsec > y.tvNsec then 1
      else if x.tvNsec < y.tvNsec then -1
      else 0)
  else none

def timespecAdd (x y : Timespec) : Option Timespec :=
  if x.Normalised ∧ y.Normalised then
    let res : Timespec := ⟨x.tvSec + y.tvSec, x.tvNsec + y.tvNsec⟩
    some (if res.tvNsec > TIME_RESOLUTION then ⟨res.tvSec + 1, res.tvNsec % TIME_RESOLUTION⟩ else res)
  else none

/-- `*res = *x`, from which `y` is taken; the other branch does it with `x` and `y` exchanged. -/
def timespecTake (x y : Timespec) : Timespec :=
  let res : Timespec :=
    if x.tvNsec < y.tvNsec then ⟨x.tvSec - 1, x.tvNsec + (TIME_RESOLUTION - y.tvNsec)⟩
    else ⟨x.tvSec, x.tvNsec - y.tvNsec⟩
  ⟨res.tvSec - y.tvSec, res.tvNsec⟩

/-- The difference and the sign that is returned. -/
def timespecSubstract (x y : Timespec) : Option (Timespec × Int) :=
  if x.Normalised ∧ y.Normalised then
    (timespecCompare x y).map (fun sign =>
      if sign = 0 then (⟨0, 0⟩, sign)
      else if sign > 0 then (timespecTake x y, sign)
      else (timespecTake y x, sign))
  else none

namespace Timespec

variable {x y : Timespec}

theorem nanos_emod (h : x.Normalised) : x.nanos % TIME_RESOLUTION = x.tvNsec := by
  obtain ⟨-, hlow, hhigh⟩ := h
  rw [nanos, Int.add_comm, Int.add_mul_emod_self_right]
  exact Int.emod_eq_of_lt hlow hhigh

theorem nanos_injective (hx : x.Normalised) (hy : y.Normalised) (h : x.nanos = y.nanos) : x = y := by
  have hnsec : x.tvNsec = y.tvNsec := by rw [← nanos_emod hx, h, nanos_emod hy]
  have hsec : x.tvSec = y.tvSec := by
    simp only [nanos, TIME_RESOLUTION] at h
    omega
  cases x
  cases y
  simp_all

end Timespec

section

variable {x y : Timespec}

theorem timespecCompare_eq (hx : x.Normalised) (hy : y.Normalised) :
    timespecCompare x y = some (x.nanos - y.nanos).sign := by
  rw [timespecCompare, if_pos ⟨hx, hy⟩, Option.some.injEq]
  simp only [Timespec.Normalised, TIME_RESOLUTION] at hx hy
  simp only [Timespec.nanos, TIME_RESOLUTION]
  split
  · exact (Int.sign_eq_one_of_pos (by omega)).symm
  split
  · exact (Int.sign_eq_neg_one_of_neg (by omega)).symm
  split
  · exact (Int.sign_eq_one_of_pos (by omega)).symm
  split
  · exact (Int.sign_eq_neg_one_of_neg (by omega)).symm
  · exact (Int.sign_eq_zero_iff_zero.mpr (by omega)).symm

/-- The sum is right, but it stays as it is when it ends at a second. -/
theorem timespecAdd_eq (hx : x.Normalised) (hy : y.Normalised) :
    ∃ r, timespecAdd x y = some r ∧ r.nanos = x.nanos + y.nanos ∧
      (r.Normalised ↔ x.tvNsec + y.tvNsec ≠ TIME_RESOLUTION) := by
  rw [timespecAdd, if_pos ⟨hx, hy⟩]
  refine ⟨_, rfl, ?_⟩
  simp only [Timespec.Normalised, TIME_RESOLUTION] at hx hy
  by_cases h : x.tvNsec + y.tvNsec > TIME_RESOLUTION
  · rw [if_pos h]
    simp only [Timespec.Normalised, Timespec.nanos, TIME_RESOLUTION] at h ⊢
    omega
  · rw [if_neg h]
    simp only [Timespec.Normalised, Timespec.nanos, TIME_RESOLUTION] at h ⊢
    omega

theorem timespecTake_eq (hx : x.Normalised) (hy : y.Normalised) (h : y.nanos ≤ x.nanos) :
    (timespecTake x y).Normalised ∧ (timespecTake x y).nanos = x.nanos - y.nanos := by
  simp only [Timespec.Normalised, TIME_RESOLUTION] at hx hy
  simp only [Timespec.nanos, TIME_RESOLUTION] at h
  rw [timespecTake]
  by_cases hborrow : x.tvNsec < y.tvNsec
  · rw [if_pos hborrow]
    simp only [Timespec.Normalised, Timespec.nanos, TIME_RESOLUTION]
    omega
  · rw [if_neg hborrow]
    simp only [Timespec.Normalised, Timespec.nanos, TIME_RESOLUTION]
    omega

theorem timespecSubstract_eq (hx : x.Normalised) (hy : y.Normalised) :
    ∃ r, timespecSubstract x y = some (r, (x.nanos - y.nanos).sign) ∧ r.Normalised ∧
      r.nanos = |x.nanos - y.nanos| := by
  rw [timespecSubstract, if_pos ⟨hx, hy⟩, timespecCompare_eq hx hy, Option.map_some]
  rcases lt_trichotomy x.nanos y.nanos with h | h | h
  · have hsign : (x.nanos - y.nanos).sign = -1 := Int.sign_eq_neg_one_of_neg (by omega)
    obtain ⟨hnorm, hvalue⟩ := timespecTake_eq hy hx h.le
    rw [hsign, if_neg (by decide), if_neg (by decide), abs_of_neg (by omega)]
    exact ⟨_, rfl, hnorm, by omega⟩
  · rw [h, Int.sub_self, Int.sign_zero, if_pos rfl, abs_zero]
    exact ⟨_, rfl, by decide, by decide⟩
  · have hsign : (x.nanos - y.nanos).sign = 1 := Int.sign_eq_one_of_pos (by omega)
    obtain ⟨hnorm, hvalue⟩ := timespecTake_eq hx hy h.le
    rw [hsign, if_neg (by decide), if_pos (by decide), abs_of_pos (by omega)]
    exact ⟨_, rfl, hnorm, hvalue⟩

theorem timespecAdd_sound_iff (hx : x.Normalised) (hy : y.Normalised) :
    (∃ r, timespecAdd x y = some r ∧ r.Normalised ∧ r.nanos = x.nanos + y.nanos) ↔
      x.tvNsec + y.tvNsec ≠ TIME_RESOLUTION := by
  obtain ⟨r, hadd, hvalue, hnorm⟩ := timespecAdd_eq hx hy
  rw [← hnorm]
  constructor
  · rintro ⟨r', hadd', hnorm', -⟩
    obtain rfl := Option.some.inj (hadd.symm.trans hadd')
    exact hnorm'
  · intro h
    exact ⟨r, hadd, h, hvalue⟩

/-- The difference ends at the second of `y` exactly when `x` is a whole second and `y` is not. -/
theorem timespecAdd_difference_iff (hx : x.Normalised) (hy : y.Normalised) (h : y.nanos ≤ x.nanos) :
    ∃ r sign, timespecSubstract x y = some (r, sign) ∧
      (timespecAdd r y = some x ↔ ¬(x.tvNsec = 0 ∧ 0 < y.tvNsec)) := by
  obtain ⟨r, hsub, hnorm, hvalue⟩ := timespecSubstract_eq hx hy
  refine ⟨r, _, hsub, ?_⟩
  rw [abs_of_nonneg (by omega)] at hvalue
  obtain ⟨s, hadd, hsum, hiff⟩ := timespecAdd_eq hnorm hy
  have hback : s.nanos = x.nanos := by omega
  have hexact : r.tvNsec + y.tvNsec = TIME_RESOLUTION ↔ x.tvNsec = 0 ∧ 0 < y.tvNsec := by
    simp only [Timespec.Normalised, Timespec.nanos, TIME_RESOLUTION] at *
    omega
  rw [hadd, Option.some.injEq, ← hexact, ← ne_eq, ← hiff]
  constructor
  · rintro rfl
    exact hx
  · exact fun hs => Timespec.nanos_injective hs hx hback

end

/-! ### Chains -/

abbrev NormalTimespec := { t : Timespec // t.Normalised }

/-- Operations on the results of others. -/
inductive TimeChain where
  | value (t : NormalTimespec)
  | add (a b : TimeChain)
  | substract (a b : TimeChain)

namespace TimeChain

def eval : TimeChain → Option Timespec
  | value t => some t.1
  | add a b => a.eval.bind (fun x => b.eval.bind (timespecAdd x))
  | substract a b => a.eval.bind (fun x => b.eval.bind (fun y => (timespecSubstract x y).map Prod.fst))

/-- In nanoseconds. -/
def exact : TimeChain → Int
  | value t => t.1.nanos
  | add a b => a.exact + b.exact
  | substract a b => |a.exact - b.exact|

/-- No addition of two parts of a second gives a whole one. -/
def NoWholeSecond : TimeChain → Prop
  | value _ => True
  | add a b => a.NoWholeSecond ∧ b.NoWholeSecond ∧ a.exact % TIME_RESOLUTION + b.exact % TIME_RESOLUTION ≠ TIME_RESOLUTION
  | substract a b => a.NoWholeSecond ∧ b.NoWholeSecond

/-- No assertion fails and the next operation may use the result. -/
def Sound (c : TimeChain) : Prop := ∃ r, c.eval = some r ∧ r.Normalised ∧ r.nanos = c.exact

theorem sound_value (t : NormalTimespec) : (value t).Sound := ⟨t.1, rfl, t.2, rfl⟩

/-- An operation asserts that both results before it are normalised. -/
theorem eval_add_some {a b : TimeChain} {r : Timespec} (h : (add a b).eval = some r) :
    ∃ x y, a.eval = some x ∧ b.eval = some y ∧ x.Normalised ∧ y.Normalised ∧
      timespecAdd x y = some r := by
  obtain ⟨x, ha, h⟩ := Option.bind_eq_some_iff.mp h
  obtain ⟨y, hb, h⟩ := Option.bind_eq_some_iff.mp h
  have hasserts : x.Normalised ∧ y.Normalised := by
    by_contra hn
    rw [timespecAdd, if_neg hn] at h
    exact absurd h nofun
  exact ⟨x, y, ha, hb, hasserts.1, hasserts.2, h⟩

theorem eval_substract_some {a b : TimeChain} {r : Timespec} (h : (substract a b).eval = some r) :
    ∃ x y, a.eval = some x ∧ b.eval = some y ∧ x.Normalised ∧ y.Normalised := by
  obtain ⟨x, ha, h⟩ := Option.bind_eq_some_iff.mp h
  obtain ⟨y, hb, h⟩ := Option.bind_eq_some_iff.mp h
  have hasserts : x.Normalised ∧ y.Normalised := by
    by_contra hn
    rw [timespecSubstract, if_neg hn] at h
    exact absurd h nofun
  exact ⟨x, y, ha, hb, hasserts⟩

/-- What is computed is right also where it is not normalised. -/
theorem nanos_eval (c : TimeChain) {r : Timespec} (h : c.eval = some r) : r.nanos = c.exact := by
  induction c generalizing r with
  | value t =>
    obtain rfl := Option.some.inj h
    rfl
  | add a b iha ihb =>
    obtain ⟨x, y, ha, hb, hx, hy, hadd⟩ := eval_add_some h
    obtain ⟨s, hadd', hvalue, -⟩ := timespecAdd_eq hx hy
    obtain rfl := Option.some.inj (hadd.symm.trans hadd')
    rw [hvalue, iha ha, ihb hb]
    rfl
  | substract a b iha ihb =>
    obtain ⟨x, y, ha, hb, hx, hy⟩ := eval_substract_some h
    obtain ⟨s, hsub, -, hvalue⟩ := timespecSubstract_eq hx hy
    have heval : (substract a b).eval = some s := by
      simp only [eval, ha, hb, Option.bind_some, hsub, Option.map_some]
    obtain rfl := Option.some.inj (h.symm.trans heval)
    rw [hvalue, iha ha, ihb hb]
    rfl

theorem sound_add_iff (a b : TimeChain) :
    (add a b).Sound ↔ a.Sound ∧ b.Sound ∧ a.exact % TIME_RESOLUTION + b.exact % TIME_RESOLUTION ≠
      TIME_RESOLUTION := by
  constructor
  · rintro ⟨r, heval, hnorm, hvalue⟩
    obtain ⟨x, y, ha, hb, hx, hy, hadd⟩ := eval_add_some heval
    have hxa := nanos_eval a ha
    have hyb := nanos_eval b hb
    refine ⟨⟨x, ha, hx, hxa⟩, ⟨y, hb, hy, hyb⟩, ?_⟩
    rw [← hxa, ← hyb, Timespec.nanos_emod hx, Timespec.nanos_emod hy, ← timespecAdd_sound_iff hx hy]
    exact ⟨r, hadd, hnorm, by rw [hvalue, hxa, hyb]; rfl⟩
  · rintro ⟨⟨x, ha, hx, hxa⟩, ⟨y, hb, hy, hyb⟩, hexact⟩
    rw [← hxa, ← hyb, Timespec.nanos_emod hx, Timespec.nanos_emod hy,
      ← timespecAdd_sound_iff hx hy] at hexact
    obtain ⟨r, hadd, hnorm, hvalue⟩ := hexact
    refine ⟨r, by simp only [eval, ha, hb, Option.bind_some, hadd], hnorm, ?_⟩
    rw [hvalue, hxa, hyb]
    rfl

theorem sound_substract_iff (a b : TimeChain) : (substract a b).Sound ↔ a.Sound ∧ b.Sound := by
  constructor
  · rintro ⟨r, heval, -, -⟩
    obtain ⟨x, y, ha, hb, hx, hy⟩ := eval_substract_some heval
    exact ⟨⟨x, ha, hx, nanos_eval a ha⟩, ⟨y, hb, hy, nanos_eval b hb⟩⟩
  · rintro ⟨⟨x, ha, hx, hxa⟩, ⟨y, hb, hy, hyb⟩⟩
    obtain ⟨r, hsub, hnorm, hvalue⟩ := timespecSubstract_eq hx hy
    refine ⟨r, by simp only [eval, ha, hb, Option.bind_some, hsub, Option.map_some], hnorm, ?_⟩
    rw [hvalue, hxa, hyb]
    rfl

theorem sound_iff (c : TimeChain) : c.Sound ↔ c.NoWholeSecond := by
  induction c with
  | value t => exact iff_of_true (sound_value t) trivial
  | add a b iha ihb => rw [sound_add_iff, iha, ihb, NoWholeSecond]
  | substract a b iha ihb => rw [sound_substract_iff, iha, ihb, NoWholeSecond]

end TimeChain

/-- Subtraction is right, and so is every chain in which no addition ends at a second. -/
theorem timespec_arithmetic_iff (x y : NormalTimespec) (c : TimeChain) :
    ((∃ r, timespecAdd x.1 y.1 = some r ∧ r.Normalised ∧ r.nanos = x.1.nanos + y.1.nanos) ↔
        x.1.tvNsec + y.1.tvNsec ≠ TIME_RESOLUTION) ∧
      (∃ r, timespecSubstract x.1 y.1 = some (r, (x.1.nanos - y.1.nanos).sign) ∧ r.Normalised ∧
        r.nanos = |x.1.nanos - y.1.nanos|) ∧
      (y.1.nanos ≤ x.1.nanos → ∃ r sign, timespecSubstract x.1 y.1 = some (r, sign) ∧
        (timespecAdd r y.1 = some x.1 ↔ ¬(x.1.tvNsec = 0 ∧ 0 < y.1.tvNsec))) ∧
      (c.Sound ↔ c.NoWholeSecond) := by
  refine ⟨?_, ?_, fun h => ?_, c.sound_iff⟩
  · exact timespecAdd_sound_iff x.2 y.2
  · exact timespecSubstract_eq x.2 y.2
  · exact timespecAdd_difference_iff x.2 y.2 h

/-- A difference with a borrow, to which `y` is added again. -/
theorem borrow_and_carry :
    ∃ r sign, timespecSubstract ⟨3, 250000000⟩ ⟨1, 750000000⟩ = some (r, sign) ∧
      timespecAdd r ⟨1, 750000000⟩ = some ⟨3, 250000000⟩ := by
  have hx : (⟨3, 250000000⟩ : Timespec).Normalised := by decide
  have hy : (⟨1, 750000000⟩ : Timespec).Normalised := by decide
  have hle : (⟨1, 750000000⟩ : Timespec).nanos ≤ (⟨3, 250000000⟩ : Timespec).nanos := by decide
  obtain ⟨r, sign, hsub, hback⟩ := (timespec_arithmetic_iff ⟨_, hx⟩ ⟨_, hy⟩
    (.value ⟨_, hx⟩)).2.2.1 hle
  exact ⟨r, sign, hsub, hback.mpr (fun h => absurd h.1 (show (250000000 : Int) ≠ 0 by decide))⟩

/-- Half a second twice. -/
theorem half_second_twice :
    ¬∀ x y : NormalTimespec, ∃ r, timespecAdd x.1 y.1 = some r ∧ r.Normalised ∧ r.nanos = x.1.nanos + y.1.nanos := by
  intro h
  have hhalf : (⟨0, 500000000⟩ : Timespec).Normalised := by decide
  obtain ⟨r, hadd, hnorm, -⟩ := h ⟨_, hhalf⟩ ⟨_, hhalf⟩
  have hsum : timespecAdd ⟨0, 500000000⟩ ⟨0, 500000000⟩ = some ⟨0, 1000000000⟩ := by decide
  obtain rfl := Option.some.inj (hadd.symm.trans hsum)
  exact absurd hnorm (by decide)

end PulseImaging
