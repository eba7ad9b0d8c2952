import Mathlib.Logic.Basic

/-! The ways in which a call may end, and the loops of such calls. -/

namespace PulseImaging

/-- A call returns, the program exits, memory that does not belong to it is accessed, or a loop
needs more fuel. -/
inductive Fate (α : Type) where
  | done (a : α)
  | exit
  | fault
  | more
  deriving DecidableEq, Repr

variable {α β γ : Type}

def Fate.bind : Fate α → (α → Fate β) → Fate β
  | .done a, f => f a
  | .exit, _ => .exit
  | .fault, _ => .fault
  | .more, _ => .more

/-- What is not there is outside. -/
def Fate.ofAccess : Option α → Fate α
  | some a => .done a
  | none => .fault

/-- The error exit of a test. -/
def Fate.orExit (c : Prop) [Decidable c] (x : Fate α) : Fate α := if c then x else .exit

@[simp] theorem Fate.bind_done (a : α) (f : α → Fate β) : (Fate.done a).bind f = f a := rfl

@[simp] theorem Fate.bind_exit (f : α → Fate β) : Fate.exit.bind f = .exit := rfl

@[simp] theorem Fate.bind_fault (f : α → Fate β) : Fate.fault.bind f = .fault := rfl

@[simp] theorem Fate.bind_more (f : α → Fate β) : Fate.more.bind f = .more := rfl

@[simp] theorem Fate.ofAccess_some (a : α) : Fate.ofAccess (some a) = .done a := rfl

@[simp] theorem Fate.ofAccess_none : Fate.ofAccess (none : Option α) = .fault := rfl

theorem Fate.ofAccess_eq_done {o : Option α} {a : α} : Fate.ofAccess o = .done a ↔ o = some a := by
  cases o <;> simp [Fate.ofAccess]

theorem Fate.ofAccess_ne_exit (o : Option α) : Fate.ofAccess o ≠ .exit := by
  cases o <;> simp [Fate.ofAccess]

theorem Fate.orExit_pos {c : Prop} [Decidable c] (h : c) (x : Fate α) :
    Fate.orExit c x = x := if_pos h

theorem Fate.orExit_neg {c : Prop} [Decidable c] (h : ¬ c) (x : Fate α) :
    Fate.orExit c x = .exit := if_neg h

theorem Fate.bind_assoc (x : Fate α) (f : α → Fate β) (g : β → Fate γ) :
    (x.bind f).bind g = x.bind (fun a => (f a).bind g) := by
  cases x <;> rfl

theorem Fate.bind_eq_done {x : Fate α} {f : α → Fate β} {b : β} :
    x.bind f = .done b ↔ ∃ a, x = .done a ∧ f a = .done b := by
  cases x <;> simp

theorem Fate.bind_eq_exit {x : Fate α} {f : α → Fate β} :
    x.bind f = .exit ↔ x = .exit ∨ ∃ a, x = .done a ∧ f a = .exit := by
  cases x <;> simp

theorem Fate.orExit_eq_exit {c : Prop} [Decidable c] {x : Fate α} :
    Fate.orExit c x = .exit ↔ ¬ c ∨ x = .exit := by
  by_cases h : c <;> simp [Fate.orExit, h]

theorem Fate.orExit_eq_done {c : Prop} [Decidable c] {x : Fate α} {a : α} :
    Fate.orExit c x = .done a ↔ c ∧ x = .done a := by
  by_cases h : c <;> simp [Fate.orExit, h]

/-- A loop over `l` that hands `b` on. -/
def Fate.loop (f : β → α → Fate β) : List α → β → Fate β
  | [], b => .done b
  | a :: l, b => (f b a).bind (Fate.loop f l)

theorem Fate.loop_append (f : β → α → Fate β) (l m : List α) (b : β) :
    Fate.loop f (l ++ m) b = (Fate.loop f l b).bind (Fate.loop f m) := by
  induction l generalizing b with
  | nil => rfl
  | cons a l ih =>
    rw [List.cons_append, Fate.loop, Fate.loop, Fate.bind_assoc]
    exact congrArg _ (funext ih)

theorem Fate.loop_map (f : β → α → Fate β) (g : γ → α) (l : List γ) (b : β) :
    Fate.loop f (l.map g) b = Fate.loop (fun b c => f b (g c)) l b := by
  induction l generalizing b with
  | nil => rfl
  | cons c l ih =>
    rw [List.map_cons, Fate.loop, Fate.loop]
    exact congrArg _ (funext ih)

/-- The lists that `g` gives, one after the other. -/
def Fate.collect (g : α → Fate (List β)) : List α → Fate (List β)
  | [] => .done []
  | a :: l => (g a).bind (fun bs => (Fate.collect g l).bind (fun cs => .done (bs ++ cs)))

theorem Fate.collect_eq_done {g : α → Fate (List β)} {l : List α} {bs : List β}
    (h : Fate.collect g l = .done bs) :
    (∀ a ∈ l, ∃ cs, g a = .done cs) ∧ ∀ b, b ∈ bs ↔ ∃ a ∈ l, ∃ cs, g a = .done cs ∧ b ∈ cs := by
  induction l generalizing bs with
  | nil =>
    cases h
    simp
  | cons a l ih =>
    obtain ⟨cs, hcs, h⟩ := Fate.bind_eq_done.mp h
    obtain ⟨ds, hds, h⟩ := Fate.bind_eq_done.mp h
    cases h
    obtain ⟨hall, hmem⟩ := ih hds
    exact ⟨List.forall_mem_cons.mpr ⟨⟨cs, hcs⟩, hall⟩, fun b => by simp [hmem, hcs]⟩

theorem Fate.collect_done {g : α → Fate (List β)} {l : List α} (h : ∀ a ∈ l, ∃ cs, g a = .done cs) :
    ∃ bs, Fate.collect g l = .done bs := by
  induction l with
  | nil => exact ⟨[], rfl⟩
  | cons a l ih =>
    obtain ⟨cs, hcs⟩ := h a List.mem_cons_self
    obtain ⟨ds, hds⟩ := ih (fun b hb => h b (List.mem_cons_of_mem _ hb))
    exact ⟨cs ++ ds, by rw [Fate.collect, hcs, Fate.bind_done, hds, Fate.bind_done]⟩

end PulseImaging
