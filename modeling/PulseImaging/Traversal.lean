import PulseImaging.Fate

/-! Walks that take items into a state one after the other, over lists and over trees. -/

namespace PulseImaging

variable {σ α β γ : Type}

/-! ### Items that are taken into a state -/

/-- `f` ends as `x` does and takes what `x` gives. -/
def Fate.Takes (put : σ → γ → σ) (f : σ → Fate σ) (x : Fate (List γ)) : Prop :=
  ∀ s, f s = x.bind (fun cs => .done (cs.foldl put s))

theorem Fate.Takes.list (put : σ → γ → σ) (cs : List γ) :
    Fate.Takes put (fun s => .done (cs.foldl put s)) (.done cs) := fun _ => rfl

theorem Fate.Takes.bind {put : σ → γ → σ} {f : α → σ → Fate σ} {x : α → Fate (List γ)}
    (y : Fate α) (h : ∀ a, Fate.Takes put (f a) (x a)) :
    Fate.Takes put (fun s => y.bind (fun a => f a s)) (y.bind x) := by
  intro s
  rw [Fate.bind_assoc]
  exact congrArg _ (funext (fun a => h a s))

theorem Fate.Takes.orExit {put : σ → γ → σ} {f : σ → Fate σ} {x : Fate (List γ)} (c : Prop)
    [Decidable c] (h : Fate.Takes put f x) :
    Fate.Takes put (fun s => .orExit c (f s)) (.orExit c x) := by
  intro s
  by_cases hc : c
  · simpa only [Fate.orExit_pos hc] using h s
  · simp only [Fate.orExit_neg hc, Fate.bind_exit]

theorem Fate.Takes.append {put : σ → γ → σ} {f g : σ → Fate σ} {x y : Fate (List γ)}
    (hf : Fate.Takes put f x) (hg : Fate.Takes put g y) :
    Fate.Takes put (fun s => (f s).bind g)
      (x.bind (fun cs => y.bind (fun ds => .done (cs ++ ds)))) := by
  intro s
  show (f s).bind g = _
  rw [hf s, Fate.bind_assoc, Fate.bind_assoc]
  refine congrArg _ (funext (fun cs => ?_))
  rw [Fate.bind_done, hg, Fate.bind_assoc]
  simp only [Fate.bind_done, List.foldl_append]

theorem Fate.Takes.loop {put : σ → γ → σ} {f : σ → α → Fate σ} {g : α → Fate (List γ)}
    (h : ∀ a, Fate.Takes put (fun s => f s a) (g a)) (l : List α) :
    Fate.Takes put (Fate.loop f l) (Fate.collect g l) := by
  induction l with
  | nil => exact fun _ => rfl
  | cons a l ih => exact (h a).append ih

theorem Fate.collect_done_iff {g : α → Fate (List γ)} {l : List α} :
    (∃ cs, Fate.collect g l = .done cs) ↔ ∀ a ∈ l, ∃ cs, g a = .done cs :=
  ⟨fun ⟨_, h⟩ => (Fate.collect_eq_done h).1, Fate.collect_done⟩

/-! ### Trees -/

/-- The items of the leaves. The nodes of level 0 are the leaves, `kid b k` for `k` below the width are below
`b`. -/
def Fate.walk (leaf : β → Fate (List γ)) (width : β → Fate Nat) (kid : β → Nat → Fate β) : Nat → β → Fate (List γ)
  | 0, b => leaf b
  | level + 1, b =>
    (width b).bind (fun n =>
      Fate.collect (fun k => (kid b k).bind (Fate.walk leaf width kid level)) (List.range n))

/-- The nodes of the tree under a root, with their levels. -/
inductive Under (width : β → Fate Nat) (kid : β → Nat → Fate β) : Nat → β → Nat → β → Prop
  | root (level : Nat) (b : β) : Under width kid level b level b
  | down {level level' n k : Nat} {b c d : β} (hwidth : width b = .done n) (hk : k < n) (hkid : kid b k = .done c)
      (h : Under width kid level c level' d) : Under width kid (level + 1) b level' d

/-- The walk passes the node. -/
def Passes (leaf : β → Fate (List γ)) (width : β → Fate Nat) (kid : β → Nat → Fate β) : Nat → β → Prop
  | 0, b => ∃ cs, leaf b = .done cs
  | _ + 1, b => ∃ n, width b = .done n ∧ ∀ k < n, ∃ c, kid b k = .done c

variable {leaf : β → Fate (List γ)} {width : β → Fate Nat} {kid : β → Nat → Fate β}

/-- A walk ends when it passes every node. -/
theorem Fate.walk_done_iff (level : Nat) (b : β) :
    (∃ cs, Fate.walk leaf width kid level b = .done cs) ↔
      ∀ level' c, Under width kid level b level' c → Passes leaf width kid level' c := by
  induction level generalizing b with
  | zero =>
    constructor
    · rintro h level' c ⟨⟩
      exact h
    · exact fun h => h 0 b (.root 0 b)
  | succ level ih =>
    rw [Fate.walk]
    constructor
    · rintro ⟨cs, hcs⟩ level' c hunder
      obtain ⟨n, hn, hcs⟩ := Fate.bind_eq_done.mp hcs
      have hkids : ∀ k < n, ∃ c, kid b k = .done c ∧
          ∃ cs, Fate.walk leaf width kid level c = .done cs := by
        intro k hk
        obtain ⟨cs, hcs⟩ := Fate.collect_done_iff.mp ⟨cs, hcs⟩ k (List.mem_range.mpr hk)
        obtain ⟨c, hc, hcs⟩ := Fate.bind_eq_done.mp hcs
        exact ⟨c, hc, cs, hcs⟩
      cases hunder with
      | root =>
        refine ⟨n, hn, fun k hk => ?_⟩
        obtain ⟨c, hc, -⟩ := hkids k hk
        exact ⟨c, hc⟩
      | down hwidth hk hkid hunder =>
        cases hn.symm.trans hwidth
        obtain ⟨c', hc', hwalk⟩ := hkids _ hk
        cases hkid.symm.trans hc'
        exact (ih _).mp hwalk level' c hunder
    · intro h
      obtain ⟨n, hn, hkids⟩ := h (level + 1) b (.root _ b)
      rw [hn, Fate.bind_done, Fate.collect_done_iff]
      intro k hk
      have hk := List.mem_range.mp hk
      obtain ⟨c, hc⟩ := hkids k hk
      obtain ⟨cs, hcs⟩ := (ih c).mpr (fun level' d hd => h level' d (.down hn hk hc hd))
      exact ⟨cs, by rw [hc, Fate.bind_done, hcs]⟩

/-- The items are those of the leaves. -/
theorem Fate.mem_walk {level : Nat} {b : β} {cs : List γ}
    (h : Fate.walk leaf width kid level b = .done cs) (x : γ) :
    x ∈ cs ↔ ∃ c, Under width kid level b 0 c ∧ ∃ ds, leaf c = .done ds ∧ x ∈ ds := by
  induction level generalizing b cs with
  | zero =>
    constructor
    · exact fun hx => ⟨b, .root 0 b, cs, h, hx⟩
    · rintro ⟨c, ⟨⟩, ds, hds, hx⟩
      cases h.symm.trans hds
      exact hx
  | succ level ih =>
    obtain ⟨n, hn, h⟩ := Fate.bind_eq_done.mp h
    rw [(Fate.collect_eq_done h).2 x]
    constructor
    · rintro ⟨k, hk, ds, hds, hx⟩
      obtain ⟨c, hc, hds⟩ := Fate.bind_eq_done.mp hds
      obtain ⟨d, hd, hitem⟩ := (ih hds).mp hx
      exact ⟨d, .down hn (List.mem_range.mp hk) hc hd, hitem⟩
    · rintro ⟨d, hunder, hitem⟩
      cases hunder with
      | @down _ _ _ k _ c _ hwidth hk hkid hunder =>
        cases hn.symm.trans hwidth
        obtain ⟨ds, hds⟩ := (Fate.collect_eq_done h).1 k (List.mem_range.mpr hk)
        have hwalk : Fate.walk leaf width kid level c = .done ds := by
          rwa [hkid, Fate.bind_done] at hds
        exact ⟨k, List.mem_range.mpr hk, ds, hds, (ih hwalk).mpr ⟨d, hunder, hitem⟩⟩

end PulseImaging
