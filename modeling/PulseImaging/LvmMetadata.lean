import PulseImaging.Lvm

/-! What `lvm_check` finds in a metadata text: the first line that fits, behind the first line that
fits before it, whatever the blocks. -/

namespace PulseImaging

/-! ### Searching -/

/-- The first place from `k` on at which `P` holds. -/
structure FirstFrom (P : Nat → Prop) (k i : Nat) : Prop where
  le : k ≤ i
  holds : P i
  first : ∀ j, k ≤ j → j < i → ¬ P j

theorem FirstFrom.le_of_holds {P : Nat → Prop} {k i j : Nat} (h : FirstFrom P k i) (hk : k ≤ j)
    (hj : P j) : i ≤ j := by
  by_contra hlt
  exact h.first j hk (by omega) hj

theorem FirstFrom.unique {P : Nat → Prop} {k i j : Nat} (h : FirstFrom P k i)
    (h' : FirstFrom P k j) : i = j :=
  le_antisymm (h.le_of_holds h'.le h'.holds) (h'.le_of_holds h.le h.holds)

/-! ### The lines of the text -/

/-- The line buffer and the rest of the file after `i + 1` lines were read. -/
def lvmRead (old text : List Byte) : Nat → List Byte × List Byte
  | 0 => lvmLine old text
  | i + 1 => lvmLine (lvmRead old text i).1 (lvmRead old text i).2

/-- Line `i`. The last line comes again and again. -/
def lineAt (old text : List Byte) (i : Nat) : List Byte := cstr (lvmRead old text i).1

/-- A line counts one opening and one closing brace at most. -/
def lineLevel (line : List Byte) : Int := (if hasText "\x7b" line then 1 else 0) - (if hasText "\x7d" line then 1 else 0)

def levelAt (line : Nat → List Byte) : Nat → Int
  | 0 => lineLevel (line 0)
  | i + 1 => levelAt line i + lineLevel (line (i + 1))

def matchesUuid (pvuuid line : List Byte) : Bool := (scanUuid line).any (uuidCompare 32 pvuuid)

/-- The line `i` is found, with the number `n`. -/
structure LvmLine (line : Nat → List Byte) (pvuuid : List Byte) (i : Nat) (n : Int) : Prop where
  search : ∃ i₀ i₁, FirstFrom (fun j => hasText "physical_volumes" (line j) = true) 0 i₀ ∧
    FirstFrom (fun j => matchesUuid pvuuid (line j) = true) (i₀ + 1) i₁ ∧
    FirstFrom (fun j => (scanPeStart (line j)).isSome = true) (i₁ + 1) i
  number : scanPeStart (line i) = some n

theorem LvmLine.unique {line : Nat → List Byte} {pvuuid : List Byte} {i j : Nat} {n m : Int}
    (h : LvmLine line pvuuid i n) (h' : LvmLine line pvuuid j m) : i = j ∧ n = m := by
  obtain ⟨i₀, i₁, hi₀, hi₁, hi⟩ := h.search
  obtain ⟨j₀, j₁, hj₀, hj₁, hj⟩ := h'.search
  obtain rfl := hi₀.unique hj₀
  obtain rfl := hi₁.unique hj₁
  obtain rfl := hi.unique hj
  exact ⟨rfl, Option.some_inj.mp (h.number.symm.trans h'.number)⟩

/-! ### The run -/

def lvmAfter (old pvuuid text : List Byte) : Nat → LvmScan
  | 0 => ⟨old, text, 0, .vg, 0, 0, 0⟩
  | i + 1 => lvmTurn pvuuid (lvmAfter old pvuuid text i)

section Run

variable {old pvuuid text : List Byte}

theorem lvmSwitch_keeps (pvuuid line : List Byte) (s : LvmScan) :
    (lvmSwitch pvuuid line s).b = s.b ∧ (lvmSwitch pvuuid line s).rest = s.rest ∧
      (lvmSwitch pvuuid line s).lev = s.lev := by
  unfold lvmSwitch
  repeat' split
  all_goals exact ⟨rfl, rfl, rfl⟩

theorem lvmTurn_read (pvuuid : List Byte) (s : LvmScan) :
    ((lvmTurn pvuuid s).b, (lvmTurn pvuuid s).rest) = lvmLine s.b s.rest ∧
      (lvmTurn pvuuid s).lev = s.lev + lineLevel (cstr (lvmTurn pvuuid s).b) := by
  obtain ⟨hb, hrest, hlev⟩ := lvmSwitch_keeps pvuuid (cstr (lvmLine s.b s.rest).1)
    { s with
      b := (lvmLine s.b s.rest).1, rest := (lvmLine s.b s.rest).2,
      lev := s.lev + (if hasText "\x7b" (cstr (lvmLine s.b s.rest).1) then 1 else 0) -
        (if hasText "\x7d" (cstr (lvmLine s.b s.rest).1) then 1 else 0) }
  refine ⟨Prod.ext hb hrest, ?_⟩
  rw [lvmTurn, hlev, hb, lineLevel]
  exact Int.add_sub_assoc _ _ _

theorem lvmAfter_read (old pvuuid text : List Byte) (i : Nat) :
    ((lvmAfter old pvuuid text (i + 1)).b, (lvmAfter old pvuuid text (i + 1)).rest) =
      lvmRead old text i := by
  induction i with
  | zero => exact (lvmTurn_read pvuuid _).1
  | succ i ih =>
    have h := (lvmTurn_read pvuuid (lvmAfter old pvuuid text (i + 1))).1
    rw [lvmRead, ← ih]
    exact h

theorem lvmAfter_line (old pvuuid text : List Byte) (i : Nat) :
    cstr (lvmAfter old pvuuid text (i + 1)).b = lineAt old text i :=
  congrArg (fun p => cstr p.1) (lvmAfter_read old pvuuid text i)

theorem lvmAfter_lev (old pvuuid text : List Byte) (i : Nat) :
    (lvmAfter old pvuuid text (i + 1)).lev = levelAt (lineAt old text) i := by
  have hstep (k : Nat) : (lvmAfter old pvuuid text (k + 1)).lev =
      (lvmAfter old pvuuid text k).lev + lineLevel (lineAt old text k) := by
    rw [← lvmAfter_line old pvuuid text]
    exact (lvmTurn_read pvuuid (lvmAfter old pvuuid text k)).2
  induction i with
  | zero =>
    rw [hstep]
    exact Int.zero_add _
  | succ i ih => rw [hstep, ih, levelAt]

/-- What the state says about the first `k` lines. -/
def LvmPhase (line : Nat → List Byte) (pvuuid : List Byte) (k : Nat) (s : LvmScan) : Prop :=
  match s.state with
  | .vg => ∀ j < k, ¬ hasText "physical_volumes" (line j) = true
  | .volumes => ∃ i₀ < k, FirstFrom (fun j => hasText "physical_volumes" (line j) = true) 0 i₀ ∧
      ∀ j, i₀ < j → j < k → ¬ matchesUuid pvuuid (line j) = true
  | .volume => ∃ i₀ i₁, FirstFrom (fun j => hasText "physical_volumes" (line j) = true) 0 i₀ ∧
      FirstFrom (fun j => matchesUuid pvuuid (line j) = true) (i₀ + 1) i₁ ∧ i₁ < k ∧
      ∀ j, i₁ < j → j < k → ¬ (scanPeStart (line j)).isSome = true
  | .found => ∃ i < k, LvmLine line pvuuid i s.offset

theorem lvmSwitch_phase {line : Nat → List Byte} {k : Nat} {s : LvmScan}
    (h : LvmPhase line pvuuid k s) : LvmPhase line pvuuid (k + 1) (lvmSwitch pvuuid (line k) s) := by
  have hlt {j : Nat} (hj : j < k + 1) : j < k ∨ j = k := by omega
  cases hs : s.state with
  | vg =>
    rw [LvmPhase, hs] at h
    rw [lvmSwitch, hs]
    by_cases hpv : hasText "physical_volumes" (line k) = true
    · simp only [LvmPhase, if_pos hpv]
      exact ⟨k, Nat.lt_succ_self k, ⟨Nat.zero_le _, hpv, fun j _ hj => h j hj⟩,
        fun j hj hj' => absurd hj' (by omega)⟩
    · simp only [LvmPhase, if_neg hpv]
      intro j hj
      rcases hlt hj with hj | rfl
      · exact h j hj
      · exact hpv
  | volumes =>
    rw [LvmPhase, hs] at h
    obtain ⟨i₀, hi₀, hfirst, hnone⟩ := h
    by_cases hmatch : matchesUuid pvuuid (line k) = true
    · obtain ⟨uuid, hscan, hcompare⟩ := (Option.any_eq_true _ _).mp hmatch
      simp only [lvmSwitch, hs, hscan, hcompare, if_true, LvmPhase]
      exact ⟨i₀, k, hfirst, ⟨hi₀, hmatch, hnone⟩, Nat.lt_succ_self k,
        fun j hj hj' => absurd hj' (by omega)⟩
    · have hstays : lvmSwitch pvuuid (line k) s = s := by
        rw [lvmSwitch, hs]
        dsimp only
        split
        · next uuid hscan => exact if_neg (fun hcompare => hmatch
            ((Option.any_eq_true _ _).mpr ⟨uuid, hscan, hcompare⟩))
        · rfl
      rw [hstays, LvmPhase, hs]
      refine ⟨i₀, by omega, hfirst, fun j hj hj' => ?_⟩
      rcases hlt hj' with hj' | rfl
      · exact hnone j hj hj'
      · exact hmatch
  | volume =>
    rw [LvmPhase, hs] at h
    obtain ⟨i₀, i₁, hi₀, hi₁, hi, hnone⟩ := h
    cases hscan : scanPeStart (line k) with
    | some n =>
      simp only [lvmSwitch, hs, hscan, LvmPhase]
      exact ⟨k, Nat.lt_succ_self k, ⟨⟨i₀, i₁, hi₀, hi₁, hi, by rw [hscan]; rfl, hnone⟩, hscan⟩⟩
    | none =>
      simp only [lvmSwitch, hs, hscan, LvmPhase]
      refine ⟨i₀, i₁, hi₀, hi₁, by omega, fun j hj hj' => ?_⟩
      rcases hlt hj' with hj' | rfl
      · exact hnone j hj hj'
      · simp [hscan]
  | found =>
    rw [LvmPhase, hs] at h
    obtain ⟨i, hi, hline⟩ := h
    simp only [lvmSwitch, hs, LvmPhase]
    exact ⟨i, by omega, hline⟩

theorem lvmAfter_switch (old pvuuid text : List Byte) (k : Nat) :
    ∃ s, lvmAfter old pvuuid text (k + 1) = lvmSwitch pvuuid (lineAt old text k) s ∧
    s.state = (lvmAfter old pvuuid text k).state ∧
      s.offset = (lvmAfter old pvuuid text k).offset := by
  have hline := lvmAfter_line old pvuuid text k
  rw [lvmAfter, lvmTurn] at hline ⊢
  rw [← hline, (lvmSwitch_keeps pvuuid _ _).1]
  exact ⟨_, rfl, rfl, rfl⟩

theorem lvmAfter_phase (old pvuuid text : List Byte) (k : Nat) :
    LvmPhase (lineAt old text) pvuuid k (lvmAfter old pvuuid text k) := by
  induction k with
  | zero => exact fun j hj => absurd hj (Nat.not_lt_zero j)
  | succ k ih =>
    obtain ⟨s, he, hstate, hoffset⟩ := lvmAfter_switch old pvuuid text k
    rw [he]
    refine lvmSwitch_phase ?_
    rwa [LvmPhase, hstate, hoffset]

/-- The state is -1 behind the line that is searched for. -/
theorem lvmAfter_found_iff (old pvuuid text : List Byte) (k : Nat) (n : Int) :
    (lvmAfter old pvuuid text k).state = .found ∧ (lvmAfter old pvuuid text k).offset = n ↔
      ∃ i < k, LvmLine (lineAt old text) pvuuid i n := by
  have h := lvmAfter_phase old pvuuid text k
  constructor
  · rintro ⟨hs, rfl⟩
    rwa [LvmPhase, hs] at h
  · rintro ⟨i, hi, hline⟩
    obtain ⟨i₀, i₁, hi₀, hi₁, hi₂⟩ := hline.search
    have hle := hi₁.le
    have hle' := hi₂.le
    cases hs : (lvmAfter old pvuuid text k).state with
    | vg =>
      rw [LvmPhase, hs] at h
      exact absurd hi₀.holds (h i₀ (by omega))
    | volumes =>
      rw [LvmPhase, hs] at h
      obtain ⟨j₀, -, hj₀, hnone⟩ := h
      obtain rfl := hi₀.unique hj₀
      exact absurd hi₁.holds (hnone i₁ (by omega) (by omega))
    | volume =>
      rw [LvmPhase, hs] at h
      obtain ⟨j₀, j₁, hj₀, hj₁, -, hnone⟩ := h
      obtain rfl := hi₀.unique hj₀
      obtain rfl := hi₁.unique hj₁
      exact absurd hi₂.holds (hnone i (by omega) hi)
    | found =>
      rw [LvmPhase, hs] at h
      obtain ⟨j, -, hj⟩ := h
      exact ⟨rfl, (hj.unique hline).2⟩

/-! ### The end of the loop -/

theorem lvmLoop_eq_done {fuel k : Nat} {s : LvmScan}
    (h : lvmLoop pvuuid fuel (lvmAfter old pvuuid text k) = .done s) :
    ∃ i, s = lvmAfter old pvuuid text (i + 1) ∧ lvmLeaves s := by
  induction fuel generalizing k with
  | zero => cases h
  | succ fuel ih =>
    rw [lvmLoop, ← lvmAfter] at h
    split at h
    · next hleaves =>
      obtain rfl := Fate.done.inj h
      exact ⟨k, rfl, hleaves⟩
    · exact ih h

theorem lvmLoop_done {k i : Nat} (hk : k ≤ i) (h : lvmLeaves (lvmAfter old pvuuid text (i + 1))) :
    ∃ s, lvmLoop pvuuid (i + 1 - k) (lvmAfter old pvuuid text k) = .done s := by
  obtain ⟨d, rfl⟩ : ∃ d, i = k + d := ⟨i - k, by omega⟩
  induction d generalizing k with
  | zero =>
    refine ⟨lvmAfter old pvuuid text (k + 1), ?_⟩
    rw [show k + 0 + 1 - k = 0 + 1 by omega, lvmLoop, ← lvmAfter]
    exact if_pos h
  | succ d ih =>
    rw [show k + (d + 1) + 1 - k = (k + 1 + d + 1 - (k + 1)) + 1 by omega, lvmLoop, ← lvmAfter]
    by_cases hleaves : lvmLeaves (lvmAfter old pvuuid text (k + 1))
    · exact ⟨_, if_pos hleaves⟩
    · rw [if_neg hleaves]
      exact ih (by omega) (by rwa [show k + 1 + d + 1 = k + (d + 1) + 1 by omega])

/-- The loop is left at a closing brace on level 2, at or behind the line that is searched for. -/
def LvmEnds (line : Nat → List Byte) (pvuuid : List Byte) (n : Int) : Prop :=
  ∃ i, LvmLine line pvuuid i n ∧ ∃ j, i ≤ j ∧ hasText "\x7d" (line j) = true ∧ levelAt line j = 2

theorem lvmLeaves_iff (j : Nat) (n : Int) :
    lvmLeaves (lvmAfter old pvuuid text (j + 1)) ∧ (lvmAfter old pvuuid text (j + 1)).offset = n ↔
      (∃ i ≤ j, LvmLine (lineAt old text) pvuuid i n) ∧ hasText "\x7d" (lineAt old text j) = true ∧
        levelAt (lineAt old text) j = 2 := by
  rw [lvmLeaves, lvmAfter_line, lvmAfter_lev]
  have h := lvmAfter_found_iff old pvuuid text (j + 1) n
  simp only [Nat.lt_succ_iff] at h
  rw [← h]
  tauto

theorem lvm2Meta_eq_done_iff {offset : Int} :
    (∃ fuel lvmSect, lvm2Meta fuel old pvuuid text = .done ⟨offset, lvmSect⟩) ↔
      ∃ n, LvmEnds (lineAt old text) pvuuid n ∧ (n * 512).bmod (2 ^ 64) = offset := by
  constructor
  · rintro ⟨fuel, lvmSect, h⟩
    obtain ⟨s, hs, h⟩ := Fate.bind_eq_done.mp h
    obtain ⟨j, rfl, hleaves⟩ := lvmLoop_eq_done (k := 0) hs
    obtain ⟨⟨i, hij, hline⟩, hclose, hlevel⟩ := (lvmLeaves_iff j _).mp ⟨hleaves, rfl⟩
    rw [if_neg (not_not.mpr hleaves.2.2)] at h
    exact ⟨_, ⟨i, hline, j, hij, hclose, hlevel⟩, congrArg LvmFound.offset (Fate.done.inj h)⟩
  · rintro ⟨n, ⟨i, hline, j, hij, hclose, hlevel⟩, rfl⟩
    obtain ⟨hleaves, -⟩ := (lvmLeaves_iff j n).mpr ⟨⟨i, hij, hline⟩, hclose, hlevel⟩
    obtain ⟨s, hs⟩ := lvmLoop_done (Nat.zero_le j) hleaves
    obtain ⟨j', rfl, hleaves'⟩ := lvmLoop_eq_done hs
    obtain ⟨⟨i', -, hline'⟩, -, -⟩ := (lvmLeaves_iff j' _).mp ⟨hleaves', rfl⟩
    have hmeta : lvm2Meta (j + 1 - 0) old pvuuid text = _ :=
      Fate.bind_eq_done.mpr ⟨_, hs, if_neg (not_not.mpr hleaves'.2.2)⟩
    rw [(hline'.unique hline).2] at hmeta
    exact ⟨_, _, hmeta⟩

end Run

end PulseImaging
