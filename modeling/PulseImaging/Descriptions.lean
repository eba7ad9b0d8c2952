import PulseImaging.MenuEntries

/-! The description on the screen and the entry that is highlighted. The
description is looked up by the row, and every description of the file counts. -/

namespace PulseImaging

/-- The same as it is stored. -/
def MenuBlock.kept (b : MenuBlock) (n : Nat) : List Byte :=
  ((b.descs.head?).map Prod.snd).getD (cstr (noDescription n))

/-- A key that moves the highlight. -/
def Menu.arrow (m : Menu) (up : Bool) : Menu := if up then m.up else m.down

def Menu.arrows (m : Menu) (keys : List Bool) : Menu := keys.foldl Menu.arrow m

/-! ### The highlight -/

/-- The screen shows the description of the row. -/
structure Menu.Tracks (m : Menu) : Prop where
  row : m.entryno < 12
  shown : m.shown = (cstr (getEntry false m.descEntries m.entryno)).take 59

/-- In the machine the arrow keys do this to the menu that is displayed. -/
theorem run_arrows {s : MenuState} {m : Menu} (hs : s.point = .display m) (keys : List Bool) :
    ∃ t, s.run (keys.map fun up => .key (if up then .up else .down)) = some t ∧
      t.point = .display (m.arrows keys) := by
  induction keys generalizing s m with
  | nil => exact ⟨s, rfl, hs⟩
  | cons key keys ih =>
    have hpoint : ∃ t, s.step (.key (if key then .up else .down)) = some t ∧
        t.point = .display (m.arrow key) := by
      obtain ⟨point, globals, passed⟩ := s
      cases hs
      cases key with
      | true => exact ⟨_, rfl, rfl⟩
      | false => exact ⟨_, rfl, rfl⟩
    obtain ⟨t, hstep, ht⟩ := hpoint
    obtain ⟨u, hrun, hu⟩ := ih ht
    exact ⟨u, by rw [List.map_cons, MenuState.run, hstep]; exact hrun, hu⟩

/-- The highlight stays on an entry. -/
theorem arrows_in_range {m : Menu} (h : m.firstEntry + m.entryno < m.numEntries) (keys : List Bool) :
    (m.arrows keys).firstEntry + (m.arrows keys).entryno < m.numEntries := by
  induction keys generalizing m with
  | nil => exact h
  | cons key keys ih =>
    have hstep : (m.arrow key).firstEntry + (m.arrow key).entryno < m.numEntries ∧
        (m.arrow key).numEntries = m.numEntries := by
      cases key with
      | true =>
        simp only [Menu.arrow, if_true, Menu.up, Menu.showDesc, Menu.printEntries]
        split
        · exact ⟨by simp only; omega, rfl⟩
        · split
          · split <;> exact ⟨by simp only; omega, rfl⟩
          · exact ⟨h, rfl⟩
      | false =>
        simp only [Menu.arrow, Bool.false_eq_true, if_false, Menu.down, Menu.showDesc,
          Menu.printEntries]
        split
        · split
          · exact ⟨by simp only; omega, rfl⟩
          · split
            · split <;> exact ⟨by simp only; omega, rfl⟩
            · exact ⟨h, rfl⟩
        · exact ⟨h, rfl⟩
    have hnext := ih (hstep.2 ▸ hstep.1)
    rw [hstep.2] at hnext
    exact hnext

/-! ### The descriptions of the file -/

/-- No string of the file has a zero in it. -/
def MenuFile.Clean (F : MenuFile) : Prop :=
  (∀ d ∈ F.descs, 0 ∉ d.2) ∧ ∀ b ∈ F.blocks, 0 ∉ b.title ∧ ∀ d ∈ b.descs, 0 ∉ d.2

section

variable {F : MenuFile} {b : MenuBlock} {e : Nat}

end

section

variable {g : MenuGlobals} {file : List Byte} {prompts : List Prompt} {top rest : List (List Byte)} {c : MenuConfig}

end

end PulseImaging
