import PulseImaging.BitmapExpansion

/-! When `parse_mft` ends: the walk over the attributes of a record. -/

namespace PulseImaging

section Attributes

variable (memory : Nat) (file : VolumeFile) (boot : NtfsBoot) (entry : List Byte)

/-- What is known of the bitmap behind an attribute. -/
def attributeLengths (attType ptr : Nat) (l : BitmapLengths) : BitmapLengths :=
  if attType = 0x30 then nameLengths boot entry ptr
  else if attType = 0x80 ∧ l.fn = ascii "$Bitmap" then dataLengths boot entry ptr l
  else l

/-- The flags of a volume that is not damaged. -/
def SoundVolume (ptr : Nat) : Prop := fieldValue 2 entry (ptr + 0x22) = 0 ∨ fieldValue 2 entry (ptr + 0x22) = 0x4000

/-- What is read of the attribute is in the record, and what is stored in its place. -/
structure AttributeInside (attType ptr : Nat) (l : BitmapLengths) : Prop where
  information : attType = 0x10 → ptr + 0x44 ≤ entry.length
  filename : attType = 0x30 → NameInside memory boot entry ptr
  volume : attType = 0x70 → ptr + 0x24 ≤ entry.length ∧ SoundVolume entry ptr
  data : attType = 0x80 → l.fn = ascii "$Bitmap" → DataInside memory file boot entry ptr l

def AttributeExits (attType ptr : Nat) (l : BitmapLengths) : Prop :=
  (attType = 0x30 ∧ NameExits memory boot entry ptr) ∨
    (attType = 0x70 ∧ ptr + 0x24 ≤ entry.length ∧ ¬ SoundVolume entry ptr) ∨
    (attType = 0x80 ∧ l.fn = ascii "$Bitmap" ∧ DataExits memory file boot entry ptr l)

variable {memory file boot entry} {attType ptr : Nat} {p : BitmapParams}

theorem ntfsInformation_eq_done {p' : BitmapParams} :
    ntfsInformation entry ptr p = .done p' ↔ ptr + 0x44 ≤ entry.length ∧ p = p' := by
  simp only [ntfsInformation, mftField_bind_done, Fate.done.injEq]
  constructor
  · rintro ⟨-, h, rfl⟩
    exact ⟨by omega, rfl⟩
  · rintro ⟨h, rfl⟩
    exact ⟨by omega, by omega, rfl⟩

theorem ntfsInformation_ne_exit : ntfsInformation entry ptr p ≠ .exit := by
  simp only [ntfsInformation, Ne, mftField_bind_exit]
  rintro ⟨-, -, h⟩
  cases h

theorem ntfsVolume_eq_done {p' : BitmapParams} :
    ntfsVolume entry ptr p = .done p' ↔ (ptr + 0x24 ≤ entry.length ∧ SoundVolume entry ptr) ∧
      p = p' := by
  simp only [ntfsVolume, mftField_bind_done, Fate.orExit_eq_done, Fate.done.injEq]
  constructor
  · rintro ⟨-, h, hflags, rfl⟩
    exact ⟨⟨by omega, hflags⟩, rfl⟩
  · rintro ⟨⟨h, hflags⟩, rfl⟩
    exact ⟨by omega, by omega, hflags, rfl⟩

theorem ntfsVolume_eq_exit :
    ntfsVolume entry ptr p = .exit ↔ ptr + 0x24 ≤ entry.length ∧ ¬ SoundVolume entry ptr := by
  simp only [ntfsVolume, mftField_bind_exit, Fate.orExit_eq_exit]
  constructor
  · rintro ⟨-, h, hflags | hdone⟩
    · exact ⟨by omega, hflags⟩
    · cases hdone
  · rintro ⟨h, hflags⟩
    exact ⟨by omega, by omega, .inl hflags⟩

theorem ntfsAttribute_eq_done {p' : BitmapParams}
    (h : ntfsAttribute memory file boot entry attType ptr p = .done p') :
    AttributeInside memory file boot entry attType ptr p.lengths ∧
      p'.lengths = attributeLengths boot entry attType ptr p.lengths := by
  have hfn : p.lengths.fn = p.fn := rfl
  rw [ntfsAttribute] at h
  split at h
  · obtain ⟨hle, rfl⟩ := ntfsInformation_eq_done.mp h
    subst attType
    exact ⟨⟨fun _ => hle, fun h => absurd h (by decide), fun h => absurd h (by decide),
      fun h => absurd h (by decide)⟩, rfl⟩
  · next h10 =>
    split at h
    · subst attType
      obtain ⟨hname, hlengths⟩ := ntfsFilename_eq_done h
      exact ⟨⟨fun h => absurd h h10, fun _ => hname, fun h => absurd h (by decide),
        fun h => absurd h (by decide)⟩, hlengths⟩
    · next h30 =>
      split at h
      · subst attType
        obtain ⟨hvolume, rfl⟩ := ntfsVolume_eq_done.mp h
        exact ⟨⟨fun h => absurd h h10, fun h => absurd h h30, fun _ => hvolume, fun h => absurd h
          (by decide)⟩, rfl⟩
      · next h70 =>
        split at h
        · next h80 =>
          split at h
          · next hname =>
            obtain ⟨hdata, hlengths⟩ := ntfsDatarun_eq_done h
            refine ⟨⟨fun h => absurd h h10, fun h => absurd h h30, fun h => absurd h h70,
              fun _ _ => hdata⟩, ?_⟩
            rw [hlengths, attributeLengths, if_neg h30, if_pos ⟨h80, hfn.trans hname⟩]
          · next hname =>
            obtain rfl := Fate.done.inj h
            refine ⟨⟨fun h => absurd h h10, fun h => absurd h h30, fun h => absurd h h70,
              fun _ hn => absurd hn hname⟩, ?_⟩
            rw [attributeLengths, if_neg h30, if_neg (fun hn => hname (hn.2))]
        · next h80 =>
          obtain rfl := Fate.done.inj h
          refine ⟨⟨fun h => absurd h h10, fun h => absurd h h30, fun h => absurd h h70,
            fun h => absurd h h80⟩, ?_⟩
          rw [attributeLengths, if_neg h30, if_neg (fun hn => h80 hn.1)]

theorem ntfsAttribute_done (h : AttributeInside memory file boot entry attType ptr p.lengths) :
    ∃ p', ntfsAttribute memory file boot entry attType ptr p = .done p' := by
  rw [ntfsAttribute]
  split
  · next h10 => exact ⟨p, ntfsInformation_eq_done.mpr ⟨h.information h10, rfl⟩⟩
  · split
    · next h30 => exact ntfsFilename_done (h.filename h30)
    · split
      · next h70 => exact ⟨p, ntfsVolume_eq_done.mpr ⟨h.volume h70, rfl⟩⟩
      · split
        · next h80 =>
          split
          · next hname => exact ntfsDatarun_done (h.data h80 hname)
          · exact ⟨p, rfl⟩
        · exact ⟨p, rfl⟩

theorem ntfsAttribute_eq_exit : ntfsAttribute memory file boot entry attType ptr p = .exit ↔
    AttributeExits memory file boot entry attType ptr p.lengths := by
  have hfn : p.lengths.fn = p.fn := rfl
  rw [ntfsAttribute, AttributeExits, hfn]
  by_cases h10 : attType = 0x10
  · subst attType
    rw [if_pos rfl]
    exact iff_of_false ntfsInformation_ne_exit (by simp)
  · rw [if_neg h10]
    by_cases h30 : attType = 0x30
    · subst attType
      rw [if_pos rfl, ntfsFilename_eq_exit]
      simp
    · rw [if_neg h30]
      by_cases h70 : attType = 0x70
      · subst attType
        rw [if_pos rfl, ntfsVolume_eq_exit]
        simp
      · rw [if_neg h70]
        by_cases h80 : attType = 0x80
        · subst attType
          rw [if_pos rfl]
          by_cases hname : p.fn = ascii "$Bitmap"
          · rw [if_pos hname, ntfsDatarun_eq_exit]
            simp [hname]
          · rw [if_neg hname]
            exact iff_of_false (fun h => by cases h) (by simp [hname])
        · rw [if_neg h80]
          exact iff_of_false (fun h => by cases h) (by simp [h30, h70, h80])

end Attributes

/-! ### The walk -/

/-- Where the walk is, and what is known of the bitmap. -/
structure MftView where
  ptr : Nat
  lengths : BitmapLengths

def MftScan.view (s : MftScan) : MftView := ⟨s.ptr, s.p.lengths⟩

section Walk

variable (memory : Nat) (file : VolumeFile) (boot : NtfsBoot) (entry : List Byte)

def MftView.attType (v : MftView) : Nat := fieldValue 4 entry v.ptr

/-- The attribute that follows by the length that this one gives. -/
def MftView.next (v : MftView) : MftView :=
  ⟨(v.ptr + fieldValue 4 entry (v.ptr + 4)) % 2 ^ 32, attributeLengths boot entry (v.attType entry) v.ptr v.lengths⟩

/-- The walk is behind the record. -/
def MftView.Behind (v : MftView) : Prop := 1024 ≤ v.ptr ∧ v.ptr < 2 ^ 31

def MftView.AtEnd (v : MftView) : Prop :=
  v.Behind ∨ v.ptr + 4 ≤ entry.length ∧ v.attType entry = 0xFFFFFFFF

/-- An attribute whose type and length are in the record. -/
structure MftView.AtAttribute (v : MftView) : Prop where
  before : ¬ v.Behind
  header : v.ptr + 8 ≤ entry.length
  attType : v.attType entry ≠ 0xFFFFFFFF

def MftView.Inside (v : MftView) : Prop :=
  v.AtAttribute entry ∧ AttributeInside memory file boot entry (v.attType entry) v.ptr v.lengths

def MftView.Exits (v : MftView) : Prop :=
  v.AtAttribute entry ∧ AttributeExits memory file boot entry (v.attType entry) v.ptr v.lengths

variable {memory file boot entry}

theorem mftTurn_of_attribute {s : MftScan} (h : s.view.AtAttribute entry) :
    mftTurn memory file boot entry s =
    (ntfsAttribute memory file boot entry (s.view.attType entry) s.ptr s.p).bind (fun p =>
      .done (.inl ⟨(s.ptr + fieldValue 4 entry (s.ptr + 4)) % 2 ^ 32, p⟩)) := by
  have hheader : s.ptr + 8 ≤ entry.length := h.header
  have htype : mftField 4 entry s.ptr = .done (s.view.attType entry) :=
    mftField_eq_done.mpr ⟨by omega, rfl⟩
  have hlength : mftField 4 entry (s.ptr + 4) = .done (fieldValue 4 entry (s.ptr + 4)) :=
    mftField_eq_done.mpr ⟨by omega, rfl⟩
  have hbehind : ¬ (1024 ≤ s.ptr ∧ s.ptr < 2 ^ 31) := h.before
  rw [mftTurn, if_neg hbehind, htype, Fate.bind_done, if_neg h.attType, parseAttr, hlength]
  rfl

/-- A turn that does not end in a fault is at the end or at an attribute. -/
theorem mftTurn_cases {s : MftScan} (h : mftTurn memory file boot entry s ≠ .fault) :
    s.view.AtEnd entry ∨ s.view.AtAttribute entry := by
  by_cases hbehind : s.view.Behind
  · exact .inl (.inl hbehind)
  · have hbehind' : ¬ (1024 ≤ s.ptr ∧ s.ptr < 2 ^ 31) := hbehind
    by_cases hheader : s.ptr + 4 ≤ entry.length
    · have htype : mftField 4 entry s.ptr = .done (s.view.attType entry) :=
        mftField_eq_done.mpr ⟨hheader, rfl⟩
      by_cases hend : s.view.attType entry = 0xFFFFFFFF
      · exact .inl (.inr ⟨hheader, hend⟩)
      · refine .inr ⟨hbehind, ?_, hend⟩
        by_contra hlength
        have hnone : mftField 4 entry (s.ptr + 4) = .fault := by
          rw [mftField, numberAt, if_neg (fun hle => hlength
            (show s.ptr + 8 ≤ entry.length by omega))]
          rfl
        refine h ?_
        rw [mftTurn, if_neg hbehind', htype, Fate.bind_done, if_neg hend, parseAttr, hnone]
        rfl
    · refine absurd ?_ h
      rw [mftTurn, if_neg hbehind', mftField, numberAt, if_neg hheader]
      rfl

theorem mftTurn_of_end {s : MftScan} (h : s.view.AtEnd entry) :
    mftTurn memory file boot entry s = .done (.inr s.p) := by
  rw [mftTurn]
  by_cases hbehind : 1024 ≤ s.ptr ∧ s.ptr < 2 ^ 31
  · rw [if_pos hbehind]
  · obtain ⟨hheader, hend⟩ := h.resolve_left hbehind
    have htype : mftField 4 entry s.ptr = .done (s.view.attType entry) :=
      mftField_eq_done.mpr ⟨hheader, rfl⟩
    rw [if_neg hbehind, htype, Fate.bind_done, if_pos hend]

theorem mftTurn_goesOn {s s' : MftScan} (h : mftTurn memory file boot entry s = .done (.inl s')) :
    s.view.Inside memory file boot entry ∧ s'.view = s.view.next boot entry := by
  rcases mftTurn_cases (by rw [h]; simp) with hend | hattr
  · rw [mftTurn_of_end hend] at h
    cases h
  · rw [mftTurn_of_attribute hattr] at h
    obtain ⟨p', hp', hdone⟩ := Fate.bind_eq_done.mp h
    obtain ⟨hinside, hlengths⟩ := ntfsAttribute_eq_done hp'
    cases hdone
    refine ⟨⟨hattr, hinside⟩, ?_⟩
    rw [MftScan.view, hlengths]
    rfl

theorem mftTurn_view (memory : Nat) (file : VolumeFile) (boot : NtfsBoot) (entry : List Byte) :
    View (GoesOn (mftTurn memory file boot entry)) MftScan.view (MftView.next boot entry)
      (MftView.Inside memory file boot entry) := by
  refine ⟨mftTurn_goesOn, fun {s} h => ?_⟩
  obtain ⟨p', hp'⟩ := ntfsAttribute_done h.2
  refine ⟨⟨(s.ptr + fieldValue 4 entry (s.ptr + 4)) % 2 ^ 32, p'⟩, ?_⟩
  rw [GoesOn, mftTurn_of_attribute h.1]
  exact Fate.bind_eq_done.mpr ⟨p', hp', rfl⟩

theorem mftTurn_eq_exit {s : MftScan} :
    mftTurn memory file boot entry s = .exit ↔ s.view.Exits memory file boot entry := by
  constructor
  · intro h
    rcases mftTurn_cases (by rw [h]; simp) with hend | hattr
    · rw [mftTurn_of_end hend] at h
      cases h
    · rw [mftTurn_of_attribute hattr] at h
      rcases Fate.bind_eq_exit.mp h with h | ⟨p', -, h⟩
      · exact ⟨hattr, ntfsAttribute_eq_exit.mp h⟩
      · cases h
  · rintro ⟨hattr, hexits⟩
    rw [mftTurn_of_attribute hattr]
    exact Fate.bind_eq_exit.mpr (.inl (ntfsAttribute_eq_exit.mpr hexits))

theorem mftTurn_leaves {s : MftScan} :
    (∃ p', mftTurn memory file boot entry s = .done (.inr p')) ↔ s.view.AtEnd entry := by
  constructor
  · rintro ⟨p', h⟩
    rcases mftTurn_cases (by rw [h]; simp) with hend | hattr
    · exact hend
    · rw [mftTurn_of_attribute hattr] at h
      obtain ⟨p₁, -, hdone⟩ := Fate.bind_eq_done.mp h
      cases hdone
  · exact fun h => ⟨s.p, mftTurn_of_end h⟩

end Walk

/-- `parse_mft` ends, without an access outside, when the walk over the attributes leads to an end of the record or
to an exit, over attributes that are inside. -/
theorem mft_ends_iff (memory : Nat) (file : VolumeFile) (boot : NtfsBoot) (entry : List Byte) (p : BitmapParams) :
    (∃ fuel, (∃ p', mftRun fuel memory file boot entry p = .done p') ∨ mftRun fuel memory file boot entry p = .exit) ↔
      ∃ n, (∀ i < n, ((MftView.next boot entry)^[i] ⟨firstAttribute entry, p.lengths⟩).Inside memory file boot entry) ∧
        (((MftView.next boot entry)^[n] ⟨firstAttribute entry, p.lengths⟩).AtEnd entry ∨
          ((MftView.next boot entry)^[n] ⟨firstAttribute entry, p.lengths⟩).Exits memory file boot entry) := by
  have hsteps (n : Nat) := (mftTurn_view memory file boot entry).steps_iff n ⟨firstAttribute entry, p⟩
    (fun v => v.AtEnd entry ∨ v.Exits memory file boot entry)
  simp only [MftScan.view] at hsteps
  simp only [← hsteps]
  constructor
  · rintro ⟨fuel, ⟨p', h⟩ | h⟩
    · obtain ⟨n, -, s, hs, hlast⟩ := (Fate.iterate_iff (by simp) fuel _).mp h
      exact ⟨n, s, hs, .inl (mftTurn_leaves.mp ⟨p', Fate.leave_eq_done.mp hlast⟩)⟩
    · obtain ⟨n, -, s, hs, hlast⟩ := (Fate.iterate_iff (by simp) fuel _).mp h
      exact ⟨n, s, hs, .inr (mftTurn_eq_exit.mp (Fate.leave_eq_exit.mp hlast))⟩
  · rintro ⟨n, s, hs, hend | hexits⟩
    · obtain ⟨p', hp'⟩ := mftTurn_leaves.mpr hend
      exact ⟨n + 1, .inl ⟨p', (Fate.iterate_iff (by simp) _ _).mpr
        ⟨n, Nat.lt_succ_self n, s, hs, Fate.leave_eq_done.mpr hp'⟩⟩⟩
    · exact ⟨n + 1, .inr ((Fate.iterate_iff (by simp) _ _).mpr
        ⟨n, Nat.lt_succ_self n, s, hs, Fate.leave_eq_exit.mpr (mftTurn_eq_exit.mpr hexits)⟩)⟩

/-! ### An empty record -/

theorem fieldValue_zeros (n k off : Nat) : fieldValue n (List.replicate k 0) off = 0 := by
  rw [fieldValue, List.drop_replicate, List.take_replicate]
  generalize min n (k - off) = m
  induction m with
  | zero => rfl
  | succ m ih => rw [List.replicate_succ, leValue_cons, ih]; rfl

theorem firstAttribute_zeros : firstAttribute (List.replicate 1024 0) = 0x30 := by
  rw [firstAttribute, if_neg]
  rintro ⟨h, -⟩
  rw [List.getElem?_replicate, if_pos (by decide)] at h
  exact absurd (Option.some.inj h) (by decide)

/-- The length of the first attribute is 0. -/
theorem empty_record_endless : ¬ ∀ memory file boot entry p, entry.length = 1024 →
    ∃ fuel, (∃ p', mftRun fuel memory file boot entry p = .done p') ∨ mftRun fuel memory file boot entry p = .exit := by
  intro h
  have hturn : mftTurn 0 smallVolume smallBoot (List.replicate 1024 0) ⟨0x30, ⟨0, 0, [], []⟩⟩ =
      .done (.inl ⟨0x30, ⟨0, 0, [], []⟩⟩) := by
    have hattr : (MftScan.view ⟨0x30, ⟨0, 0, [], []⟩⟩).AtAttribute (List.replicate 1024 0) :=
      ⟨fun h => absurd h.1 (by decide), by rw [List.length_replicate]; decide, by
        rw [MftView.attType, fieldValue_zeros]
        decide⟩
    rw [mftTurn_of_attribute hattr, MftView.attType, fieldValue_zeros, fieldValue_zeros]
    rfl
  obtain ⟨fuel, h⟩ := h 0 smallVolume smallBoot (List.replicate 1024 0) ⟨0, 0, [], []⟩
    (by rw [List.length_replicate])
  rw [mftRun, firstAttribute_zeros, Fate.iterate_of_stays hturn] at h
  rcases h with ⟨p', h⟩ | h
  · cases h
  · cases h

end PulseImaging
