import PulseImaging.NtfsRuns

/-! The attributes of a record by their fields: which of them `parse_mft` gets over, at which it exits, and
what it knows of the bitmap behind them. -/

namespace PulseImaging

def fieldValue (n : Nat) (entry : List Byte) (off : Nat) : Nat := leValue ((entry.drop off).take n)

theorem mftField_eq_done {n ptr v : Nat} {entry : List Byte} :
    mftField n entry ptr = .done v ↔ ptr + n ≤ entry.length ∧ fieldValue n entry ptr = v := by
  rw [mftField, Fate.ofAccess_eq_done, numberAt, Option.ite_none_right_eq_some, Option.some_inj]
  rfl

theorem mftField_ne_exit (n : Nat) (entry : List Byte) (ptr : Nat) : mftField n entry ptr ≠ .exit :=
  Fate.ofAccess_ne_exit _

theorem mftField_bind_done {α : Type} {n ptr : Nat} {entry : List Byte} {f : Nat → Fate α} {a : α} :
    (mftField n entry ptr).bind f = .done a ↔ ptr + n ≤ entry.length ∧
      f (fieldValue n entry ptr) = .done a := by
  simp only [Fate.bind_eq_done, mftField_eq_done]
  constructor
  · rintro ⟨v, ⟨hle, rfl⟩, h⟩
    exact ⟨hle, h⟩
  · rintro ⟨hle, h⟩
    exact ⟨_, ⟨hle, rfl⟩, h⟩

theorem mftField_bind_exit {α : Type} {n ptr : Nat} {entry : List Byte} {f : Nat → Fate α} :
    (mftField n entry ptr).bind f = .exit ↔ ptr + n ≤ entry.length ∧
      f (fieldValue n entry ptr) = .exit := by
  rw [Fate.bind_eq_exit, or_iff_right (mftField_ne_exit n entry ptr)]
  simp only [mftField_eq_done]
  constructor
  · rintro ⟨v, ⟨hle, rfl⟩, h⟩
    exact ⟨hle, h⟩
  · rintro ⟨hle, h⟩
    exact ⟨_, ⟨hle, rfl⟩, h⟩

theorem calloc_eq_some {memory n : Nat} {bitmap : List Byte} :
    calloc memory n = some bitmap ↔ n ≤ memory ∧ List.replicate n 0 = bitmap := by
  rw [calloc, Option.ite_none_right_eq_some, Option.some_inj]

theorem calloc_eq_none {memory n : Nat} : calloc memory n = none ↔ memory < n := by
  rw [calloc, ite_eq_right_iff, ← not_le]
  exact ⟨fun h hle => Option.some_ne_none _ (h hle), fun h hle => absurd hle h⟩

theorem mapM_eq_some {α β : Type} {f : α → Option β} (d : β) {l : List α} {l' : List β} :
    l.mapM f = some l' ↔ (∀ a ∈ l, (f a).isSome = true) ∧ l.map (fun a => (f a).getD d) = l' := by
  induction l generalizing l' with
  | nil => simp
  | cons a l ih =>
    rw [List.mapM_cons, List.forall_mem_cons, List.map_cons]
    cases hf : f a with
    | none => simp
    | some b =>
      have hrest : (some b >>= fun c => l.mapM f >>= fun cs => pure (c :: cs)) =
          (l.mapM f).map (b :: ·) := by
        cases l.mapM f <;> rfl
      rw [hrest, Option.map_eq_some_iff]
      constructor
      · rintro ⟨cs, hcs, rfl⟩
        obtain ⟨hall, rfl⟩ := ih.mp hcs
        exact ⟨⟨rfl, hall⟩, rfl⟩
      · rintro ⟨⟨-, hall⟩, rfl⟩
        exact ⟨_, ih.mpr ⟨hall, rfl⟩, rfl⟩

/-! ### The bitmap's lengths -/

/-- What the attributes leave for those behind them, but for what is in the bitmap. -/
structure BitmapLengths where
  filelg : Nat
  bitmaplg : Nat
  alloc : Nat
  fn : List Byte

def BitmapParams.lengths (p : BitmapParams) : BitmapLengths := ⟨p.filelg, p.bitmaplg, p.bitmap.length, p.fn⟩

section Attributes

variable (memory : Nat) (file : VolumeFile) (boot : NtfsBoot) (entry : List Byte) (ptr : Nat)

/-! ### File names -/

def nameCount : Nat := fieldValue 1 entry (ptr + 0x58)

def nameSize : Nat := fieldValue 8 entry (ptr + 0x40) % 2 ^ 32 * boot.spc % 2 ^ 32

def nameLengths : BitmapLengths :=
  ⟨fieldValue 8 entry (ptr + 0x48), nameSize boot entry ptr, nameSize boot entry ptr,
    cstr ((List.range (nameCount entry ptr)).map (fun i => entry.getD (ptr + 0x5A + 2 * i) 0))⟩

/-- The name is in the record and has place in `fn`. -/
structure NameInside : Prop where
  letters : ptr + 0x59 + 2 * nameCount entry ptr ≤ entry.length
  short : nameCount entry ptr < 100
  memory : nameSize boot entry ptr ≤ memory

structure NameExits : Prop where
  fields : ptr + 0x50 ≤ entry.length
  memory : memory < nameSize boot entry ptr

variable {memory file boot entry ptr}

theorem nameLetters_iff {name : List Byte} :
    ptr + 0x59 ≤ entry.length ∧ (if nameCount entry ptr < 100 then
      (List.range (nameCount entry ptr)).mapM (fun i => entry[ptr + 0x18 + 0x42 + 2 * i]?)
        else none) = some name ↔
      (ptr + 0x59 + 2 * nameCount entry ptr ≤ entry.length ∧ nameCount entry ptr < 100) ∧
        (List.range (nameCount entry ptr)).map (fun i => entry.getD (ptr + 0x5A + 2 * i) 0) =
          name := by
  rw [Option.ite_none_right_eq_some, mapM_eq_some 0]
  have hmap : (List.range (nameCount entry ptr)).map
      (fun i => (entry[ptr + 0x18 + 0x42 + 2 * i]?).getD 0) =
      (List.range (nameCount entry ptr)).map (fun i => entry.getD (ptr + 0x5A + 2 * i) 0) := rfl
  have hall : (∀ i ∈ List.range (nameCount entry ptr), (entry[ptr + 0x18 + 0x42 + 2 * i]?).isSome =
      true) ↔ ∀ i < nameCount entry ptr, ptr + 0x5A + 2 * i < entry.length := by
    simp
  rw [hmap, hall]
  constructor
  · rintro ⟨hle, hn, hletters, hname⟩
    refine ⟨⟨?_, hn⟩, hname⟩
    by_cases h0 : nameCount entry ptr = 0
    · omega
    · have hlast := hletters (nameCount entry ptr - 1) (by omega)
      omega
  · rintro ⟨⟨hle, hn⟩, hname⟩
    exact ⟨by omega, hn, fun i hi => by omega, hname⟩

theorem ntfsFilename_eq_done {p : BitmapParams} (h : ntfsFilename memory boot entry ptr = .done p) :
    NameInside memory boot entry ptr ∧ p.lengths = nameLengths boot entry ptr := by
  simp only [ntfsFilename, mftField_bind_done] at h
  obtain ⟨-, -, h⟩ := h
  obtain ⟨bitmap, hcalloc, h⟩ := Fate.bind_eq_done.mp h
  obtain ⟨hmemory, rfl⟩ := calloc_eq_some.mp (Fate.ofCall_eq_done.mp hcalloc)
  simp only [mftField_bind_done] at h
  obtain ⟨-, hn, h⟩ := h
  obtain ⟨name, hname, h⟩ := Fate.bind_eq_done.mp h
  obtain ⟨⟨hletters, hshort⟩, rfl⟩ := nameLetters_iff.mp ⟨hn, Fate.ofAccess_eq_done.mp hname⟩
  obtain rfl := Fate.done.inj h
  refine ⟨⟨hletters, hshort, hmemory⟩, ?_⟩
  rw [BitmapParams.lengths, List.length_replicate]
  rfl

theorem ntfsFilename_done (h : NameInside memory boot entry ptr) :
    ∃ p, ntfsFilename memory boot entry ptr = .done p := by
  have hletters := h.letters
  obtain ⟨hn, hname⟩ := nameLetters_iff.mpr ⟨⟨h.letters, h.short⟩, rfl⟩
  simp only [ntfsFilename, mftField_bind_done]
  exact ⟨_, by omega, by omega, Fate.bind_eq_done.mpr ⟨_,
    Fate.ofCall_eq_done.mpr (calloc_eq_some.mpr ⟨h.memory, rfl⟩),
    mftField_bind_done.mpr ⟨by omega, mftField_bind_done.mpr ⟨hn, Fate.bind_eq_done.mpr ⟨_,
      Fate.ofAccess_eq_done.mpr hname, rfl⟩⟩⟩⟩⟩

theorem ntfsFilename_eq_exit :
    ntfsFilename memory boot entry ptr = .exit ↔ NameExits memory boot entry ptr := by
  simp only [ntfsFilename, mftField_bind_exit]
  rw [Fate.bind_eq_exit, Fate.ofCall_eq_exit, calloc_eq_none]
  constructor
  · rintro ⟨hreal, -, hmemory | ⟨bitmap, -, h⟩⟩
    · exact ⟨by omega, hmemory⟩
    · simp only [mftField_bind_exit] at h
      obtain ⟨-, -, h⟩ := h
      rcases Fate.bind_eq_exit.mp h with h | ⟨name, -, h⟩
      · exact absurd h (Fate.ofAccess_ne_exit _)
      · cases h
  · intro h
    have hfields := h.fields
    exact ⟨by omega, by omega, .inl h.memory⟩

end Attributes

section Attributes

/-! ### Data -/

variable (memory : Nat) (file : VolumeFile) (boot : NtfsBoot) (entry : List Byte) (ptr : Nat)

/-- The size of the bitmap that the attribute gives. -/
def dataSize : Nat := fieldValue 8 entry (ptr + 0x28) * boot.spc % 2 ^ 64

/-- After the bitmap was allocated again where that is needed. -/
def sizedLengths (l : BitmapLengths) : BitmapLengths :=
  if l.bitmaplg ≠ dataSize boot entry ptr then
    ⟨fieldValue 8 entry (ptr + 0x30), fieldValue 8 entry (ptr + 0x28) * boot.spc % 2 ^ 32,
      fieldValue 8 entry (ptr + 0x28) * boot.spc % 2 ^ 32, l.fn⟩
  else l

def dataLengths (l : BitmapLengths) : BitmapLengths :=
  { sizedLengths boot entry ptr l with bitmaplg := (sizedLengths boot entry ptr l).filelg * boot.spc % 2 ^ 32 }

/-- The lengths in the attribute are right, and there is memory for the bitmap. -/
structure DataSized (l : BitmapLengths) : Prop where
  fields : ptr + 0x40 ≤ entry.length
  init : fieldValue 8 entry (ptr + 0x38) = fieldValue 8 entry (ptr + 0x30)
  memory : l.bitmaplg ≠ dataSize boot entry ptr → fieldValue 8 entry (ptr + 0x28) * boot.spc % 2 ^ 32 ≤ memory

def firstRun (l : BitmapLengths) : RunView := ⟨0, entry.drop (ptr + 0x40), 0, (sizedLengths boot entry ptr l).alloc⟩

/-- The runs are inside, a byte of the record follows, and so is what is cleared. -/
structure DataInside (l : BitmapLengths) : Prop where
  sized : DataSized memory boot entry ptr l
  runs : ∃ w, (firstRun boot entry ptr l).LeadTo file boot (sizedLengths boot entry ptr l).filelg w ∧ w.ptr ≠ []
  cleared : (sizedLengths boot entry ptr l).bitmaplg ≤ (sizedLengths boot entry ptr l).filelg * boot.spc % 2 ^ 32 ∨
    (sizedLengths boot entry ptr l).bitmaplg ≤ (sizedLengths boot entry ptr l).alloc

/-- The lengths are wrong, memory is missing, or the runs lead out of the file. -/
def DataExits (l : BitmapLengths) : Prop :=
  ptr + 0x40 ≤ entry.length ∧
    (fieldValue 8 entry (ptr + 0x38) ≠ fieldValue 8 entry (ptr + 0x30) ∨
      (l.bitmaplg ≠ dataSize boot entry ptr ∧ memory < fieldValue 8 entry (ptr + 0x28) * boot.spc % 2 ^ 32) ∨
      DataSized memory boot entry ptr l ∧
        (firstRun boot entry ptr l).LeadOut file boot (sizedLengths boot entry ptr l).filelg)

variable {memory file boot entry ptr} {p : BitmapParams}

theorem modifiedSize_eq_done {p' : BitmapParams}
    (h : modifiedSize memory boot (fieldValue 8 entry (ptr + 0x28))
      (fieldValue 8 entry (ptr + 0x30)) p = .done p') :
    (p.bitmaplg ≠ dataSize boot entry ptr → fieldValue 8 entry
      (ptr + 0x28) * boot.spc % 2 ^ 32 ≤ memory) ∧
      p'.lengths = sizedLengths boot entry ptr p.lengths := by
  rw [modifiedSize] at h
  by_cases hlg : p.bitmaplg ≠ dataSize boot entry ptr
  · have hlg' : p.lengths.bitmaplg ≠ dataSize boot entry ptr := hlg
    rw [dataSize] at hlg
    rw [if_pos hlg] at h
    obtain ⟨bitmap, hcalloc, h⟩ := Fate.bind_eq_done.mp h
    obtain ⟨hmemory, rfl⟩ := calloc_eq_some.mp (Fate.ofCall_eq_done.mp hcalloc)
    obtain rfl := Fate.done.inj h
    rw [sizedLengths, if_pos hlg', BitmapParams.lengths, List.length_replicate]
    exact ⟨fun _ => hmemory, rfl⟩
  · have hlg' : ¬ p.lengths.bitmaplg ≠ dataSize boot entry ptr := hlg
    rw [sizedLengths, if_neg hlg']
    rw [dataSize] at hlg
    rw [if_neg hlg] at h
    obtain rfl := Fate.done.inj h
    exact ⟨fun h => absurd h hlg, rfl⟩

theorem modifiedSize_done
    (h : p.bitmaplg ≠ dataSize boot entry ptr →
      fieldValue 8 entry (ptr + 0x28) * boot.spc % 2 ^ 32 ≤ memory) :
    ∃ p', modifiedSize memory boot (fieldValue 8 entry (ptr + 0x28))
      (fieldValue 8 entry (ptr + 0x30)) p = .done p' := by
  rw [dataSize] at h
  rw [modifiedSize]
  by_cases hlg : p.bitmaplg ≠ fieldValue 8 entry (ptr + 0x28) * boot.spc % 2 ^ 64
  · rw [if_pos hlg]
    exact ⟨_, Fate.bind_eq_done.mpr ⟨_, Fate.ofCall_eq_done.mpr (calloc_eq_some.mpr ⟨h hlg, rfl⟩),
      rfl⟩⟩
  · rw [if_neg hlg]
    exact ⟨p, rfl⟩

theorem modifiedSize_eq_exit :
    modifiedSize memory boot (fieldValue 8 entry (ptr + 0x28))
      (fieldValue 8 entry (ptr + 0x30)) p = .exit ↔
      p.bitmaplg ≠ dataSize boot entry ptr ∧ memory < fieldValue 8 entry
        (ptr + 0x28) * boot.spc % 2 ^ 32 := by
  rw [modifiedSize, dataSize]
  by_cases hlg : p.bitmaplg ≠ fieldValue 8 entry (ptr + 0x28) * boot.spc % 2 ^ 64
  · rw [if_pos hlg, Fate.bind_eq_exit, Fate.ofCall_eq_exit, calloc_eq_none, and_iff_right hlg]
    refine or_iff_left ?_
    rintro ⟨bitmap, -, h⟩
    cases h
  · rw [if_neg hlg]
    exact iff_of_false (fun h => by cases h) (fun h => hlg h.1)

theorem RunView.LeadTo.alloc_eq {filelg : Nat} {v w : RunView} (h : v.LeadTo file boot filelg w) :
    w.alloc = v.alloc := by
  have hnext (u : RunView) : (u.next boot).alloc = u.alloc := by
    rw [RunView.next]
    split
    · rfl
    · rfl
  have hiterate (n : Nat) : ((RunView.next boot)^[n] v).alloc = v.alloc := by
    induction n with
    | zero => rfl
    | succ n ih => rw [Function.iterate_succ_apply', hnext, ih]
  obtain ⟨n, -, -, -, rfl⟩ := h
  exact hiterate (n + 1)

theorem ntfsDatarun_eq_done {p' : BitmapParams}
    (h : ntfsDatarun memory file boot entry ptr p = .done p') :
    DataInside memory file boot entry ptr p.lengths ∧
      p'.lengths = dataLengths boot entry ptr p.lengths := by
  simp only [ntfsDatarun, mftField_bind_done] at h
  obtain ⟨-, -, hfields, h⟩ := h
  obtain ⟨hinit, h⟩ := Fate.orExit_eq_done.mp h
  obtain ⟨p₁, hsize, hruns⟩ := Fate.bind_eq_done.mp h
  obtain ⟨s, hs, hlast⟩ := Fate.bind_eq_done.mp hruns
  obtain ⟨b, hb, hclear⟩ := Fate.bind_eq_done.mp hlast
  obtain ⟨bitmap, hbitmap, hdone⟩ := Fate.bind_eq_done.mp hclear
  obtain ⟨hmemory, hlengths⟩ := modifiedSize_eq_done hsize
  have hfilelg : p₁.filelg = (sizedLengths boot entry ptr p.lengths).filelg :=
    congrArg BitmapLengths.filelg hlengths
  have hbitmaplg : p₁.bitmaplg = (sizedLengths boot entry ptr p.lengths).bitmaplg :=
    congrArg BitmapLengths.bitmaplg hlengths
  have halloc : p₁.bitmap.length = (sizedLengths boot entry ptr p.lengths).alloc :=
    congrArg BitmapLengths.alloc hlengths
  have hlead : (firstRun boot entry ptr p.lengths).LeadTo file boot (sizedLengths boot entry ptr p.lengths).filelg s.view := by
    rw [firstRun, ← halloc, ← hfilelg]
    exact ntfsRuns_eq_done.mp ⟨s, rfl, hs⟩
  have hlength : s.bitmap.length = (sizedLengths boot entry ptr p.lengths).alloc := hlead.alloc_eq
  obtain ⟨hcleared, hcleared'⟩ := clearBytes_eq_done hbitmap
  rw [hlength, hfilelg, hbitmaplg] at hcleared
  have hbyte : s.ptr ≠ [] := fun hnil => by
    rw [hnil] at hb
    cases hb
  refine ⟨⟨⟨by omega, hinit, hmemory⟩, ⟨s.view, hlead, hbyte⟩, hcleared⟩, ?_⟩
  obtain rfl := Fate.done.inj hdone
  rw [dataLengths, ← hlengths, BitmapParams.lengths, hcleared', hlength, ← halloc]
  rfl

theorem ntfsDatarun_done (h : DataInside memory file boot entry ptr p.lengths) :
    ∃ p', ntfsDatarun memory file boot entry ptr p = .done p' := by
  have hfields := h.sized.fields
  obtain ⟨p₁, hsize⟩ := modifiedSize_done h.sized.memory
  obtain ⟨-, hlengths⟩ := modifiedSize_eq_done hsize
  obtain ⟨w, hlead, hbyte⟩ := h.runs
  have hcleared := h.cleared
  rw [firstRun, ← hlengths] at hlead
  obtain ⟨s, rfl, hs⟩ := ntfsRuns_eq_done.mpr hlead
  have hlength : s.bitmap.length = p₁.bitmap.length := hlead.alloc_eq
  rw [← hlengths] at hcleared
  obtain ⟨bitmap, hbitmap⟩ := @clearBytes_done s.bitmap (p₁.filelg * boot.spc % 2 ^ 32) p₁.bitmaplg (by
    rw [hlength]
    exact hcleared)
  obtain ⟨b, rest, hptr⟩ := List.exists_cons_of_ne_nil hbyte
  have hhead : s.ptr.head? = some b := by
    rw [show s.ptr = b :: rest from hptr]
    rfl
  simp only [ntfsDatarun, mftField_bind_done]
  exact ⟨_, by omega, by omega, by omega, Fate.orExit_eq_done.mpr ⟨h.sized.init,
    Fate.bind_eq_done.mpr ⟨p₁, hsize,
    Fate.bind_eq_done.mpr ⟨s, hs, Fate.bind_eq_done.mpr ⟨b, Fate.ofAccess_eq_done.mpr hhead,
      Fate.bind_eq_done.mpr ⟨bitmap, hbitmap, rfl⟩⟩⟩⟩⟩⟩

theorem ntfsDatarun_eq_exit : ntfsDatarun memory file boot entry ptr p = .exit ↔
    DataExits memory file boot entry ptr p.lengths := by
  simp only [ntfsDatarun, mftField_bind_exit]
  rw [Fate.orExit_eq_exit, Fate.bind_eq_exit, modifiedSize_eq_exit]
  have hlast (p₁ : BitmapParams) : (ntfsRuns file boot p₁.filelg
      (entry.drop (ptr + 0x40)) p₁.bitmap).bind (fun s =>
      (Fate.ofAccess s.ptr.head?).bind
      (fun _ => (clearBytes s.bitmap (p₁.filelg * boot.spc % 2 ^ 32) p₁.bitmaplg).bind
        (fun bitmap => Fate.done
          { p₁ with bitmap := bitmap, bitmaplg := p₁.filelg * boot.spc % 2 ^ 32 }))) = .exit ↔
      RunView.LeadOut file boot p₁.filelg ⟨0, entry.drop (ptr + 0x40), 0, p₁.bitmap.length⟩ := by
    rw [Fate.bind_eq_exit, ntfsRuns_eq_exit]
    refine or_iff_left ?_
    rintro ⟨s, -, h⟩
    rcases Fate.bind_eq_exit.mp h with h | ⟨b, -, h⟩
    · exact Fate.ofAccess_ne_exit _ h
    · rcases Fate.bind_eq_exit.mp h with h | ⟨bitmap, -, h⟩
      · exact clearBytes_ne_exit _ _ _ h
      · cases h
  constructor
  · rintro ⟨-, -, hfields, h⟩
    refine ⟨by omega, ?_⟩
    by_cases hinit : fieldValue 8 entry (ptr + 0x38) = fieldValue 8 entry (ptr + 0x30)
    · rcases h with h | h | ⟨p₁, hsize, h⟩
      · exact absurd hinit h
      · exact .inr (.inl h)
      · obtain ⟨hmemory, hlengths⟩ := modifiedSize_eq_done hsize
        refine .inr (.inr ⟨⟨by omega, hinit, hmemory⟩, ?_⟩)
        rw [firstRun, ← hlengths]
        exact (hlast p₁).mp h
    · exact .inl hinit
  · rintro ⟨hfields, h⟩
    refine ⟨by omega, by omega, by omega, ?_⟩
    rcases h with h | h | ⟨hsized, h⟩
    · exact .inl h
    · exact .inr (.inl h)
    · obtain ⟨p₁, hsize⟩ := modifiedSize_done hsized.memory
      obtain ⟨-, hlengths⟩ := modifiedSize_eq_done hsize
      rw [firstRun, ← hlengths] at h
      exact .inr (.inr ⟨p₁, hsize, (hlast p₁).mpr h⟩)

end Attributes

end PulseImaging
