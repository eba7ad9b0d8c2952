import PulseImaging.LvmLines

/-! Metadata as it is written: one section of volumes, a block for each of them, and in it the id
before `pe_start`. Lines may be blank, also those between the blocks. -/

namespace PulseImaging

/-! ### Volumes and their group -/

/-- A block and the lines between it and the one in front of it. -/
structure VolumeText where
  gap : List (List Byte)
  name : List Byte
  id : List Byte
  before : List (List Byte)
  peStart : Nat
  after : List (List Byte)

def VolumeText.inner (p : VolumeText) : List (List Byte) :=
  idLine p.id :: (p.before ++ peStartLine p.peStart :: p.after)

def VolumeText.lines (p : VolumeText) : List (List Byte) := p.gap ++ openLine p.name :: (p.inner ++ [closeLine])

structure VolumeText.Written (p : VolumeText) : Prop where
  gap : ∀ l ∈ p.gap, FieldLine l ∧ lineValue "id" l = none
  name : BlockName p.name
  id : VolumeId p.id
  idLine : FieldLine (idLine p.id)
  before : ∀ l ∈ p.before, FieldLine l ∧ lineValue "id" l = none ∧ lineValue "pe_start" l = none
  peStart : p.peStart < 2 ^ 54
  peStartLine : FieldLine (peStartLine p.peStart)
  after : ∀ l ∈ p.after, FieldLine l ∧ lineValue "id" l = none

structure GroupText where
  name : List Byte
  head : List (List Byte)
  volumes : List VolumeText
  tail : List (List Byte)

def GroupText.front (g : GroupText) : List (List Byte) := openLine g.name :: g.head

def GroupText.lines (g : GroupText) : List (List Byte) :=
  g.front ++ openLine (ascii "physical_volumes") :: (g.volumes.flatMap VolumeText.lines ++ closeLine :: g.tail)

/-- Behind the section of the volumes there may be any lines that do not have the uuid as an id. -/
structure GroupText.Written (g : GroupText) (pvuuid : List Byte) : Prop where
  name : BlockName g.name
  noSection : opensSection "physical_volumes" (openLine g.name) = false
  fields : ∀ l ∈ g.head, FieldLine l
  noVolumes : ∀ l ∈ g.front, hasText "physical_volumes" l = false
  volumes : ∀ p ∈ g.volumes, p.Written
  tail : ∀ l ∈ g.tail, ShortLine l ∧ matchesUuid pvuuid l = false

theorem VolumeText.Written.inner_field {p : VolumeText} (h : p.Written) :
    ∀ l ∈ p.inner, FieldLine l := by
  intro l hl
  rw [VolumeText.inner, List.mem_cons, List.mem_append, List.mem_cons] at hl
  rcases hl with rfl | hl | rfl | hl
  · exact h.idLine
  · exact (h.before l hl).1
  · exact h.peStartLine
  · exact (h.after l hl).1

theorem VolumeText.Written.gap_field {p : VolumeText} (h : p.Written) : ∀ l ∈ p.gap, FieldLine l :=
  fun l hl => (h.gap l hl).1

theorem closeLine_short : ShortLine closeLine := ⟨⟨ascii "\x7d", rfl, by decide, by decide⟩, by decide⟩

theorem volumesName : BlockName (ascii "physical_volumes") :=
  ⟨⟨⟨ascii "physical_volumes \x7b", rfl, by decide, by decide⟩, by decide⟩, by decide, by decide⟩

theorem VolumeText.Written.lines_short {p : VolumeText} (h : p.Written) :
    ∀ l ∈ p.lines, ShortLine l := by
  intro l hl
  rw [VolumeText.lines, List.mem_append, List.mem_cons, List.mem_append, List.mem_singleton] at hl
  rcases hl with hl | rfl | hl | rfl
  · exact (h.gap_field l hl).short
  · exact h.name.short
  · exact (h.inner_field l hl).short
  · exact closeLine_short

theorem GroupText.Written.lines_short {g : GroupText} {pvuuid : List Byte} (h : g.Written pvuuid) :
    ∀ l ∈ g.lines, ShortLine l := by
  intro l hl
  rw [GroupText.lines, List.mem_append, GroupText.front, List.mem_cons, List.mem_cons,
    List.mem_append, List.mem_cons, List.mem_flatMap] at hl
  rcases hl with (rfl | hl) | rfl | ⟨p, hp, hl⟩ | rfl | hl
  · exact h.name.short
  · exact (h.fields l hl).short
  · exact volumesName.short
  · exact (h.volumes p hp).lines_short l hl
  · exact closeLine_short
  · exact (h.tail l hl).1

/-! ### The blocks of a written text -/

theorem bodyLines_fields {ls : List (List Byte)} (h : ∀ l ∈ ls, FieldLine l) {level : Int}
    (hlevel : 0 < level) (rest : List (List Byte)) :
    bodyLines level (ls ++ rest) = ls ++ bodyLines level rest := by
  induction ls with
  | nil => rfl
  | cons l ls ih =>
    rw [List.cons_append, bodyLines, braceNet_field (h l List.mem_cons_self), add_zero,
      if_neg (by omega), ih (fun l hl => h l (List.mem_cons_of_mem _ hl)), List.cons_append]

theorem bodyLines_close (rest : List (List Byte)) : bodyLines 1 (closeLine :: rest) = [] := by
  rw [bodyLines, closeLine_levels.1]
  rfl

theorem bodyLines_volume {p : VolumeText} (h : p.Written) (rest : List (List Byte)) :
    bodyLines 1 (p.lines ++ rest) = p.lines ++ bodyLines 1 rest := by
  have hinner : p.lines ++ rest = p.gap ++ openLine p.name :: (p.inner ++ closeLine :: rest) := by
    simp [VolumeText.lines]
  rw [hinner, bodyLines_fields h.gap_field (by decide), bodyLines, h.name.braceNet_eq,
    if_neg (by decide),
    bodyLines_fields h.inner_field (by decide), bodyLines, closeLine_levels.1, if_neg (by decide)]
  simp [VolumeText.lines]

theorem bodyLines_volumes {volumes : List VolumeText} (h : ∀ p ∈ volumes, p.Written)
    (rest : List (List Byte)) :
    bodyLines 1 (volumes.flatMap VolumeText.lines ++ closeLine :: rest) =
      volumes.flatMap VolumeText.lines := by
  induction volumes with
  | nil => exact bodyLines_close rest
  | cons p volumes ih =>
    rw [List.flatMap_cons, List.append_assoc, bodyLines_volume (h p List.mem_cons_self),
      ih (fun q hq => h q (List.mem_cons_of_mem _ hq))]

theorem blocksOf_fields {ls : List (List Byte)} (h : ∀ l ∈ ls, FieldLine l) (level : Int)
    (rest : List (List Byte)) :
    blocksOf level (ls ++ rest) = blocksOf level rest := by
  induction ls with
  | nil => rfl
  | cons l ls ih =>
    rw [List.cons_append, blocksOf, braceNet_field (h l List.mem_cons_self), add_zero,
      ih (fun l hl => h l (List.mem_cons_of_mem _ hl))]
    simp

theorem blocksOf_volume {p : VolumeText} (h : p.Written) (rest : List (List Byte)) :
    blocksOf 0 (p.lines ++ rest) = p.inner :: blocksOf 0 rest := by
  have hinner : p.lines ++ rest = p.gap ++ openLine p.name :: (p.inner ++ closeLine :: rest) := by
    simp [VolumeText.lines]
  rw [hinner, blocksOf_fields h.gap_field, blocksOf, h.name.braceNet_eq, if_pos (by decide),
    bodyLines_fields h.inner_field (by decide),
    bodyLines_close, List.append_nil, blocksOf_fields h.inner_field, blocksOf, closeLine_levels.1,
    if_neg (by decide)]
  rfl

theorem blocksOf_volumes {volumes : List VolumeText} (h : ∀ p ∈ volumes, p.Written) :
    blocksOf 0 (volumes.flatMap VolumeText.lines) = volumes.map VolumeText.inner := by
  induction volumes with
  | nil => rfl
  | cons p volumes ih =>
    rw [List.flatMap_cons, blocksOf_volume (h p List.mem_cons_self),
      ih (fun q hq => h q (List.mem_cons_of_mem _ hq)), List.map_cons]

theorem ownLines_fields {ls : List (List Byte)} (h : ∀ l ∈ ls, FieldLine l) : ownLines 0 ls = ls := by
  induction ls with
  | nil => rfl
  | cons l ls ih =>
    rw [ownLines, braceNet_field (h l List.mem_cons_self), add_zero,
      ih (fun l hl => h l (List.mem_cons_of_mem _ hl))]
    simp

theorem VolumeText.Written.blockId_eq {p : VolumeText} (h : p.Written) :
    blockId p.inner = some p.id := by
  rw [blockId, ownLines_fields h.inner_field, VolumeText.inner, List.findSome?_cons,
    lineId_idLine h.id]

theorem VolumeText.Written.blockPeStart_eq {p : VolumeText} (h : p.Written) :
    blockPeStart p.inner = some (p.peStart : Int) := by
  have hid : linePeStart (PulseImaging.idLine p.id) = none := rfl
  have hbefore : p.before.findSome? linePeStart = none := by
    rw [List.findSome?_eq_none_iff]
    intro l hl
    rw [linePeStart, (h.before l hl).2.2]
    rfl
  have hline : linePeStart (PulseImaging.peStartLine p.peStart) = some (p.peStart : Int) := by
    rw [linePeStart, lineValue_peStart, Option.bind_some, scanInt_peStart]
    rfl
  rw [blockPeStart, ownLines_fields h.inner_field, VolumeText.inner, List.findSome?_cons, hid,
    List.findSome?_append, hbefore, List.findSome?_cons, hline]
  rfl

theorem GroupText.Written.volumeBlocks_eq {g : GroupText} {pvuuid : List Byte}
    (h : g.Written pvuuid) :
    volumeBlocks g.lines.flatten = g.volumes.map VolumeText.inner := by
  have hlines : ∀ l ∈ g.lines, IsLine l := fun l hl => (h.lines_short l hl).1
  have hnul : 0 ∉ g.lines.flatten := by
    intro h0
    obtain ⟨l, hl, h0⟩ := List.mem_flatten.mp h0
    obtain ⟨body, rfl, -, hbody⟩ := hlines l hl
    simp [hbody, newline] at h0
  have hfront : ∀ l ∈ g.front, (!opensSection "physical_volumes" l) = true := by
    intro l hl
    rcases List.mem_cons.mp hl with rfl | hl
    · rw [h.noSection]
      rfl
    · rw [opensSection_field (h.fields l hl)]
      rfl
  have hopens : ¬ (!opensSection "physical_volumes" (openLine (ascii "physical_volumes"))) = true := by decide
  have hdrop : g.lines.dropWhile (fun l => !opensSection "physical_volumes" l) = openLine (ascii "physical_volumes") ::
      (g.volumes.flatMap VolumeText.lines ++ closeLine :: g.tail) := by
    rw [GroupText.lines, List.dropWhile_append_of_pos hfront]
    exact List.dropWhile_cons_of_neg hopens
  rw [volumeBlocks, cstr_of_not_mem hnul, textLines_flatten hlines, hdrop]
  show blocksOf 0 (bodyLines 1 _) = _
  rw [bodyLines_volumes h.volumes, blocksOf_volumes h.volumes]

theorem GroupText.Written.volumePeStart_eq {g : GroupText} {pvuuid : List Byte} (h : g.Written pvuuid)
    {before after : List VolumeText} {p : VolumeText} (hv : g.volumes = before ++ p :: after)
    (hnone : ∀ q ∈ before, q.id.filter (· != 45) ≠ pvuuid) (hp : p.id.filter (· != 45) = pvuuid) :
    volumePeStart pvuuid g.lines.flatten = some (p.peStart : Int) := by
  have hwritten : ∀ q ∈ before ++ p :: after, q.Written := hv ▸ h.volumes
  have hskip : (before.map VolumeText.inner).filter (blockHasId pvuuid) = [] := by
    rw [List.filter_eq_nil_iff]
    intro block hblock
    obtain ⟨q, hq, rfl⟩ := List.mem_map.mp hblock
    simpa [blockHasId, (hwritten q (List.mem_append_left _ hq)).blockId_eq] using hnone q hq
  have hpw := hwritten p (List.mem_append_right _ List.mem_cons_self)
  have hkeep : blockHasId pvuuid p.inner = true := by simp [blockHasId, hpw.blockId_eq, hp]
  rw [volumePeStart, h.volumeBlocks_eq, hv, List.map_append, List.filter_append, hskip,
    List.nil_append, List.map_cons,
    List.filter_cons_of_pos hkeep, List.findSome?_cons, hpw.blockPeStart_eq]

/-! ### The lines of a written text -/

theorem levels_fields {ls : List (List Byte)} (h : ∀ l ∈ ls, FieldLine l) :
    (ls.map lineLevel).sum = 0 := by
  induction ls with
  | nil => rfl
  | cons l ls ih =>
    rw [List.map_cons, List.sum_cons, lineLevel_field (h l List.mem_cons_self),
      ih (fun l hl => h l (List.mem_cons_of_mem _ hl))]
    rfl

theorem levels_volumes {volumes : List VolumeText} (h : ∀ p ∈ volumes, p.Written) :
    ((volumes.flatMap VolumeText.lines).map lineLevel).sum = 0 := by
  induction volumes with
  | nil => rfl
  | cons p volumes ih =>
    have hp := h p List.mem_cons_self
    rw [List.flatMap_cons, List.map_append, List.sum_append,
      ih (fun q hq => h q (List.mem_cons_of_mem _ hq)),
      VolumeText.lines, List.map_append, List.sum_append, levels_fields hp.gap_field, List.map_cons,
      List.sum_cons, List.map_append, List.sum_append, levels_fields hp.inner_field,
      hp.name.lineLevel_eq, List.map_singleton, List.sum_singleton, closeLine_levels.2]
    rfl

theorem peStartLine_no_id (n : Nat) : lineValue "id" (peStartLine n) = none := rfl

/-- In a block only the line of the id may have the uuid. -/
theorem VolumeText.Written.matches_iff {p : VolumeText} (h : p.Written) {pvuuid : List Byte}
    (huuid : pvuuid.length = 32) {l : List Byte} (hl : l ∈ p.lines)
    (hmatch : matchesUuid pvuuid l = true) : p.id.filter (· != 45) = pvuuid := by
  have hno {l : List Byte} (hid : lineValue "id" l = none) : matchesUuid pvuuid l ≠ true := by
    rw [matchesUuid_of_no_id hid]
    decide
  rw [VolumeText.lines, VolumeText.inner, List.mem_append, List.mem_cons, List.mem_append,
    List.mem_cons, List.mem_append, List.mem_cons, List.mem_singleton] at hl
  rcases hl with hl | rfl | (rfl | hl | rfl | hl) | rfl
  · exact absurd hmatch (hno (h.gap l hl).2)
  · exact absurd hmatch (hno h.name.noId)
  · exact (matchesUuid_idLine h.id huuid).mp hmatch
  · exact absurd hmatch (hno (h.before l hl).2.1)
  · exact absurd hmatch (hno (peStartLine_no_id _))
  · exact absurd hmatch (hno (h.after l hl).2)
  · exact absurd hmatch (hno (by decide))

theorem GroupText.Written.first_volumes {g : GroupText} {pvuuid : List Byte} (h : g.Written pvuuid) (old : List Byte) :
    FirstFrom (fun i => hasText "physical_volumes" (lineAt old g.lines.flatten i) = true) 0 g.front.length :=
  firstFrom_lines (P := fun l => hasText "physical_volumes" l = true) h.lines_short old rfl (by decide) (Nat.zero_le _)
    (fun l hl => by
      rw [h.noVolumes l (by simpa using hl)]
      decide)

/-- Without a block for the uuid no line has it. -/
theorem GroupText.Written.no_line {g : GroupText} {pvuuid : List Byte} (h : g.Written pvuuid)
    (huuid : pvuuid.length = 32) {old : List Byte} {i : Nat} {n : Int}
    (hline : LvmLine (lineAt old g.lines.flatten) pvuuid i n) :
    ∃ p ∈ g.volumes, p.id.filter (· != 45) = pvuuid := by
  obtain ⟨i₀, i₁, hi₀, hi₁, -⟩ := hline.search
  obtain rfl := hi₀.unique (h.first_volumes old)
  have hlength : g.front.length + 1 < g.lines.length := by
    simp [GroupText.lines]
  have hmem := lineAt_mem h.lines_short old hlength hi₁.le
  have hdrop : g.lines.drop (g.front.length + 1) = g.volumes.flatMap VolumeText.lines ++
      closeLine :: g.tail := by
    rw [GroupText.lines, ← List.drop_drop, List.drop_left, List.drop_one, List.tail_cons]
  rw [hdrop, List.mem_append, List.mem_flatMap, List.mem_cons] at hmem
  have hmatch : matchesUuid pvuuid (lineAt old g.lines.flatten i₁) = true := hi₁.holds
  rcases hmem with ⟨p, hp, hl⟩ | hl | hl
  · exact ⟨p, hp, (h.volumes p hp).matches_iff huuid hl hmatch⟩
  · rw [hl, matchesUuid_of_no_id (by decide)] at hmatch
    cases hmatch
  · rw [(h.tail _ hl).2] at hmatch
    cases hmatch

/-- The lines of the section before those of the fields of `p`. -/
def linesBefore (before : List VolumeText) (p : VolumeText) : List (List Byte) :=
  openLine (ascii "physical_volumes") :: (before.flatMap VolumeText.lines ++ (p.gap ++ [openLine p.name]))

theorem GroupText.lines_split {g : GroupText} {before after : List VolumeText} {p : VolumeText}
    (hv : g.volumes = before ++ p :: after) :
    g.lines = g.front ++ linesBefore before p ++ (idLine p.id :: p.before) ++
      (peStartLine p.peStart :: p.after) ++
      closeLine :: (after.flatMap VolumeText.lines ++ closeLine :: g.tail) := by
  simp [GroupText.lines, hv, linesBefore, VolumeText.lines, VolumeText.inner]

section Block

variable {g : GroupText} {pvuuid : List Byte} {before after : List VolumeText} {p : VolumeText}

theorem GroupText.Written.volume (h : g.Written pvuuid) (hv : g.volumes = before ++ p :: after) :
    p.Written :=
  h.volumes p (hv ▸ List.mem_append_right _ List.mem_cons_self)

theorem GroupText.Written.volume_before (h : g.Written pvuuid)
    (hv : g.volumes = before ++ p :: after) : ∀ q ∈ before, q.Written :=
  fun q hq => h.volumes q (hv ▸ List.mem_append_left _ hq)

/-- The line of the id is the first one with the uuid. -/
theorem GroupText.Written.id_first (h : g.Written pvuuid) (huuid : pvuuid.length = 32)
    (old : List Byte) (hv : g.volumes = before ++ p :: after)
    (hnone : ∀ q ∈ before, q.id.filter (· != 45) ≠ pvuuid) (hp : p.id.filter (· != 45) = pvuuid) :
    FirstFrom (fun i => matchesUuid pvuuid (lineAt old g.lines.flatten i) = true)
      (g.front.length + 1) (g.front ++ linesBefore before p).length := by
  have hpw := h.volume hv
  refine firstFrom_lines (P := fun l => matchesUuid pvuuid l = true) h.lines_short old
    (by simpa using GroupText.lines_split hv) ((matchesUuid_idLine hpw.id huuid).mpr hp)
    (by simp [linesBefore]) (fun l hl => ?_)
  have hdrop : (g.front ++ linesBefore before p).drop (g.front.length + 1) =
      before.flatMap VolumeText.lines ++ (p.gap ++ [openLine p.name]) := by
    rw [← List.drop_drop, List.drop_left, linesBefore, List.drop_one, List.tail_cons]
  rw [hdrop, List.mem_append, List.mem_flatMap, List.mem_append, List.mem_singleton] at hl
  rcases hl with ⟨q, hq, hl⟩ | hl | rfl
  · exact fun hmatch => hnone q hq ((h.volume_before hv q hq).matches_iff huuid hl hmatch)
  · rw [matchesUuid_of_no_id (hpw.gap l hl).2]
    decide
  · rw [matchesUuid_of_no_id hpw.name.noId]
    decide

/-- Behind it the line of `pe_start` is the first of its kind. -/
theorem GroupText.Written.peStart_first (h : g.Written pvuuid) (old : List Byte)
    (hv : g.volumes = before ++ p :: after) :
    FirstFrom (fun i => (scanPeStart (lineAt old g.lines.flatten i)).isSome = true)
      ((g.front ++ linesBefore before p).length + 1)
      (g.front ++ linesBefore before p ++ (idLine p.id :: p.before)).length := by
  have hpw := h.volume hv
  have hscan := scanPeStart_line (lt_trans hpw.peStart (by norm_num))
  refine firstFrom_lines (P := fun l => (scanPeStart l).isSome = true) h.lines_short old
    (by simpa using GroupText.lines_split hv) (by rw [hscan]; rfl) (by simp) (fun l hl => ?_)
  have hdrop : (g.front ++ linesBefore before p ++ (idLine p.id :: p.before)).drop
      ((g.front ++ linesBefore before p).length + 1) = p.before := by
    rw [← List.drop_drop, List.drop_left, List.drop_one, List.tail_cons]
  rw [hdrop] at hl
  rw [scanPeStart_of_none (hpw.before l hl).2.2]
  decide

theorem GroupText.Written.levels (h : g.Written pvuuid) (hv : g.volumes = before ++ p :: after) :
    ((g.front ++ linesBefore before p ++ (idLine p.id :: p.before) ++
      (peStartLine p.peStart :: p.after)).map lineLevel).sum = 3 := by
  have hpw := h.volume hv
  have hfront : (g.front.map lineLevel).sum = 1 := by
    rw [GroupText.front, List.map_cons, List.sum_cons, h.name.lineLevel_eq, levels_fields h.fields]
    rfl
  have hbefore : ((linesBefore before p).map lineLevel).sum = 2 := by
    rw [linesBefore, List.map_cons, List.sum_cons, List.map_append, List.sum_append,
      levels_volumes (h.volume_before hv), volumesName.lineLevel_eq, List.map_append, List.sum_append,
      levels_fields hpw.gap_field, List.map_singleton, List.sum_singleton, hpw.name.lineLevel_eq]
    rfl
  have hid : ((idLine p.id :: p.before).map lineLevel).sum = 0 :=
    levels_fields (fun l hl => hpw.inner_field l (by
      rw [VolumeText.inner, ← List.cons_append]
      exact List.mem_append_left _ hl))
  have hpe : ((peStartLine p.peStart :: p.after).map lineLevel).sum = 0 :=
    levels_fields (fun l hl => hpw.inner_field l (by
      rw [VolumeText.inner, ← List.cons_append]
      exact List.mem_append_right _ hl))
  rw [List.map_append, List.map_append, List.map_append, List.sum_append, List.sum_append,
    List.sum_append, hfront, hbefore, hid, hpe]
  rfl

/-- A line of the text by what stands before it. -/
theorem GroupText.Written.lineAt_eq (h : g.Written pvuuid) (old : List Byte)
    {pre post : List (List Byte)} {x : List Byte} (he : g.lines = pre ++ x :: post) :
    lineAt old g.lines.flatten pre.length = x := by
  have hlength : pre.length < g.lines.length := by simp [he]
  have hget : g.lines[pre.length] = x := by simp [he]
  rw [lineAt_getElem h.lines_short old hlength, hget]

/-- The first block for the uuid is found, and the loop is left at its end. -/
theorem GroupText.Written.ends (h : g.Written pvuuid) (huuid : pvuuid.length = 32)
    (old : List Byte) (hv : g.volumes = before ++ p :: after)
    (hnone : ∀ q ∈ before, q.id.filter (· != 45) ≠ pvuuid) (hp : p.id.filter (· != 45) = pvuuid) :
    LvmEnds (lineAt old g.lines.flatten) pvuuid p.peStart := by
  have hlines := GroupText.lines_split hv
  obtain ⟨rest, hrest⟩ : ∃ rest, rest = after.flatMap VolumeText.lines ++ closeLine :: g.tail :=
    ⟨_, rfl⟩
  obtain ⟨pre, hpre⟩ : ∃ pre, pre = g.front ++ linesBefore before p ++
      (idLine p.id :: p.before) ++ (peStartLine p.peStart :: p.after) := ⟨_, rfl⟩
  have hsplit : g.lines = pre ++ closeLine :: rest := by rw [hlines, hpre, hrest]
  have hnumber : lineAt old g.lines.flatten (g.front ++ linesBefore before p ++
      (idLine p.id :: p.before)).length = peStartLine p.peStart :=
    h.lineAt_eq old (by simpa using hlines)
  have hclose := h.lineAt_eq old hsplit
  -- the closing brace of the block leads back to level 2
  have hlevel : levelAt (lineAt old g.lines.flatten) pre.length = 2 := by
    have htake : g.lines.take (pre.length + 1) = pre ++ [closeLine] := by
      rw [hsplit, List.take_append, List.take_of_length_le (Nat.le_succ _),
        Nat.add_sub_cancel_left, List.take_succ_cons, List.take_zero]
    rw [levelAt_lines h.lines_short old (by simp [hsplit]), htake, List.map_append,
      List.sum_append, List.map_singleton, List.sum_singleton, closeLine_levels.2, hpre,
      h.levels hv]
    rfl
  refine ⟨_, ⟨⟨_, _, h.first_volumes old, h.id_first huuid old hv hnone hp,
    h.peStart_first old hv⟩, ?_⟩, pre.length, ?_, ?_, hlevel⟩
  · rw [hnumber]
    exact scanPeStart_line (lt_trans (h.volume hv).peStart (by norm_num))
  · rw [hpre]
    exact (List.prefix_append _ _).length_le
  · rw [hclose]
    decide

end Block

theorem GroupText.Written.offset_eq {g : GroupText} {pvuuid : List Byte} (h : g.Written pvuuid)
    (huuid : pvuuid.length = 32) (old : List Byte) :
    (∃ n, LvmEnds (lineAt old g.lines.flatten) pvuuid n ∧
      (n * 512).bmod (2 ^ 64) = volumeOffset pvuuid g.lines.flatten) ↔
      ∃ p ∈ g.volumes, p.id.filter (· != 45) = pvuuid := by
  constructor
  · rintro ⟨n, ⟨i, hline, -⟩, -⟩
    exact h.no_line huuid hline
  · intro hp
    obtain ⟨before, p, after, hv, hp, hnone⟩ : ∃ before p after, g.volumes = before ++ p :: after ∧
        p.id.filter (· != 45) = pvuuid ∧ ∀ q ∈ before, q.id.filter (· != 45) ≠ pvuuid := by
      have hsome : (g.volumes.find? (fun p => decide (p.id.filter (· != 45) = pvuuid))).isSome := by
        simpa using hp
      obtain ⟨p, hfind⟩ := Option.isSome_iff_exists.mp hsome
      obtain ⟨hp, before, after, hv, hnone⟩ := List.find?_eq_some_iff_append.mp hfind
      exact ⟨before, p, after, hv, by simpa using hp, by simpa using hnone⟩
    have hwritten : p.Written := h.volumes p (by simp [hv])
    refine ⟨p.peStart, h.ends huuid old hv hnone hp, ?_⟩
    have hlt := hwritten.peStart
    rw [volumeOffset, h.volumePeStart_eq hv hnone hp, Int.bmod_eq_of_le (by omega) (by omega)]
    show (p.peStart : Int) * 512 = 512 * p.peStart
    exact Int.mul_comm _ _

/-! ### What is found -/

/-- `lvm_check` ends with the right offset when the line that it searches for has the number of the block and a
closing brace on level 2 follows. In metadata as it is written that is when there is a block for the uuid. -/
theorem lvm_offset_iff (old pvuuid text : List Byte) :
    ((∃ fuel lvmSect, lvm2Meta fuel old pvuuid text = .done ⟨volumeOffset pvuuid text, lvmSect⟩) ↔
      ∃ n, LvmEnds (lineAt old text) pvuuid n ∧ (n * 512).bmod (2 ^ 64) = volumeOffset pvuuid text) ∧
    ∀ g : GroupText, g.Written pvuuid → pvuuid.length = 32 → text = g.lines.flatten →
      ((∃ fuel lvmSect, lvm2Meta fuel old pvuuid text = .done ⟨volumeOffset pvuuid text, lvmSect⟩) ↔
        ∃ p ∈ g.volumes, p.id.filter (· != 45) = pvuuid) := by
  refine ⟨lvm2Meta_eq_done_iff, fun g hg huuid ht => ?_⟩
  subst ht
  rw [lvm2Meta_eq_done_iff]
  exact hg.offset_eq huuid old

/-! ### A group with two volumes -/

theorem fieldLine_of {body : List Byte} (hlen : body.length ≤ 125)
    (h : body.all (fun b => b != 10 && b != 0 && b != 123 && b != 125) = true) :
    FieldLine (body ++ newline) := by
  simp only [List.all_eq_true, Bool.and_eq_true, bne_iff_ne] at h
  have hbrace {c : Byte} (hc : c ≠ 10) (hbody : ∀ b ∈ body, b ≠ c) : c ∉ body ++ newline := by
    rw [List.mem_append, newline, List.mem_singleton]
    rintro (hmem | rfl)
    · exact hbody c hmem rfl
    · exact hc rfl
  refine ⟨⟨⟨body, rfl, fun hmem => (h _ hmem).1.1.1 rfl, fun hmem => (h _ hmem).1.1.2 rfl⟩, ?_⟩,
    hbrace (by decide) (fun b hb => (h b hb).1.2), hbrace (by decide) (fun b hb => (h b hb).2)⟩
  rw [List.length_append]
  exact Nat.succ_le_succ hlen

def sampleUuid : List Byte := ascii "0123456789abcdefghijklmnopqrstuv"

def sampleId : List Byte := ascii "012345-6789-abcd-efgh-ijkl-mnop-qrstuv"

def otherId : List Byte := ascii "112345-6789-abcd-efgh-ijkl-mnop-qrstuv"

def blankLine : List Byte := ascii "\n"

def sampleFirst : VolumeText where
  gap := [blankLine]
  name := ascii "pv0"
  id := otherId
  before := [ascii "device = \"/dev/sda\"\n", blankLine, ascii "status = [\"ALLOCATABLE\"]\n"]
  peStart := 2048
  after := [ascii "pe_count = 255\n"]

def sampleGroup (id : List Byte) : GroupText where
  name := ascii "vg"
  head := [ascii "extent_size = 8192\n", blankLine]
  volumes := [sampleFirst, ⟨[blankLine], ascii "pv1", id, [], 384, []⟩]
  tail := [blankLine, closeLine]

theorem sampleNames : BlockName (ascii "vg") ∧ BlockName (ascii "pv0") ∧ BlockName (ascii "pv1") :=
  ⟨⟨⟨⟨ascii "vg \x7b", rfl, by decide, by decide⟩, by decide⟩, by decide, by decide⟩,
    ⟨⟨⟨ascii "pv0 \x7b", rfl, by decide, by decide⟩, by decide⟩, by decide, by decide⟩,
    ⟨⟨⟨ascii "pv1 \x7b", rfl, by decide, by decide⟩, by decide⟩, by decide, by decide⟩⟩

theorem blankLine_field : FieldLine blankLine ∧ lineValue "id" blankLine = none ∧ lineValue "pe_start" blankLine = none :=
  ⟨@fieldLine_of [] (by decide) (by decide), by decide, by decide⟩

theorem sampleFront : opensSection "physical_volumes" (openLine (ascii "vg")) = false ∧
    hasText "physical_volumes" (openLine (ascii "vg")) = false := by decide

theorem sampleStart_lt : 384 < 2 ^ 54 := by decide

theorem sampleStarts : FieldLine (peStartLine 384) ∧ FieldLine (peStartLine 2048) :=
  ⟨⟨⟨⟨ascii "pe_start = 384", by decide, by decide, by decide⟩, by decide⟩, by decide, by decide⟩,
    ⟨⟨⟨ascii "pe_start = 2048", by decide, by decide, by decide⟩, by decide⟩, by decide, by decide⟩⟩

theorem sampleId_written : VolumeId sampleId ∧ FieldLine (idLine sampleId) :=
  ⟨⟨noSpace_of_all (by decide), by decide, by decide, by decide, by decide⟩,
    ⟨⟨ascii "id = \"012345-6789-abcd-efgh-ijkl-mnop-qrstuv\"", rfl, by decide, by decide⟩, by decide⟩, by decide, by decide⟩

theorem otherId_written : VolumeId otherId ∧ FieldLine (idLine otherId) :=
  ⟨⟨noSpace_of_all (by decide), by decide, by decide, by decide, by decide⟩,
    ⟨⟨ascii "id = \"112345-6789-abcd-efgh-ijkl-mnop-qrstuv\"", rfl, by decide, by decide⟩, by decide⟩, by decide, by decide⟩

theorem sampleFirst_written : sampleFirst.Written where
  gap := fun l hl => by
    rw [List.mem_singleton.mp hl]
    exact ⟨blankLine_field.1, blankLine_field.2.1⟩
  name := sampleNames.2.1
  id := otherId_written.1
  idLine := otherId_written.2
  before := fun l hl => by
    simp only [sampleFirst, List.mem_cons, List.not_mem_nil, or_false] at hl
    rcases hl with rfl | rfl | rfl
    · exact ⟨@fieldLine_of (ascii "device = \"/dev/sda\"") (by decide) (by decide), by decide, by decide⟩
    · exact blankLine_field
    · exact ⟨@fieldLine_of (ascii "status = [\"ALLOCATABLE\"]") (by decide) (by decide), by decide, by decide⟩
  peStart := by decide
  peStartLine := sampleStarts.2
  after := fun l hl => by
    rw [List.mem_singleton.mp hl]
    exact ⟨@fieldLine_of (ascii "pe_count = 255") (by decide) (by decide), by decide⟩

theorem sampleGroup_written {id : List Byte} (hid : VolumeId id ∧ FieldLine (idLine id)) :
    (sampleGroup id).Written sampleUuid where
  name := sampleNames.1
  noSection := sampleFront.1
  fields := fun l hl => by
    simp only [sampleGroup, List.mem_cons, List.not_mem_nil, or_false] at hl
    rcases hl with rfl | rfl
    · exact @fieldLine_of (ascii "extent_size = 8192") (by decide) (by decide)
    · exact blankLine_field.1
  noVolumes := fun l hl => by
    simp only [GroupText.front, sampleGroup, List.mem_cons, List.not_mem_nil, or_false] at hl
    rcases hl with rfl | rfl | rfl
    · exact sampleFront.2
    · decide
    · decide
  volumes := fun p hp => by
    simp only [sampleGroup, List.mem_cons, List.not_mem_nil, or_false] at hp
    rcases hp with rfl | rfl
    · exact sampleFirst_written
    · exact {
        gap := fun l hl => by
          rw [List.mem_singleton.mp hl]
          exact ⟨blankLine_field.1, blankLine_field.2.1⟩
        name := sampleNames.2.2
        id := hid.1
        idLine := hid.2
        before := fun l hl => absurd hl List.not_mem_nil
        peStart := sampleStart_lt
        peStartLine := sampleStarts.1
        after := fun l hl => absurd hl List.not_mem_nil }
  tail := fun l hl => by
    simp only [sampleGroup, List.mem_cons, List.not_mem_nil, or_false] at hl
    rcases hl with rfl | rfl
    · exact ⟨blankLine_field.1.short, matchesUuid_of_no_id blankLine_field.2.1⟩
    · exact ⟨closeLine_short, matchesUuid_of_no_id (by decide)⟩

theorem lvm_offset_sample : ∃ fuel lvmSect, lvm2Meta fuel [] sampleUuid (sampleGroup sampleId).lines.flatten =
    .done ⟨volumeOffset sampleUuid (sampleGroup sampleId).lines.flatten, lvmSect⟩ :=
  ((lvm_offset_iff [] sampleUuid (sampleGroup sampleId).lines.flatten).2
    (sampleGroup sampleId) (sampleGroup_written sampleId_written)
    (by decide) rfl).mpr ⟨_, List.mem_cons_of_mem _ List.mem_cons_self, by decide⟩

/-- For a uuid that is not in the metadata the last line is read for ever. -/
theorem absent_volume_endless : ¬ ∀ old pvuuid text, pvuuid.length = 32 →
    ∃ fuel lvmSect, lvm2Meta fuel old pvuuid text = .done ⟨volumeOffset pvuuid text, lvmSect⟩ := by
  intro h
  obtain ⟨p, hp, he⟩ := ((sampleGroup_written otherId_written).offset_eq (by decide) []).mp
    (lvm2Meta_eq_done_iff.mp (h [] sampleUuid (sampleGroup otherId).lines.flatten (by decide)))
  have hother : p.id = otherId := by
    simp only [sampleGroup, List.mem_cons, List.not_mem_nil, or_false] at hp
    rcases hp with rfl | rfl <;> rfl
  rw [hother] at he
  exact absurd he (by decide)

end PulseImaging
