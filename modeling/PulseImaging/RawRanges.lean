import PulseImaging.AutoSave
import PulseImaging.PartTables

/-! The ranges of sectors that `save` copies with `save_raw`, over a whole run. -/

namespace PulseImaging

/-- A call with its bounds as they are meant: the first sector, and the one behind the last. -/
structure RawCall where
  first : Nat
  behind : Nat
  deriving DecidableEq

/-- The arguments, which are 32-bit. -/
def RawCall.args (x : RawCall) : Nat × Nat := (x.first % 2 ^ 32, (x.behind + (2 ^ 32 - 1)) % 2 ^ 32)

/-- Nothing has wrapped around, and the loop ends after the sectors of the range. -/
structure RawCall.Right (x : RawCall) : Prop where
  exact : x.args.1 = x.first ∧ x.args.2 + 1 = x.behind
  le : x.args.1 ≤ x.args.2
  ends : ∀ source file, ∃ out, saveRaw source x.args.1 x.args.2 file = some out ∧
    out.length = file.length + 516 * (x.args.2 - x.args.1 + 1)

/-! ### One call -/

theorem flatMap_rawRecord_length (source : Content) (sectors : List Nat) :
    (sectors.flatMap (rawRecord source)).length = 516 * sectors.length := by
  induction sectors with
  | nil => rfl
  | cons s sectors ih =>
    rw [List.flatMap_cons, List.length_append, rawRecord_length, ih, List.length_cons]
    omega

/-- No counter is beyond the last number. -/
theorem saveRawLoop_endless (source : Content) (fuel : Nat) {s : Nat} (hs : s < 2 ^ 32)
    (file : List Byte) :
    saveRawLoop source (2 ^ 32 - 1) fuel s file = none := by
  induction fuel generalizing s file with
  | zero => rfl
  | succ fuel ih =>
    rw [saveRawLoop, if_pos (Nat.le_sub_one_of_lt hs)]
    exact ih (Nat.mod_lt _ (by decide)) _

theorem RawCall.right_iff (x : RawCall) : x.Right ↔ x.first < x.behind ∧ x.behind < 2 ^ 32 := by
  constructor
  · rintro ⟨⟨hfirst, hbehind⟩, hle, hends⟩
    have hmod : x.args.2 < 2 ^ 32 := Nat.mod_lt _ (by decide)
    refine ⟨by omega, ?_⟩
    by_contra hge
    have hlast : x.args.2 = 2 ^ 32 - 1 := by omega
    have hlow : x.args.1 < 2 ^ 32 := Nat.mod_lt _ (by decide)
    obtain ⟨out, hsave, -⟩ := hends (fun _ => 0) []
    rw [hlast, saveRaw, saveRawLoop_endless _ _ hlow] at hsave
    cases hsave
  · rintro ⟨hlt, hbehind⟩
    have hfirst : x.args.1 = x.first := Nat.mod_eq_of_lt (by omega)
    have hlast : x.args.2 = x.behind - 1 := by
      rw [args]
      omega
    refine ⟨⟨hfirst, by omega⟩, by omega, fun source file => ?_⟩
    refine ⟨_, saveRawLoop_eq source file (by omega) (by omega) (by omega), ?_⟩
    rw [List.length_append, flatMap_rawRecord_length, List.length_range']
    omega

/-! ### The calls of a turn -/

/-- The device and its start, when the turn gets as far as the calls. -/
def SaveState.opened (st : SaveState) (m : Machine) (p : PartInfo) : Option (BlockDev × Nat) :=
  if isMapperName p.device && !st.shouldBackupLvm then none
  else
    (m.openDev (devPath p.device)).bind fun dev =>
      (if isMapperName p.device then some 0 else dev.geo).map fun start => (dev, start)

/-- `align_part_on` behind the guess of a turn. -/
def SaveState.boundaryFor (st : SaveState) (m : Machine) (p : PartInfo) : Nat :=
  (if wholeDisk p then guessBoundary m st p else st).alignPartOn

def ldmCalls (dev : BlockDev) : List RawCall :=
  match dev.ldm with
  | none => []
  | some (start, size) => [⟨start, start + size⟩]

def infoCall (align start poff : Nat) : RawCall :=
  ⟨if 5 ≤ poff then (if start ≤ align then 0 else start - align) else start, start + align⟩

def SaveState.rawCalls (st : SaveState) (m : Machine) (p : PartInfo) : List RawCall :=
  match st.opened m p with
  | none => []
  | some (dev, start) =>
    (if wholeDisk p || (start == 0 && !isMapperName p.device) then ldmCalls dev else []) ++
      (if isMapperName p.device then [] else [infoCall (st.boundaryFor m p) start (p.minor % 16).toNat])

/-- The first partition of the disk told a boundary, and neither it nor the LDM database takes a range beyond the
numbers of sectors. -/
structure SaveState.RangesFit (st : SaveState) (m : Machine) (p : PartInfo) : Prop where
  info : ∀ dev start, st.opened m p = some (dev, start) → isMapperName p.device = false →
    0 < st.boundaryFor m p ∧ start + st.boundaryFor m p < 2 ^ 32
  ldm : ∀ dev start first size, st.opened m p = some (dev, start) →
    wholeDisk p = true ∨ start = 0 ∧ isMapperName p.device = false → dev.ldm = some (first, size) →
      0 < size ∧ first + size < 2 ^ 32

theorem infoCall_right_iff (align start poff : Nat) :
    (infoCall align start poff).Right ↔ 0 < align ∧ start + align < 2 ^ 32 := by
  rw [RawCall.right_iff, infoCall]
  dsimp only
  split
  · split <;> omega
  · omega

theorem SaveState.rawCalls_right_iff (st : SaveState) (m : Machine) (p : PartInfo) :
    (∀ x ∈ st.rawCalls m p, x.Right) ↔ st.RangesFit m p := by
  rw [rawCalls]
  cases hopened : st.opened m p with
  | none =>
    refine iff_of_true (fun x hx => absurd hx List.not_mem_nil) ⟨fun dev start h => ?_,
      fun dev start first size h => ?_⟩
    · cases hopened.symm.trans h
    · cases hopened.symm.trans h
  | some y =>
    obtain ⟨dev, start⟩ := y
    have hinfo : (∀ x ∈ (if isMapperName p.device then []
          else [infoCall (st.boundaryFor m p) start (p.minor % 16).toNat]), x.Right) ↔
        (isMapperName p.device = false → 0 < st.boundaryFor m p ∧
        start + st.boundaryFor m p < 2 ^ 32) := by
      cases isMapperName p.device with
      | true => simp
      | false => simp [infoCall_right_iff]
    have hldm : (∀ x ∈ (if wholeDisk p || (start == 0 && !isMapperName p.device) then ldmCalls dev
        else []), x.Right) ↔
        (wholeDisk p = true ∨ start = 0 ∧ isMapperName p.device = false →
        ∀ first size, dev.ldm = some (first, size) → 0 < size ∧ first + size < 2 ^ 32) := by
      have hcond : (wholeDisk p || (start == 0 && !isMapperName p.device)) = true ↔
          wholeDisk p = true ∨ start = 0 ∧ isMapperName p.device = false := by simp
      by_cases h : wholeDisk p = true ∨ start = 0 ∧ isMapperName p.device = false
      · rw [if_pos (hcond.mpr h), ldmCalls]
        cases dev.ldm with
        | none => simp
        | some z =>
          obtain ⟨first, size⟩ := z
          simp [h, RawCall.right_iff]
      · rw [if_neg (mt hcond.mp h)]
        exact iff_of_true (fun x hx => absurd hx List.not_mem_nil) (fun h' => absurd h' h)
    simp only [List.forall_mem_append, hinfo, hldm]
    constructor
    · rintro ⟨hl, hi⟩
      refine ⟨fun dev' start' h => ?_, fun dev' start' first size h hcond => ?_⟩
      · cases hopened.symm.trans h
        exact hi
      · cases hopened.symm.trans h
        exact hl hcond first size
    · rintro ⟨hi, hl⟩
      exact ⟨fun hcond first size => hl dev start first size hopened hcond, hi dev start hopened⟩

/-! ### The run -/

def SaveEvent.rawArgs? : SaveEvent → Option (Nat × Nat)
  | .saveRaw start stop _ _ => some (start, stop)
  | _ => none

def SaveState.rawArgs (st : SaveState) : List (Nat × Nat) := st.trace.filterMap SaveEvent.rawArgs?

theorem rawArgs_emit (st : SaveState) (e : SaveEvent) :
    (st.emit e).rawArgs = st.rawArgs ++ e.rawArgs?.toList := by
  rw [SaveState.rawArgs, SaveState.emit, List.filterMap_append]
  cases h : e.rawArgs? <;> simp [h, SaveState.rawArgs]

theorem rawArgs_newDisk (st : SaveState) (p : PartInfo) (dev : BlockDev) :
    (newDisk st p dev).rawArgs = st.rawArgs ++ (ldmCalls dev).map RawCall.args := by
  have hdisk : ∀ s : SaveState, s.rawArgs = st.rawArgs →
      ∀ d, (s.emit (.disk d p dev.size)).rawArgs = st.rawArgs := by
    intro s hs d
    rw [rawArgs_emit, hs]
    exact List.append_nil _
  rw [newDisk, ldmCalls]
  cases dev.ldm with
  | none => exact (hdisk _ rfl _).trans (List.append_nil _).symm
  | some ldm =>
    exact (rawArgs_emit _ _).trans (congrArg (· ++ [RawCall.args ⟨ldm.1, ldm.1 + ldm.2⟩])
      (hdisk _ rfl _))

theorem rawArgs_savePartInfo {st : SaveState} (hstart : st.geoStart < 2 ^ 32) (poff : Nat) :
    (savePartInfo st poff).rawArgs = st.rawArgs ++
      [(infoCall st.alignPartOn st.geoStart poff).args] := by
  have hfirst : (infoCall st.alignPartOn st.geoStart poff).first % 2 ^ 32 =
      (infoCall st.alignPartOn st.geoStart poff).first := by
    refine Nat.mod_eq_of_lt ?_
    rw [infoCall]
    dsimp only
    split
    · split <;> omega
    · exact hstart
  rw [savePartInfo, rawArgs_emit, RawCall.args, hfirst]
  rfl

theorem rawArgs_saveVolume (m : Machine) (o : SaveOptions) (st : SaveState) (v : Volume) :
    (saveVolume m o st v).rawArgs = st.rawArgs := by
  have himage : (m.imageEvent o v).rawArgs? = none := by
    rw [Machine.imageEvent]
    cases m.imager o v <;> rfl
  rw [SaveState.rawArgs, (saveVolume_effect m o st v).2, List.filterMap_append]
  have hvolume : SaveEvent.rawArgs? (.partcopy v) = none := rfl
  simp only [List.filterMap_cons, hvolume, himage, List.filterMap_nil, List.append_nil,
    SaveState.rawArgs]

theorem rawArgs_unless (m : Machine) (o : SaveOptions) {c : Prop} [Decidable c] (st : SaveState)
    (v : Volume) : (if c then st else saveVolume m o st v).rawArgs = st.rawArgs := by
  split
  · rfl
  · exact rawArgs_saveVolume m o st v

theorem newDisk_keeps (st : SaveState) (p : PartInfo) (dev : BlockDev) :
    (newDisk st p dev).geoStart = st.geoStart ∧ (newDisk st p dev).alignPartOn = st.alignPartOn ∧
      (newDisk st p dev).isdm = st.isdm := by
  rw [newDisk]
  cases dev.ldm <;> exact ⟨rfl, rfl, rfl⟩

/-- The sectors before a partition are copied; a logical volume has none. -/
theorem rawArgs_info (st : SaveState) (hstart : st.geoStart < 2 ^ 32) (poff : Nat) :
    (if st.isdm then st else savePartInfo st poff).rawArgs = st.rawArgs ++
      (if st.isdm then [] else [infoCall st.alignPartOn st.geoStart poff]).map RawCall.args := by
  cases hdm : st.isdm with
  | true =>
    rw [if_pos rfl, if_pos rfl]
    exact (List.append_nil _).symm
  | false =>
    rw [if_neg (by simp), if_neg (by simp), rawArgs_savePartInfo hstart]
    rfl

theorem rawArgs_saveEntry (m : Machine) (o : SaveOptions) {st : SaveState}
    (hstart : st.geoStart < 2 ^ 32) (p : PartInfo) (dev : BlockDev) :
    (saveEntry m o st p dev).rawArgs = st.rawArgs ++
      ((if wholeDisk p || (st.geoStart == 0 && !st.isdm) then ldmCalls dev else []) ++
        (if st.isdm then [] else [infoCall st.alignPartOn st.geoStart
          (p.minor % 16).toNat])).map RawCall.args := by
  rw [saveEntry]
  dsimp only
  generalize hmajor : (if (st.geoStart == 0 && !st.isdm) =
    true then { st with majorn := devPath p.device } else st) = s
  have hs : s.rawArgs = st.rawArgs ∧ s.geoStart = st.geoStart ∧ s.alignPartOn = st.alignPartOn ∧
      s.isdm = st.isdm := by
    rw [← hmajor]
    split <;> exact ⟨rfl, rfl, rfl, rfl⟩
  obtain ⟨hargs, hgeo, halign, hdm⟩ := hs
  -- a logical volume is no partition, so its number is of no account
  have hnumber : ∀ align start, (if st.isdm then [] else [infoCall align start
      (if st.isdm then 0 else (p.minor % 16).toNat)]) =
        if st.isdm then [] else [infoCall align start (p.minor % 16).toNat] := by
    intro align start
    cases st.isdm <;> rfl
  by_cases hwhole : (wholeDisk p || (st.geoStart == 0 && !st.isdm)) = true
  · obtain ⟨hgeo', halign', hdm'⟩ := newDisk_keeps s p dev
    have hinfo := rawArgs_info (newDisk s p dev) (by rw [hgeo', hgeo]; exact hstart)
      (if st.isdm then 0 else (p.minor % 16).toNat)
    rw [hdm', hdm, hgeo', hgeo, halign', halign, rawArgs_newDisk, hargs, hnumber] at hinfo
    rw [if_pos hwhole, if_pos hwhole, List.map_append, ← List.append_assoc, hdm', hdm]
    exact hinfo
  · have hinfo := rawArgs_info s (by rw [hgeo]; exact hstart)
      (if st.isdm then 0 else (p.minor % 16).toNat)
    rw [hdm, hgeo, halign, hargs, hnumber] at hinfo
    rw [if_neg hwhole, if_neg hwhole, List.nil_append, hdm]
    exact (rawArgs_unless m o _ _).trans hinfo

/-- The starts that `HDIO_GETGEO` gives are 32-bit. -/
def Machine.Starts32 (m : Machine) : Prop :=
  ∀ path dev start, m.openDev path = some dev → dev.geo = some start → start < 2 ^ 32

theorem guessBoundary_rawArgs (m : Machine) (st : SaveState) (p : PartInfo) :
    (guessBoundary m st p).rawArgs = st.rawArgs ∧ (guessBoundary m st p).shouldBackupLvm =
      st.shouldBackupLvm := by
  obtain ⟨-, htrace, hlvm⟩ := guessBoundary_agrees m st p
  exact ⟨by rw [SaveState.rawArgs, htrace]; rfl, hlvm⟩

theorem rawArgs_saveStep {m : Machine} (hm : m.Starts32) (o : SaveOptions) (st : SaveState)
    (p : PartInfo) :
    (saveStep m o st p).rawArgs = st.rawArgs ++ (st.rawCalls m p).map RawCall.args := by
  rw [saveStep, SaveState.rawCalls, SaveState.opened, SaveState.boundaryFor]
  dsimp only
  generalize hguess : (if wholeDisk p = true then guessBoundary m st p else st) = s
  have hs : s.rawArgs = st.rawArgs ∧ s.shouldBackupLvm = st.shouldBackupLvm := by
    rw [← hguess]
    split
    · exact guessBoundary_rawArgs m st p
    · exact ⟨rfl, rfl⟩
  obtain ⟨hargs, hlvm⟩ := hs
  rw [hlvm, ← hargs]
  by_cases hskip : (isMapperName p.device && !st.shouldBackupLvm) = true
  · rw [if_pos hskip, if_pos hskip]
    exact (List.append_nil _).symm
  · rw [if_neg hskip, if_neg hskip]
    cases hopen : m.openDev (devPath p.device) with
    | none => exact (List.append_nil _).symm
    | some dev =>
      cases hdm : isMapperName p.device with
      | true =>
        refine (rawArgs_saveEntry m o ?_ p dev).trans rfl
        exact Nat.two_pow_pos 32
      | false =>
        simp only [Bool.false_eq_true, if_false, Option.bind_some]
        cases hgeo : dev.geo with
        | none => exact (List.append_nil _).symm
        | some start =>
          refine (rawArgs_saveEntry m o ?_ p dev).trans rfl
          exact hm _ dev start hopen hgeo

/-- The states before the turns, each with its entry. -/
def turns (m : Machine) (o : SaveOptions) : List PartInfo → SaveState → List (SaveState × PartInfo)
  | [], _ => []
  | p :: ps, st => (st, p) :: turns m o ps (saveStep m o st p)

def saveTurns (m : Machine) (o : SaveOptions) : List (SaveState × PartInfo) := turns m o m.entries (SaveState.start o)

def saveCalls (m : Machine) (o : SaveOptions) : List RawCall := (saveTurns m o).flatMap (fun t => t.1.rawCalls m t.2)

theorem rawArgs_foldl {m : Machine} (hm : m.Starts32) (o : SaveOptions) (ps : List PartInfo)
    (st : SaveState) :
    (ps.foldl (saveStep m o) st).rawArgs =
      st.rawArgs ++ ((turns m o ps st).flatMap (fun t => t.1.rawCalls m t.2)).map RawCall.args := by
  induction ps generalizing st with
  | nil => exact (List.append_nil _).symm
  | cons p ps ih =>
    rw [List.foldl_cons, ih, rawArgs_saveStep hm, turns, List.flatMap_cons, List.map_append,
      List.append_assoc]

/-- The calls of a run are as they are meant exactly when at each turn the boundary is not zero and no range goes
beyond the 32-bit numbers. -/
theorem save_raw_ranges_iff {m : Machine} (hm : m.Starts32) (o : SaveOptions) :
    (save m o).rawArgs = (saveCalls m o).map RawCall.args ∧
      ((∀ x ∈ saveCalls m o, x.Right) ↔ ∀ t ∈ saveTurns m o, t.1.RangesFit m t.2) := by
  constructor
  · rw [save_eq, rawArgs_foldl hm]
    rfl
  · simp only [saveCalls, List.forall_mem_flatMap, SaveState.rawCalls_right_iff]

/-- A disk with a first partition and one that starts at `start`. -/
def twoPartitions (start : Nat) : Machine where
  partitions := ascii "major minor  #blocks  name\n\n   8        0 2147487744 sda\n" ++
    ascii "   8        1    1048576 sda1\n   8        2       4096 sda2\n"
  mapperDir := none
  lstat := fun _ => none
  openDev := fun path =>
    if path = ascii "/dev/sda" then some ⟨some 0, 4294975488, none⟩
    else if path = ascii "/dev/sda1" then some ⟨some 2048, 2097152, none⟩
    else if path = ascii "/dev/sda2" then some ⟨some start, 8192, none⟩
    else none
  sfdisk := fun _ _ => 0x83
  probe := fun t _ => t == .e2fs

/-- A mebibyte below the limit of the numbers. -/
def largeDisk : Machine := twoPartitions 4294965248

theorem twoPartitions_starts {start : Nat} (h : start < 2 ^ 32) : (twoPartitions start).Starts32 := by
  intro path dev first hopen hgeo
  simp only [twoPartitions] at hopen
  split at hopen
  · obtain rfl := Option.some.inj hopen
    obtain rfl := Option.some.inj hgeo
    decide
  · split at hopen
    · obtain rfl := Option.some.inj hopen
      obtain rfl := Option.some.inj hgeo
      decide
    · split at hopen
      · obtain rfl := Option.some.inj hopen
        obtain rfl := Option.some.inj hgeo
        exact h
      · cases hopen

theorem twoPartitions_calls : saveCalls (twoPartitions 2099200) plainSave =
    [⟨0, 2048⟩, ⟨2048, 4096⟩, ⟨2099200, 2101248⟩] := by decide +kernel

theorem twoPartitions_ranges :
    (save (twoPartitions 2099200) plainSave).rawArgs = [(0, 2047), (2048, 4095), (2099200, 2101247)] ∧
      (∀ x ∈ saveCalls (twoPartitions 2099200) plainSave, x.Right) ∧
      ∀ t ∈ saveTurns (twoPartitions 2099200) plainSave, t.1.RangesFit (twoPartitions 2099200) t.2 := by
  obtain ⟨hargs, hiff⟩ := save_raw_ranges_iff (twoPartitions_starts
    (by decide : 2099200 < 2 ^ 32)) plainSave
  have hright : ∀ x ∈ saveCalls (twoPartitions 2099200) plainSave, x.Right := by
    simp only [twoPartitions_calls, RawCall.right_iff]
    decide
  rw [twoPartitions_calls] at hargs
  exact ⟨hargs.trans (by decide), hright, hiff.mp hright⟩

theorem largeDisk_calls : saveCalls largeDisk plainSave =
    [⟨0, 2048⟩, ⟨2048, 4096⟩, ⟨4294965248, 4294967296⟩] := by decide +kernel

/-- The last of the calls never ends. -/
theorem last_range_endless : ¬ ∀ x ∈ saveCalls largeDisk plainSave, x.Right := by
  intro h
  rw [largeDisk_calls] at h
  exact absurd ((RawCall.right_iff _).mp (h ⟨4294965248, 4294967296⟩ (by simp))).2 (Nat.lt_irrefl _)

end PulseImaging
