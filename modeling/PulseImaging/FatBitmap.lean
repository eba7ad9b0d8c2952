import PulseImaging.ImageFat

/-! When the indexes of `image_fat` stay inside, and what its bitmap holds then. -/

namespace PulseImaging

theorem leValue_take_lt (n : Nat) (s : List Byte) : leValue (s.take n) < 256 ^ n :=
  Nat.lt_of_lt_of_le (leValue_lt _) (Nat.pow_le_pow_right (by norm_num) (List.length_take_le n s))

theorem FatVolume.nbSect_lt (vol : FatVolume) : vol.nbSect < 2 ^ 32 := by
  have h16 : vol.totSec16 < 256 ^ 2 := leValue_take_lt 2 _
  have h32 : vol.totSec32 < 256 ^ 4 := leValue_take_lt 4 _
  rw [FatVolume.nbSect]
  split <;> omega

theorem FatVolume.firstDataSector_lt (vol : FatVolume) :
    vol.firstDataSector < 2 ^ 32 := Nat.mod_lt _ (by norm_num)

/-! ### The cluster size -/

theorem clusterShift_eq_some {n shift : Nat} (h : clusterShift n = some shift) :
    n = 2 ^ shift ∧ shift ≤ 7 := by
  unfold clusterShift at h
  repeat' split at h
  all_goals
    first
    | cases h; constructor <;> norm_num [*]
    | cases h

/-! ### The number of clusters -/

/-- A count that is accepted did not wrap, but for clusters of one sector. -/
theorem FatVolume.clusters_cases {vol : FatVolume} {shift : Nat}
    (hspc : vol.secPerClus = 2 ^ shift) (hle : shift ≤ 7) (h : 4085 ≤ vol.clusters) :
    vol.firstDataSector + 4085 * vol.secPerClus ≤ vol.nbSect ∧
        vol.clusters = ((vol.nbSect - vol.firstDataSector) / vol.secPerClus : Nat) ∨
      vol.secPerClus = 1 ∧ vol.nbSect + 2 ^ 31 < vol.firstDataSector := by
  have hn := vol.nbSect_lt
  have hf := vol.firstDataSector_lt
  have he : vol.clusters =
      (((2 ^ 64 + vol.nbSect - vol.firstDataSector) % 2 ^ 64 / vol.secPerClus : Nat) : Int).bmod
      (2 ^ 32) := rfl
  rw [Int.bmod_def] at he
  rw [hspc] at he ⊢
  interval_cases shift <;> norm_num at he ⊢ <;> omega

/-! ### `check_bootsect` -/

/-- What is tested, and that there is memory for the FAT. -/
structure FatAccepted (memory : Nat) (vol : FatVolume) : Prop where
  bytsPerSec : vol.bytsPerSec = 512
  secPerClus : vol.secPerClus ≠ 0
  rsvdSecCnt : vol.rsvdSecCnt ≠ 0
  numFATs : vol.numFATs = 2
  clusters : 4085 ≤ vol.clusters
  memory : vol.fatSize * 512 % 2 ^ 32 ≤ memory

theorem skipSectors_eq (n : Nat) (f : List Byte) : skipSectors n f = f.drop (512 * n) := by
  induction n generalizing f with
  | zero => rfl
  | succ n ih => rw [skipSectors, ih, List.drop_drop, Nat.mul_succ, Nat.add_comm]

/-- What the device has of its first FAT. -/
def FatVolume.firstFat (vol : FatVolume) : List Byte :=
  ((vol.bootsect ++ vol.rest).drop (512 * vol.rsvdSecCnt)).take (512 * vol.fatSize)

theorem FatVolume.skip_eq {vol : FatVolume} (h : vol.rsvdSecCnt ≠ 0) :
    skipSectors (vol.rsvdSecCnt - 1) vol.rest = (vol.bootsect ++ vol.rest).drop
      (512 * vol.rsvdSecCnt) := by
  have hboot : vol.bootsect.drop (512 * vol.rsvdSecCnt) = [] :=
    List.drop_eq_nil_of_le (by rw [vol.bootsect_length]; omega)
  rw [skipSectors_eq, List.drop_append, hboot, vol.bootsect_length, List.nil_append,
    show 512 * vol.rsvdSecCnt - 512 = 512 * (vol.rsvdSecCnt - 1) by omega]

def FatVolume.params (vol : FatVolume) (fat : List Byte) : FatParams :=
  ⟨vol.nbSect, vol.secPerClus, vol.firstDataSector, decide (65525 ≤ vol.clusters), fat⟩

theorem checkBootsect_accepted {memory : Nat} {vol : FatVolume} (h : FatAccepted memory vol)
    (old : Nat → Byte) :
    checkBootsect memory old vol =
      (freadTo ((List.range (vol.fatSize * 512 % 2 ^ 32)).map old) vol.firstFat).bind
        (fun fat => .done (vol.params fat)) := by
  rw [checkBootsect, Fate.orExit_pos h.bytsPerSec, Fate.orExit_pos h.secPerClus,
    Fate.orExit_pos h.rsvdSecCnt,
    Fate.orExit_pos h.numFATs, Fate.orExit_pos h.clusters, FatVolume.readFat, malloc, if_pos h.memory,
    FatVolume.skip_eq h.rsvdSecCnt]
  rfl

theorem freadTo_ne_exit (buf data : List Byte) : freadTo buf data ≠ .exit := by
  rw [freadTo]
  split <;> simp

theorem freadTo_eq_done {buf data buf' : List Byte} :
    freadTo buf data = .done buf' ↔ data.length ≤ buf.length ∧
      buf' = data ++ buf.drop data.length := by
  rw [freadTo]
  split
  · rename_i h
    simp [h, eq_comm]
  · rename_i h
    simp [h]

theorem readFat_eq_exit {memory : Nat} {old : Nat → Byte} {vol : FatVolume} :
    vol.readFat memory old = .exit ↔ ¬ vol.fatSize * 512 % 2 ^ 32 ≤ memory := by
  rw [FatVolume.readFat, malloc]
  by_cases h : vol.fatSize * 512 % 2 ^ 32 ≤ memory
  · rw [if_pos h]
    exact ⟨fun he => absurd he (freadTo_ne_exit _ _), fun hno => absurd h hno⟩
  · rw [if_neg h]
    exact ⟨fun _ => h, fun _ => rfl⟩

theorem checkBootsect_exit_iff {memory : Nat} {old : Nat → Byte} {vol : FatVolume} :
    checkBootsect memory old vol = .exit ↔ ¬ FatAccepted memory vol := by
  have hread : (vol.readFat memory old).bind (fun fat => Fate.done (vol.params fat)) = .exit ↔
      ¬ vol.fatSize * 512 % 2 ^ 32 ≤ memory := by
    simp [Fate.bind_eq_exit, readFat_eq_exit]
  have he : checkBootsect memory old vol = .exit ↔ ¬ vol.bytsPerSec = 512 ∨ ¬ vol.secPerClus ≠ 0 ∨
      ¬ vol.rsvdSecCnt ≠ 0 ∨ ¬ vol.numFATs = 2 ∨ ¬ 4085 ≤ vol.clusters ∨
      ¬ vol.fatSize * 512 % 2 ^ 32 ≤ memory := by
    rw [← hread]
    simp only [checkBootsect, Fate.orExit_eq_exit]
    rfl
  rw [he]
  constructor
  · rintro (hno | hno | hno | hno | hno | hno) h
    exacts [hno h.bytsPerSec, hno h.secPerClus, hno h.rsvdSecCnt, hno h.numFATs, hno h.clusters,
      hno h.memory]
  · intro h
    by_contra hall
    simp only [not_or, not_not] at hall
    exact h ⟨hall.1, hall.2.1, hall.2.2.1, hall.2.2.2.1, hall.2.2.2.2.1, hall.2.2.2.2.2⟩

/-- The FAT has the bytes that were asked of `malloc`. -/
theorem checkBootsect_done {memory : Nat} {old : Nat → Byte} {vol : FatVolume} {cp : FatParams}
    (h : checkBootsect memory old vol = .done cp) :
    FatAccepted memory vol ∧ ∃ fat, cp = vol.params fat ∧
      fat.length = vol.fatSize * 512 % 2 ^ 32 := by
  have hacc : FatAccepted memory vol := by
    by_contra hno
    simp [checkBootsect_exit_iff.mpr hno] at h
  rw [checkBootsect_accepted hacc, Fate.bind_eq_done] at h
  obtain ⟨fat, hfat, hcp⟩ := h
  obtain ⟨hle, rfl⟩ := freadTo_eq_done.mp hfat
  simp only [List.length_map, List.length_range] at hle
  cases hcp
  exact ⟨hacc, _, rfl, by simp; omega⟩

/-! ### The indexes -/

def FatVolume.clustnb (vol : FatVolume) (i : Nat) : Nat := 2 + (i - vol.firstDataSector) / vol.secPerClus

def FatVolume.width (vol : FatVolume) : Nat := if 65525 ≤ vol.clusters then 4 else 2

theorem FatVolume.params_width (vol : FatVolume) (fat : List Byte) :
    (vol.params fat).width = vol.width := by
  simp [FatParams.width, FatVolume.params, FatVolume.width]

theorem checkFAT_eq {vol : FatVolume} {shift i : Nat} (hspc : vol.secPerClus = 2 ^ shift)
    (hle : shift ≤ 7) (hclusters : 4085 ≤ vol.clusters) (hfirst : vol.firstDataSector ≤ i)
    (hi : i < vol.nbSect) (fat : List Byte) :
    checkFAT (vol.params fat) shift i =
      (Fate.ofAccess (numberAt vol.width fat (vol.width * vol.clustnb i))).bind
        (fun ent => .done (ent != 0)) := by
  have hn := vol.nbSect_lt
  have hsmall : 2 + (i - vol.firstDataSector) / 2 ^ shift < 2 ^ 32 := by
    have hc := vol.clusters_cases hspc hle hclusters
    have hlt : vol.clusters < 2 ^ 31 := by
      have := Int.bmod_lt
        (x := (((2 ^ 64 + vol.nbSect - vol.firstDataSector) % 2 ^ 64 / vol.secPerClus : Nat) : Int))
        (m := 2 ^ 32) (by norm_num)
      exact this
    have hdiv : (i - vol.firstDataSector) / 2 ^ shift ≤
        (vol.nbSect - vol.firstDataSector) / 2 ^ shift := Nat.div_le_div_right (by omega)
    rw [hspc] at hc
    omega
  have hmod : (2 ^ 32 + i - vol.firstDataSector) % 2 ^ 32 = i - vol.firstDataSector := by omega
  have hclust : (2 + ((2 ^ 32 + i - vol.firstDataSector) % 2 ^ 32) >>> shift) % 2 ^ 32 =
      vol.clustnb i := by
    rw [hmod, Nat.shiftRight_eq_div_pow, Nat.mod_eq_of_lt hsmall, FatVolume.clustnb, hspc]
  rw [checkFAT, vol.params_width, ← hclust]
  rfl

theorem checkFAT_ends (cp : FatParams) (shift i : Nat) :
    checkFAT cp shift i = .fault ∨ ∃ t, checkFAT cp shift i = .done t := by
  rw [checkFAT]
  cases numberAt cp.width cp.fat
    (cp.width * ((2 + ((2 ^ 32 + i - cp.firstDataSector) % 2 ^ 32) >>> shift) % 2 ^ 32)) <;> simp

theorem numberAt_of_le {n off : Nat} {ptr : List Byte} (h : off + n ≤ ptr.length) :
    numberAt n ptr off = some (leValue ((ptr.drop off).take n)) := if_pos h

theorem numberAt_of_lt {n off : Nat} {ptr : List Byte} (h : ptr.length < off + n) :
    numberAt n ptr off = none :=
  if_neg (by omega)

def FatVolume.bitmapLg (vol : FatVolume) : Nat := (vol.nbSect + 7) / 8 % 2 ^ 32

theorem bitmapLength {vol : FatVolume} : vol.nbSect ≤ 8 * vol.bitmapLg := by
  rw [FatVolume.bitmapLg]
  have := vol.nbSect_lt
  omega

theorem checkFAT_safe_iff {vol : FatVolume} {shift i : Nat} (hspc : vol.secPerClus = 2 ^ shift)
    (hle : shift ≤ 7) (hclusters : 4085 ≤ vol.clusters) (hfirst : vol.firstDataSector ≤ i)
    (hi : i < vol.nbSect) (fat : List Byte) :
    MarkSafe (checkFAT (vol.params fat) shift) id (8 * vol.bitmapLg) i ↔
      vol.width * (vol.clustnb i + 1) ≤ fat.length := by
  have hin : i < 8 * vol.bitmapLg := Nat.lt_of_lt_of_le hi bitmapLength
  rw [MarkSafe, checkFAT_eq hspc hle hclusters hfirst hi, Nat.mul_succ]
  constructor
  · rintro ⟨t, ht, -⟩
    by_contra hlt
    simp [numberAt_of_lt (not_le.mp hlt)] at ht
  · intro h
    rw [numberAt_of_le h]
    exact ⟨_, rfl, fun _ => hin⟩

theorem clustnb_mono {vol : FatVolume} {i j : Nat} (h : i ≤ j) : vol.clustnb i ≤ vol.clustnb j :=
  Nat.add_le_add_left (Nat.div_le_div_right (Nat.sub_le_sub_right h _)) _

theorem allocatedSectorsFat_eq {vol : FatVolume} {shift : Nat}
    (h : clusterShift vol.secPerClus = some shift) (fat : List Byte) :
    allocatedSectorsFat (vol.params fat) =
      (markAll vol.firstDataSector (List.replicate vol.bitmapLg 0)).bind
        (markLoop (checkFAT (vol.params fat) shift) id
          (List.range' vol.firstDataSector (vol.nbSect - vol.firstDataSector))) := by
  simp [allocatedSectorsFat, FatVolume.params, FatVolume.bitmapLg, h]

theorem reserved_marks {vol : FatVolume} (h : vol.firstDataSector ≤ vol.nbSect) :
    ∃ b, markAll vol.firstDataSector (List.replicate vol.bitmapLg 0) = .done b ∧
      b.length = vol.bitmapLg ∧ ∀ s, bitSet b s = true ↔ s < vol.firstDataSector :=
  markAll_spec (h.trans bitmapLength)

theorem allocatedSectorsFat_safe_iff {memory : Nat} {vol : FatVolume}
    (hacc : FatAccepted memory vol) (fat : List Byte) :
    allocatedSectorsFat (vol.params fat) ≠ .fault ↔
      clusterShift vol.secPerClus = none ∨ vol.firstDataSector ≤ vol.nbSect ∧
        vol.width * (vol.clustnb (vol.nbSect - 1) + 1) ≤ fat.length := by
  cases hshift : clusterShift vol.secPerClus with
  | none => simp [allocatedSectorsFat, FatVolume.params, hshift]
  | some shift =>
    obtain ⟨hspc, hle⟩ := clusterShift_eq_some hshift
    have hcases := vol.clusters_cases hspc hle hacc.clusters
    have hpos : 0 < vol.secPerClus := Nat.pos_of_ne_zero hacc.secPerClus
    rw [allocatedSectorsFat_eq hshift]
    by_cases hfirst : vol.firstDataSector ≤ vol.nbSect
    · obtain ⟨b, hb, hlg, -⟩ := reserved_marks hfirst
      rw [hb, Fate.bind_done, markLoop_safe_iff (checkFAT_ends _ _), hlg]
      constructor
      · intro hsafe
        have hmem : vol.nbSect - 1 ∈ List.range' vol.firstDataSector
            (vol.nbSect - vol.firstDataSector) := by
          rw [List.mem_range'_1]
          omega
        exact Or.inr ⟨hfirst,
          (checkFAT_safe_iff hspc hle hacc.clusters (by omega) (by omega) fat).mp (hsafe _ hmem)⟩
      · rintro (hno | ⟨-, hlast⟩) i hi
        · cases hno
        · rw [List.mem_range'_1] at hi
          exact (checkFAT_safe_iff hspc hle hacc.clusters (by omega) (by omega) fat).mpr
            (le_trans (Nat.mul_le_mul_left _ (Nat.succ_le_succ (clustnb_mono (by omega)))) hlast)
    · have hn := vol.nbSect_lt
      have hlg : vol.bitmapLg ≤ (vol.nbSect + 7) / 8 := Nat.mod_le _ _
      rw [markAll_fault (by omega)]
      simp [hfirst]

/-! ### The bitmap -/

/-- An entry of the first FAT on the device. -/
def FatVolume.entry (vol : FatVolume) (c : Nat) : Nat :=
  leValue (((vol.bootsect ++ vol.rest).drop (512 * vol.rsvdSecCnt + vol.width * c)).take vol.width)

/-- The FAT, on the device, has an entry for every cluster that touches the volume. -/
def FatVolume.HasEntries (vol : FatVolume) : Prop :=
  ∀ i, vol.firstDataSector ≤ i → i < vol.nbSect → vol.width * (vol.clustnb i + 1) ≤ vol.firstFat.length

theorem hasEntries_of_last {vol : FatVolume}
    (h : vol.width * (vol.clustnb (vol.nbSect - 1) + 1) ≤ vol.firstFat.length) :
    vol.HasEntries := fun _ _ hi =>
  le_trans (Nat.mul_le_mul_left _ (Nat.succ_le_succ (clustnb_mono (by omega)))) h

/-- The sectors up to the first data sector and those of clusters whose entry is not zero. -/
def FatExact (vol : FatVolume) (bitmap : List Byte) : Prop :=
  bitmap.length = (vol.nbSect + 7) / 8 ∧ ∀ i, bitSet bitmap i = true ↔
    i < vol.nbSect ∧ (i < vol.firstDataSector ∨ vol.entry (vol.clustnb i) ≠ 0)

theorem FatVolume.entry_eq {vol : FatVolume} {c : Nat}
    (h : vol.width * (c + 1) ≤ vol.firstFat.length) (s : List Byte) :
    leValue (((vol.firstFat ++ s).drop (vol.width * c)).take vol.width) = vol.entry c := by
  have hsize : vol.firstFat.length ≤ 512 * vol.fatSize := List.length_take_le _ _
  rw [Nat.mul_succ] at h
  have htake : min vol.width (512 * vol.fatSize - vol.width * c) = vol.width := by omega
  have hlength : vol.width ≤ (vol.firstFat.drop (vol.width * c)).length := by
    rw [List.length_drop]
    omega
  rw [List.drop_append_of_le_length (by omega), List.take_append_of_le_length hlength,
    FatVolume.firstFat, List.drop_take, List.take_take, htake, List.drop_drop, FatVolume.entry]

theorem checkBootsect_done_iff {memory : Nat} {old : Nat → Byte} {vol : FatVolume}
    (h : FatAccepted memory vol) {cp : FatParams} :
    checkBootsect memory old vol = .done cp ↔ vol.firstFat.length ≤ vol.fatSize * 512 % 2 ^ 32 ∧
      cp = vol.params (vol.firstFat ++
        ((List.range (vol.fatSize * 512 % 2 ^ 32)).map old).drop vol.firstFat.length) := by
  rw [checkBootsect_accepted h, Fate.bind_eq_done]
  constructor
  · rintro ⟨fat, hfat, hcp⟩
    obtain ⟨hle, rfl⟩ := freadTo_eq_done.mp hfat
    cases hcp
    exact ⟨by simpa using hle, rfl⟩
  · rintro ⟨hle, rfl⟩
    exact ⟨_, freadTo_eq_done.mpr ⟨by simpa using hle, rfl⟩, rfl⟩

theorem bitmapLg_eq (vol : FatVolume) : vol.bitmapLg = (vol.nbSect + 7) / 8 := by
  have := vol.nbSect_lt
  exact Nat.mod_eq_of_lt (by omega)

theorem allocatedSectorsFat_spec {vol : FatVolume} {shift : Nat}
    (hshift : clusterShift vol.secPerClus = some shift) (hclusters : 4085 ≤ vol.clusters)
    (hfirst : vol.firstDataSector ≤ vol.nbSect) (hentries : vol.HasEntries) (s : List Byte) :
    ∃ bitmap, allocatedSectorsFat (vol.params (vol.firstFat ++ s)) = .done bitmap ∧
      FatExact vol bitmap := by
  obtain ⟨hspc, hle⟩ := clusterShift_eq_some hshift
  obtain ⟨b, hb, hlg, hbits⟩ := reserved_marks hfirst
  have hmem {i : Nat} : i ∈ List.range' vol.firstDataSector (vol.nbSect - vol.firstDataSector) ↔
      vol.firstDataSector ≤ i ∧ i < vol.nbSect := by
    rw [List.mem_range'_1]
    omega
  have htest {i : Nat} (h1 : vol.firstDataSector ≤ i) (h2 : i < vol.nbSect) :
      checkFAT (vol.params (vol.firstFat ++ s)) shift i = .done (vol.entry (vol.clustnb i) != 0) := by
    have hin := hentries i h1 h2
    have hnumber : vol.width * vol.clustnb i + vol.width ≤ (vol.firstFat ++ s).length := by
      rw [List.length_append, ← Nat.mul_succ]
      exact Nat.le_add_right_of_le hin
    rw [checkFAT_eq hspc hle hclusters h1 h2, numberAt_of_le hnumber, vol.entry_eq hin]
    rfl
  obtain ⟨bitmap, he, hmarks⟩ := markLoop_spec (checkFAT (vol.params (vol.firstFat ++ s)) shift) id
    (List.range' vol.firstDataSector (vol.nbSect - vol.firstDataSector)) b (by
      intro i hi
      obtain ⟨h1, h2⟩ := hmem.mp hi
      exact ⟨_, htest h1 h2, fun _ => by rw [hlg]; exact Nat.lt_of_lt_of_le h2 bitmapLength⟩)
  refine ⟨bitmap, by rw [allocatedSectorsFat_eq hshift, hb, Fate.bind_done, he],
    by rw [hmarks.1, hlg, bitmapLg_eq], fun i => ?_⟩
  rw [hmarks.2, hbits]
  constructor
  · rintro (h | ⟨x, hi, ht, rfl⟩)
    · exact ⟨by omega, Or.inl h⟩
    · obtain ⟨h1, h2⟩ := hmem.mp hi
      rw [htest h1 h2] at ht
      exact ⟨h2, Or.inr (by simpa using ht)⟩
  · rintro ⟨h2, h | hne⟩
    · exact Or.inl h
    · by_cases h1 : vol.firstDataSector ≤ i
      · exact Or.inr ⟨i, hmem.mpr ⟨h1, h2⟩, by rw [htest h1 h2]; simpa using hne, rfl⟩
      · exact Or.inl (by omega)

/-! ### Volumes with clusters of one sector -/

/-- A boot sector without a root directory. -/
def fatBootsect (totSec32 fatSz32 : Nat) : List Byte :=
  List.replicate 11 0 ++ leBytes 2 512 ++ [1] ++ leBytes 2 1 ++ [2] ++ List.replicate 15 0 ++ leBytes 4 totSec32 ++
    leBytes 4 fatSz32 ++ List.replicate 472 0

theorem fatBootsect_length (totSec32 fatSz32 : Nat) :
    (fatBootsect totSec32 fatSz32).length = 512 := by
  simp only [fatBootsect, List.length_append, List.length_replicate, leBytes_length,
    List.length_singleton]

/-- The other sectors are clear. -/
def clearVolume (totSec32 fatSz32 : Nat) : FatVolume :=
  ⟨fatBootsect totSec32 fatSz32, List.replicate (512 * (totSec32 - 1)) 0, fatBootsect_length totSec32 fatSz32⟩

theorem clearVolume_accepted {totSec32 fatSz32 memory : Nat}
    (hfields : (clearVolume totSec32 fatSz32).bytsPerSec = 512 ∧
      (clearVolume totSec32 fatSz32).secPerClus ≠ 0 ∧
      (clearVolume totSec32 fatSz32).rsvdSecCnt ≠ 0 ∧ (clearVolume totSec32 fatSz32).numFATs = 2 ∧
      4085 ≤ (clearVolume totSec32 fatSz32).clusters)
    (hmemory : (clearVolume totSec32 fatSz32).fatSize * 512 % 2 ^ 32 ≤ memory) :
    FatAccepted memory (clearVolume totSec32 fatSz32) :=
  ⟨hfields.1, hfields.2.1, hfields.2.2.1, hfields.2.2.2.1, hfields.2.2.2.2, hmemory⟩

theorem firstFat_length (vol : FatVolume) :
    vol.firstFat.length = min (512 * vol.fatSize) (512 + vol.rest.length - 512 * vol.rsvdSecCnt) := by
  rw [FatVolume.firstFat, List.length_take, List.length_drop, List.length_append, vol.bootsect_length]

theorem checkBootsect_small {memory : Nat} {vol : FatVolume} (h : FatAccepted memory vol)
    (hsize : vol.fatSize < 2 ^ 23) (old : Nat → Byte) :
    ∃ cp, checkBootsect memory old vol = .done cp := by
  have hfat := firstFat_length vol
  exact ⟨_, (checkBootsect_done_iff h).mpr ⟨by omega, rfl⟩⟩

/-- 4085 clusters, which have their entries in 16 sectors. -/
theorem clearVolume_16 : FatAccepted 8192 (clearVolume 4118 16) :=
  clearVolume_accepted (by decide) (by decide)

theorem clearVolume_16_entries : (clearVolume 4118 16).HasEntries := by
  apply hasEntries_of_last
  have hrest : (clearVolume 4118 16).rest.length = 512 * 4117 := List.length_replicate
  rw [firstFat_length, hrest]
  decide

/-- Nothing outside the FAT and the bitmap is accessed, exactly when the FAT has an entry for the last sector. -/
theorem fat_indexes_inside_iff {memory : Nat} {old : Nat → Byte} {vol : FatVolume} {cp : FatParams}
    (h : checkBootsect memory old vol = .done cp) :
    allocatedSectorsFat cp ≠ .fault ↔
      clusterShift vol.secPerClus = none ∨ vol.firstDataSector ≤ vol.nbSect ∧
        vol.width * (vol.clustnb (vol.nbSect - 1) + 1) ≤ vol.fatSize * 512 % 2 ^ 32 := by
  obtain ⟨hacc, fat, rfl, hlength⟩ := checkBootsect_done h
  rw [allocatedSectorsFat_safe_iff hacc, hlength]

theorem fat_indexes_inside_clear : ∃ cp, checkBootsect 8192 (fun _ => 0) (clearVolume 4118 16) = .done cp ∧
    allocatedSectorsFat cp ≠ .fault := by
  obtain ⟨cp, h⟩ := checkBootsect_small clearVolume_16 (by decide) (fun _ => 0)
  exact ⟨cp, h, (fat_indexes_inside_iff h).mpr (Or.inr ⟨by decide, by decide⟩)⟩

/-- One sector has 256 entries only. -/
theorem short_fat_outside :
    ¬ ∀ (memory : Nat) (old : Nat → Byte) (vol : FatVolume) (cp : FatParams),
      checkBootsect memory old vol = .done cp → allocatedSectorsFat cp ≠ .fault := by
  intro hclaim
  have hacc : FatAccepted 512 (clearVolume 4088 1) := clearVolume_accepted (by decide) (by decide)
  obtain ⟨cp, h⟩ := checkBootsect_small hacc (by decide) (fun _ => 0)
  obtain ⟨-, fat, rfl, hlength⟩ := checkBootsect_done h
  rcases (allocatedSectorsFat_safe_iff hacc fat).mp (hclaim _ _ _ _ h) with hno | ⟨-, hle⟩
  · exact absurd hno (by decide)
  · rw [hlength] at hle
    exact absurd hle (by decide)

/-- The bitmap is exact when the FAT fits into what `malloc` was asked for, and only then. -/
theorem fat_bitmap_exact_iff {memory : Nat} {old : Nat → Byte} {vol : FatVolume} (hacc : FatAccepted memory vol)
    (hspc : (clusterShift vol.secPerClus).isSome) (hentries : vol.HasEntries)
    (hfirst : vol.firstDataSector ≤ vol.nbSect) :
    (∃ bitmap, imageFat memory old vol = .done bitmap ∧ FatExact vol bitmap) ↔
      vol.firstFat.length ≤ vol.fatSize * 512 % 2 ^ 32 := by
  obtain ⟨shift, hshift⟩ := Option.isSome_iff_exists.mp hspc
  constructor
  · rintro ⟨bitmap, he, -⟩
    obtain ⟨cp, hcp, -⟩ := Fate.bind_eq_done.mp he
    exact ((checkBootsect_done_iff hacc).mp hcp).1
  · intro hle
    rw [imageFat, (checkBootsect_done_iff hacc).mpr ⟨hle, rfl⟩, Fate.bind_done]
    exact allocatedSectorsFat_spec hshift hacc.clusters hfirst hentries _

theorem fat_bitmap_exact_clear :
    ∃ bitmap, imageFat 8192 (fun _ => 0) (clearVolume 4118 16) = .done bitmap ∧
      FatExact (clearVolume 4118 16) bitmap := by
  have hfat := firstFat_length (clearVolume 4118 16)
  have hsize : (clearVolume 4118 16).fatSize = 16 := by decide
  exact (fat_bitmap_exact_iff clearVolume_16 (by decide) clearVolume_16_entries (by decide)).mpr
    (by omega)

/-- With 2^23 + 1 sectors the product wraps, and `malloc` is asked for one sector. -/
theorem large_fat_not_exact :
    ¬ ∀ (memory : Nat) (old : Nat → Byte) (vol : FatVolume), FatAccepted memory vol →
      (clusterShift vol.secPerClus).isSome → vol.HasEntries → vol.firstDataSector ≤ vol.nbSect →
      ∃ bitmap, imageFat memory old vol = .done bitmap ∧ FatExact vol bitmap := by
  intro hclaim
  have hacc : FatAccepted 512 (clearVolume 16781304 8388609) :=
    clearVolume_accepted (by decide) (by decide)
  have hsize : (clearVolume 16781304 8388609).fatSize = 8388609 := by decide
  have hfat : (clearVolume 16781304 8388609).firstFat.length = 512 * 8388609 := by
    have hrest : (clearVolume 16781304 8388609).rest.length = 512 * 16781303 := List.length_replicate
    have hrsvd : (clearVolume 16781304 8388609).rsvdSecCnt = 1 := by decide
    rw [firstFat_length, hrest, hsize, hrsvd]
    decide
  have hentries : (clearVolume 16781304 8388609).HasEntries := by
    apply hasEntries_of_last
    rw [hfat]
    decide
  obtain ⟨bitmap, he, -⟩ := hclaim 512 (fun _ => 0) _ hacc (by decide) hentries (by decide)
  obtain ⟨cp, hcp, -⟩ := Fate.bind_eq_done.mp he
  have hle := ((checkBootsect_done_iff hacc).mp hcp).1
  rw [hfat, hsize] at hle
  exact absurd hle (by decide)

end PulseImaging
