import PulseImaging.AllocatedSectors
import PulseImaging.DataRuns
import PulseImaging.NtfsWalk

/-! The expansion of the cluster bitmap of `$Bitmap` to a bitmap of sectors. -/

namespace PulseImaging

/-! ### Clusters of a run -/

section Clusters

variable {file : VolumeFile} {boot : NtfsBoot}

theorem clustSize_pos (boot : NtfsBoot) : 0 < boot.clustSize := Nat.mul_pos (by norm_num) boot.spc_pos

/-- One cluster in the file is stored for. -/
theorem clusterTurn_storing {pos cur : Nat} (hfile : pos + boot.clustSize ≤ file.size)
    (hcur : cur < 2 ^ 32) (bitmap : List Byte) :
    Storing bitmap (boot.Spread (8 * cur) (bits (slice file.content pos boot.clustSize)))
      (fun b => clusterTurn file boot ⟨pos, cur, bitmap⟩ =
        .done ⟨pos + boot.clustSize, cur + boot.clustSize * boot.spc, b⟩) := by
  refine (setClusters_storing boot cur (bits (slice file.content pos boot.clustSize)) 0 bitmap).congr
    (fun s => Iff.rfl) (fun b => ?_)
  have hread : readCluster file pos boot.clustSize = some (slice file.content pos boot.clustSize) :=
    if_pos hfile
  have hmod : cur % 2 ^ 32 = cur := Nat.mod_eq_of_lt hcur
  rw [clusterTurn, hread, Fate.ofCall, Fate.bind_done, hmod, Fate.bind_eq_done]
  simp only [Fate.ofAccess_eq_done, Fate.done.injEq, ClusterScan.mk.injEq, true_and]
  constructor
  · exact fun h => ⟨b, h, rfl⟩
  · rintro ⟨b', h, rfl⟩
    exact h

theorem clusters_storing {i pos cur : Nat} (hfile : pos + i * boot.clustSize ≤ file.size)
    (hcur : cur + i * boot.clustSize * boot.spc ≤ 2 ^ 32) (bitmap : List Byte) :
    Storing bitmap (boot.Spread (8 * cur) (bits (slice file.content pos (i * boot.clustSize))))
      (fun b => Fate.times (clusterTurn file boot) i ⟨pos, cur, bitmap⟩ =
        .done ⟨pos + i * boot.clustSize, cur + i * boot.clustSize * boot.spc, b⟩) := by
  induction i generalizing pos cur bitmap with
  | zero =>
    simp only [Nat.zero_mul, Nat.add_zero]
    refine (Storing.refl bitmap (spread_nil boot _)).congr (fun s => Iff.rfl) (fun b => ?_)
    simp [Fate.times]
  | succ i ih =>
    have hsucc : (i + 1) * boot.clustSize = boot.clustSize + i * boot.clustSize := by
      rw [Nat.succ_mul, Nat.add_comm]
    have hpos := Nat.mul_pos (clustSize_pos boot) boot.spc_pos
    rw [hsucc] at hfile hcur ⊢
    rw [Nat.add_mul] at hcur ⊢
    have hfirst := @clusterTurn_storing file boot pos cur (by omega) (by omega) bitmap
    have hrest := @ih (pos + boot.clustSize) (cur + boot.clustSize * boot.spc) (by omega) (by omega)
    refine (hfirst.trans (fun b _ => hrest b)).congr (fun s => ?_) (fun b => ?_)
    · rw [slice_add, bits_append, spread_append, bits_length, slice_length, Nat.mul_left_comm,
        Nat.mul_comm boot.spc, ← Nat.mul_add]
    · rw [Fate.times, Fate.bind_eq_done, Nat.add_assoc, Nat.add_assoc]
      constructor
      · rintro ⟨b', hb', hb⟩
        exact ⟨_, hb', hb⟩
      · rintro ⟨s, hs, hb⟩
        obtain ⟨-, hview⟩ := clusterTurn_eq_done hs
        obtain ⟨spos, scur, sbitmap⟩ := s
        obtain ⟨rfl, hview⟩ := Prod.mk.inj hview
        obtain ⟨rfl, -⟩ := Prod.mk.inj hview
        exact ⟨sbitmap, hs, hb⟩

end Clusters

/-! ### The runs -/

/-- What the clusters of the runs hold. -/
def runsContent (file : VolumeFile) (boot : NtfsBoot) (xs : List (Nat × Int)) : List Byte :=
  xs.flatMap (fun x => slice file.content (x.2.toNat * boot.clustSize) (x.1 * boot.clustSize))

/-- The runs lie inside the file. -/
def InFile (file : VolumeFile) (boot : NtfsBoot) (xs : List (Nat × Int)) : Prop :=
  ∀ x ∈ xs, 0 ≤ x.2 ∧ (x.2.toNat + x.1) * boot.clustSize ≤ file.size

theorem seekCluster_eq {file : VolumeFile} (hfile : file.size < 2 ^ 63) (boot : NtfsBoot)
    {c : Int} (hc : 0 ≤ c) (h : c.toNat * boot.clustSize ≤ file.size) :
    toLL c = c ∧ seekCluster boot c = some (c.toNat * boot.clustSize) := by
  have hpos := boot.spc_pos
  have hle : c.toNat ≤ c.toNat * boot.clustSize :=
    Nat.le_mul_of_pos_right _ (by rw [NtfsBoot.clustSize]; omega)
  have hmod : c % 2 ^ 64 = c := Int.emod_eq_of_lt hc (by omega)
  refine ⟨toLL_eq (by omega) (by omega), ?_⟩
  simp only [seekCluster, hmod, Nat.mod_eq_of_lt (show c.toNat * boot.clustSize < 2 ^ 64 by omega)]
  exact if_pos (by omega)

/-- The runs that are read, `n` bytes having been read before: the first, and others while bytes are missing. -/
def runsRead (boot : NtfsBoot) (filelg : Nat) : Nat → List (Nat × Int) → List (Nat × Int)
  | _, [] => []
  | n, x :: xs =>
    x :: if n + x.1 * boot.clustSize < filelg then runsRead boot filelg (n + x.1 * boot.clustSize) xs else []

theorem runsContent_cons (file : VolumeFile) (boot : NtfsBoot) (x : Nat × Int)
    (xs : List (Nat × Int)) :
    runsContent file boot (x :: xs) =
      slice file.content (x.2.toNat * boot.clustSize) (x.1 * boot.clustSize) ++
      runsContent file boot xs := rfl

theorem runsContent_cons_length (file : VolumeFile) (boot : NtfsBoot) (x : Nat × Int)
    (xs : List (Nat × Int)) :
    (runsContent file boot (x :: xs)).length = x.1 * boot.clustSize +
      (runsContent file boot xs).length := by
  rw [runsContent_cons, List.length_append, slice_length]

/-- A run list whose clusters are inside the file, with what the loop has reached. -/
structure RunList (file : VolumeFile) (boot : NtfsBoot) (filelg : Nat) (lcn : Int) (n : Nat) (rs : List DataRun) :
    Prop where
  near : ∀ r ∈ rs, r.Near
  inFile : InFile file boot (clusters lcn rs)
  start : 0 ≤ lcn ∧ lcn.toNat * boot.clustSize ≤ file.size
  covers : filelg ≤ n + (runsContent file boot (clusters lcn rs)).length

section RunList

variable {file : VolumeFile} {boot : NtfsBoot} {filelg : Nat} {lcn : Int} {n : Nat} {r : DataRun} {rs : List DataRun}

theorem RunList.tail (h : RunList file boot filelg lcn n (r :: rs)) :
    RunList file boot filelg (lcn + r.jump) (n + r.length * boot.clustSize) rs where
  near := fun r' hr' => h.near r' (List.mem_cons_of_mem _ hr')
  inFile := fun x hx => h.inFile x (List.mem_cons_of_mem _ hx)
  start := by
    obtain ⟨hpos, hsize⟩ := h.inFile _ List.mem_cons_self
    exact ⟨hpos, le_trans (Nat.mul_le_mul_right _ (Nat.le_add_right _ _)) hsize⟩
  covers := by
    have hcovers := h.covers
    rw [clusters, runsContent_cons_length, ← Nat.add_assoc] at hcovers
    exact hcovers

theorem RunList.toLL_start (h : RunList file boot filelg lcn n rs) (hfile : file.size < 2 ^ 63) :
    toLL lcn = lcn :=
  (seekCluster_eq hfile boot h.start.1 h.start.2).1

theorem RunList.nextRun (h : RunList file boot filelg lcn n (r :: rs)) (hfile : file.size < 2 ^ 63)
    (rest : List Byte) : nextRun lcn (r.encode ++ rest) = some (r.length, lcn + r.jump, rest) := by
  obtain ⟨hpos, hsize⟩ := h.tail.start
  have hle := Nat.le_mul_of_pos_right (lcn + r.jump).toNat (clustSize_pos boot)
  exact (nextRun_iff r (by omega) (by omega) rest).mpr (h.near r List.mem_cons_self)

theorem nextRun_end (h : toLL lcn = lcn) (rest : List Byte) :
    nextRun lcn (0 :: rest) = some (0, lcn, rest) := by
  rw [nextRun]
  simp [runLength, runOffset, h]

end RunList

/-- Below 2^31 the comparison is that of the numbers: a difference from there on is negative, and so large. -/
theorem curDistance_lt_iff {cur lg : Nat} (hcur : cur < 2 ^ 32) (hlg : lg ≤ 2 ^ 31) :
    curDistance cur < lg ↔ cur < lg := by
  rw [curDistance, Nat.mod_eq_of_lt hcur]
  split <;> omega

section Runs

variable {file : VolumeFile} {boot : NtfsBoot} {filelg : Nat}

/-- One run: what its turn gives, the clusters being stored for. -/
theorem runTurn_bind_done {β : Type} {k : RunScan ⊕ RunScan → Fate β} {x : β} {lcn c : Int}
    {length n pos : Nat} {ptr rest bitmap : List Byte}
    (hrun : nextRun lcn ptr = some (length, c, rest)) (hturns : runTurns length = length)
    (hseek : seekCluster boot c = some pos) (hlg : filelg * boot.spc ≤ 2 ^ 31)
    (hlt : (n + length * boot.clustSize) * boot.spc < 2 ^ 32) :
    (runTurn file boot filelg ⟨lcn, ptr, n * boot.spc, bitmap⟩).bind k = .done x ↔
      ∃ b, Fate.times (clusterTurn file boot) length ⟨pos, n * boot.spc, bitmap⟩ =
          .done ⟨pos + length * boot.clustSize, n * boot.spc + length * boot.clustSize * boot.spc,
            b⟩ ∧
        k (if n + length * boot.clustSize < filelg
            then .inl ⟨c, rest, (n + length * boot.clustSize) * boot.spc, b⟩
            else .inr ⟨c, rest, (n + length * boot.clustSize) * boot.spc, b⟩) = .done x := by
  have hmod : filelg * boot.spc % 2 ^ 64 = filelg * boot.spc := Nat.mod_eq_of_lt (by omega)
  have hcmp : curDistance ((n + length * boot.clustSize) * boot.spc) < filelg * boot.spc % 2 ^ 64 ↔
      n + length * boot.clustSize < filelg := by
    rw [hmod, curDistance_lt_iff hlt hlg, Nat.mul_lt_mul_right boot.spc_pos]
  rw [runTurn, hrun, Fate.ofAccess_some, Fate.bind_done, hseek, Fate.ofCall, Fate.bind_done, hturns,
    Fate.bind_assoc, Fate.bind_eq_done]
  constructor
  · rintro ⟨⟨cpos, ccur, b⟩, htimes, hk⟩
    obtain ⟨-, hview⟩ := clusters_eq_done htimes
    obtain ⟨rfl, hview⟩ := Prod.mk.inj hview
    obtain ⟨rfl, -⟩ := Prod.mk.inj hview
    rw [← Nat.mul_assoc] at htimes hk
    rw [← Nat.add_mul] at hk
    refine ⟨b, htimes, ?_⟩
    simpa only [Fate.bind_done, hcmp] using hk
  · rintro ⟨b, htimes, hk⟩
    refine ⟨_, htimes, ?_⟩
    rw [← Nat.add_mul]
    simpa only [Fate.bind_done, hcmp] using hk

/-- The clusters of a run whose bytes fit are fewer than an `int` holds. -/
theorem runTurns_eq {boot : NtfsBoot} {n length : Nat}
    (hlt : (n + length * boot.clustSize) * boot.spc < 2 ^ 32) : runTurns length = length := by
  have hbytes := Nat.le_mul_of_pos_right (n + length * boot.clustSize) boot.spc_pos
  have hclust : length * 512 ≤ length * boot.clustSize :=
    Nat.mul_le_mul_left _ (Nat.le_mul_of_pos_right 512 boot.spc_pos)
  exact if_pos (by omega)

/-- The loop over the runs stores for the clusters that are read. -/
theorem runs_storing (hfile : file.size < 2 ^ 63) (hlg : filelg * boot.spc ≤ 2 ^ 31)
    (rest : List Byte) {rs : List DataRun} {lcn : Int} {n fuel : Nat} (bitmap : List Byte)
    (hrs : RunList file boot filelg lcn n rs) (hrest : rs = [] → rest ≠ [])
    (hfuel : rs.length < fuel)
    (hlt : (n + (runsContent file boot (runsRead boot filelg n (clusters lcn rs))).length) *
      boot.spc < 2 ^ 32) :
    Storing bitmap (boot.Spread (8 * (n * boot.spc))
        (bits (runsContent file boot (runsRead boot filelg n (clusters lcn rs)))))
      (fun b => ∃ s, Fate.iterate (runTurn file boot filelg) fuel
        ⟨lcn, rs.flatMap DataRun.encode ++ 0 :: rest, n * boot.spc, bitmap⟩ = .done s ∧ s.ptr ≠ [] ∧
          s.bitmap = b) := by
  induction rs generalizing lcn n fuel bitmap with
  | nil =>
    obtain ⟨fuel, rfl⟩ := Nat.exists_eq_succ_of_ne_zero (Nat.ne_of_gt hfuel)
    have hseek := (seekCluster_eq hfile boot hrs.start.1 hrs.start.2).2
    have hrun := nextRun_end (hrs.toLL_start hfile) rest
    have hn : ¬ n + 0 * boot.clustSize < filelg := by
      rw [Nat.zero_mul]
      exact not_lt.mpr hrs.covers
    refine (Storing.refl bitmap (spread_nil boot _)).congr (fun s => Iff.rfl) (fun b => ?_)
    simp only [Fate.iterate, List.flatMap_nil, List.nil_append,
      runTurn_bind_done hrun rfl hseek hlg (by rw [Nat.zero_mul]; exact hlt), if_neg hn,
      Sum.elim_inr, Fate.times, Fate.done.injEq]
    constructor
    · rintro rfl
      exact ⟨_, ⟨bitmap, by simp, rfl⟩, hrest rfl, rfl⟩
    · rintro ⟨s, ⟨b', hb', rfl⟩, -, rfl⟩
      exact congrArg ClusterScan.bitmap hb'
  | cons r rs ih =>
    obtain ⟨fuel, rfl⟩ := Nat.exists_eq_succ_of_ne_zero (Nat.ne_of_gt (Nat.zero_lt_of_lt hfuel))
    have hseek := (seekCluster_eq hfile boot hrs.tail.start.1 hrs.tail.start.2).2
    have hrun := hrs.nextRun hfile (rs.flatMap DataRun.encode ++ 0 :: rest)
    rw [clusters, runsRead] at hlt ⊢
    rw [runsContent_cons_length, ← Nat.add_assoc] at hlt
    have hread := hrs.inFile _ List.mem_cons_self
    rw [Nat.add_mul] at hread
    have hlt' : (n + r.length * boot.clustSize) * boot.spc < 2 ^ 32 :=
      lt_of_le_of_lt (Nat.mul_le_mul_right _ (Nat.le_add_right _ _)) hlt
    have hturns := runTurns_eq hlt'
    have hfirst := @clusters_storing file boot r.length _ (n * boot.spc) hread.2 (by
      rw [← Nat.add_mul]
      exact hlt'.le) bitmap
    rw [List.flatMap_cons, List.append_assoc]
    by_cases hmore : n + r.length * boot.clustSize < filelg
    · rw [if_pos hmore] at hlt ⊢
      have hrs' : rs ≠ [] := by
        rintro rfl
        exact absurd hmore (not_lt.mpr hrs.tail.covers)
      refine (hfirst.trans (fun b _ => ih b hrs.tail (fun h => absurd h hrs')
        (Nat.lt_of_succ_lt_succ hfuel) hlt)).congr (fun s => ?_) (fun b => ?_)
      · rw [runsContent_cons, bits_append, spread_append, bits_length, slice_length,
          Nat.mul_left_comm boot.spc, Nat.mul_comm boot.spc, ← Nat.mul_add, ← Nat.add_mul]
      · simp only [Fate.iterate, runTurn_bind_done hrun hturns hseek hlg hlt', if_pos hmore,
          Sum.elim_inl]
        constructor
        · rintro ⟨b', hb', s, hs, hptr⟩
          exact ⟨s, ⟨b', hb', hs⟩, hptr⟩
        · rintro ⟨s, ⟨b', hb', hs⟩, hptr⟩
          exact ⟨b', hb', s, hs, hptr⟩
    · rw [if_neg hmore]
      refine hfirst.congr (fun s => ?_) (fun b => ?_)
      · rw [runsContent_cons, runsContent, List.flatMap_nil, List.append_nil]
      · simp only [Fate.iterate, runTurn_bind_done hrun hturns hseek hlg hlt', if_neg hmore,
          Sum.elim_inr, Fate.done.injEq]
        constructor
        · intro hb
          exact ⟨_, ⟨b, hb, rfl⟩, by simp, rfl⟩
        · rintro ⟨s, ⟨b', hb', rfl⟩, -, rfl⟩
          exact hb'

end Runs

/-! ### The end of the bitmap -/

theorem clearBytes_eq {bitmap : List Byte} {nb k : Nat} (h : nb + k = bitmap.length) :
    clearBytes bitmap nb (nb + k) = .done (bitmap.take nb ++ List.replicate k 0) := by
  induction k generalizing nb bitmap with
  | zero =>
    rw [clearBytes, Nat.add_zero, Nat.sub_self, List.take_of_length_le (by omega),
      List.replicate_zero, List.append_nil]
    rfl
  | succ k ih =>
    have hlen : nb + 1 + k = (bitmap.set nb 0).length := by
      rw [List.length_set]
      omega
    have htake : (bitmap.set nb 0).take (nb + 1) = bitmap.take nb ++ [0] := by
      rw [List.take_add_one, List.take_set_of_le le_rfl, List.getElem?_set_self (by omega)]
      rfl
    rw [clearBytes_succ, if_pos (by omega), ih hlen, htake, List.append_assoc, List.replicate_succ]
    rfl

/-- The bits before `nb` bytes are kept. -/
theorem clearBytes_spec (bitmap : List Byte) (nb : Nat) :
    ∃ bitmap', clearBytes bitmap nb bitmap.length = .done bitmap' ∧
      (∀ s, bitSet bitmap' s = true ↔ bitSet bitmap s = true ∧ s < 8 * nb) ∧
        ∀ b ∈ bitmap'.drop nb, b = 0 := by
  by_cases h : nb ≤ bitmap.length
  · obtain ⟨k, hk⟩ := Nat.exists_eq_add_of_le h
    have htake : (bitmap.take nb).length = nb := List.length_take_of_le h
    have hlen : (bits (bitmap.take nb)).length = 8 * nb := by rw [bits_length, htake]
    rw [hk, clearBytes_eq hk.symm]
    refine ⟨_, rfl, fun s => ?_, fun b hb => ?_⟩
    · rw [← bitSet_take h, bitSet, bitSet, bits_append]
      by_cases hs : s < 8 * nb
      · rw [List.getD_append _ _ _ _ (by omega)]
      · rw [List.getD_append_right _ _ _ _ (by omega),
          List.getD_eq_default (bits (bitmap.take nb)) _ (by omega)]
        exact iff_of_false (fun h => Bool.noConfusion
          ((bitSet_zeros _ _).symm.trans h)) Bool.false_ne_true
    · rw [List.drop_left' htake] at hb
      exact List.eq_of_mem_replicate hb
  · have hle : bitmap.length ≤ nb := (not_le.mp h).le
    refine ⟨bitmap, by rw [clearBytes, Nat.sub_eq_zero_of_le hle]; rfl, fun s => ?_, fun b hb => ?_⟩
    · refine (and_iff_left_of_imp fun hs => ?_).symm
      have := bitSet_lt hs
      omega
    · rw [List.drop_eq_nil_of_le hle] at hb
      cases hb

/-! ### The attributes -/

/-- A `$DATA` attribute that is not resident; a list without runs is not the end of the record. -/
structure DataAttribute (entry : List Byte) (ptr al rl : Nat) (rs : List DataRun) (rest : List Byte) : Prop where
  allocated : numberAt 8 entry (ptr + 0x28) = some al
  real : numberAt 8 entry (ptr + 0x30) = some rl
  initialized : numberAt 8 entry (ptr + 0x38) = some rl
  runs : entry.drop (ptr + 0x40) = rs.flatMap DataRun.encode ++ 0 :: rest
  behind : rs = [] → rest ≠ []

theorem numberAt_eq_some {n off v : Nat} {entry : List Byte} :
    numberAt n entry off = some v ↔ off + n ≤ entry.length ∧ fieldValue n entry off = v := by
  rw [← mftField_eq_done, mftField, Fate.ofAccess_eq_done]

theorem ntfsFilename_zeros {memory : Nat} {boot : NtfsBoot} {entry : List Byte} {ptr : Nat}
    {p : BitmapParams} (h : ntfsFilename memory boot entry ptr = .done p) :
    p.bitmap = List.replicate p.bitmaplg 0 := by
  simp only [ntfsFilename, mftField_bind_done] at h
  obtain ⟨-, -, h⟩ := h
  obtain ⟨bitmap, hcalloc, h⟩ := Fate.bind_eq_done.mp h
  obtain ⟨-, rfl⟩ := calloc_eq_some.mp (Fate.ofCall_eq_done.mp hcalloc)
  simp only [mftField_bind_done] at h
  obtain ⟨-, -, h⟩ := h
  obtain ⟨name, -, h⟩ := Fate.bind_eq_done.mp h
  obtain rfl := Fate.done.inj h
  rfl

theorem runs_length_le (rs : List DataRun) : rs.length ≤ (rs.flatMap DataRun.encode).length := by
  have h := List.length_le_sum_of_one_le (rs.map (fun r => r.encode.length)) (by
    intro n hn
    obtain ⟨r, -, rfl⟩ := List.mem_map.mp hn
    exact Nat.succ_pos _)
  rwa [List.length_map, ← List.length_flatMap] at h

/-- The runs cover the length, and no difference or address wraps while they are read. -/
structure RunsRecord (file : VolumeFile) (boot : NtfsBoot) (filelg : Nat) (rs : List DataRun) : Prop where
  size_lt : file.size < 2 ^ 63
  real_le : filelg * boot.spc ≤ 2 ^ 31
  read_lt : (runsContent file boot (runsRead boot filelg 0 (clusters 0 rs))).length * boot.spc < 2 ^ 32
  inFile : InFile file boot (clusters 0 rs)
  covers : filelg ≤ (runsContent file boot (clusters 0 rs)).length
  near : ∀ r ∈ rs, r.Near

/-- What the clusters that are read mark has its place in the bitmap. -/
def MarksFit (file : VolumeFile) (boot : NtfsBoot) (filelg alloc : Nat) (rs : List DataRun) : Prop :=
  ∀ s, boot.passes s →
    bitSet (runsContent file boot (runsRead boot filelg 0 (clusters 0 rs))) (s / boot.spc) = true → s < 8 * alloc

section

variable {memory : Nat} {file : VolumeFile} {boot : NtfsBoot} {entry : List Byte} {q ptr : Nat} {p : BitmapParams}
  {al rl : Nat} {rs : List DataRun} {rest : List Byte}

theorem RunsRecord.storing {filelg : Nat} (h : RunsRecord file boot filelg rs)
    (hdata : DataAttribute entry ptr al rl rs rest) (bitmap : List Byte) :
    Storing bitmap (boot.Spread 0 (bits (runsContent file boot
      (runsRead boot filelg 0 (clusters 0 rs)))))
      (fun b => ∃ s, ntfsRuns file boot filelg (entry.drop (ptr + 0x40)) bitmap = .done s ∧
        s.ptr ≠ [] ∧
        s.bitmap = b) := by
  have hlist : RunList file boot filelg 0 0 rs :=
    ⟨h.near, h.inFile, ⟨le_rfl, by simp⟩, by rw [Nat.zero_add]; exact h.covers⟩
  have hfuel : rs.length < (rs.flatMap DataRun.encode ++ 0 :: rest).length + 1 := by
    have := runs_length_le rs
    rw [List.length_append]
    omega
  have hstoring := runs_storing h.size_lt h.real_le rest bitmap hlist hdata.behind hfuel
    (by rw [Nat.zero_add]; exact h.read_lt)
  rw [Nat.zero_mul] at hstoring
  rw [hdata.runs]
  exact hstoring

/-- What is stored for the runs, cleared behind the real length. -/
theorem DataAttribute.ntfsDatarun_iff (hdata : DataAttribute entry ptr al rl rs rest)
    {p₁ p' : BitmapParams} (hsize : modifiedSize memory boot al rl p = .done p₁) :
    ntfsDatarun memory file boot entry ptr p = .done p' ↔
      ∃ b, (∃ s, ntfsRuns file boot p₁.filelg (entry.drop (ptr + 0x40)) p₁.bitmap = .done s ∧
        s.ptr ≠ [] ∧
          s.bitmap = b) ∧
        ∃ b', clearBytes b (p₁.filelg * boot.spc % 2 ^ 32) p₁.bitmaplg = .done b' ∧
          { p₁ with bitmap := b', bitmaplg := p₁.filelg * boot.spc % 2 ^ 32 } = p' := by
  obtain ⟨hal, halv⟩ := numberAt_eq_some.mp hdata.allocated
  obtain ⟨hrl, hrlv⟩ := numberAt_eq_some.mp hdata.real
  obtain ⟨hil, hilv⟩ := numberAt_eq_some.mp hdata.initialized
  simp only [ntfsDatarun, mftField_bind_done, halv, hrlv, hilv, Fate.orExit_eq_done, true_and,
    hsize, Fate.bind_done]
  simp only [Fate.bind_eq_done, Fate.ofAccess_eq_done, Fate.done.injEq]
  constructor
  · rintro ⟨-, -, -, s, hs, b, hb, b', hclear, hp'⟩
    refine ⟨s.bitmap, ⟨s, hs, fun hnil => ?_, rfl⟩, b', hclear, hp'⟩
    rw [hnil] at hb
    cases hb
  · rintro ⟨b, ⟨s, hs, hptr, rfl⟩, b', hclear, hp'⟩
    obtain ⟨c, rest', hc⟩ := List.exists_cons_of_ne_nil hptr
    exact ⟨hal, hrl, hil, s, hs, c, by rw [hc]; rfl, b', hclear, hp'⟩

/-- `$FILE_NAME` and `$DATA` with the same lengths. -/
structure BitmapRecord (memory : Nat) (file : VolumeFile) (boot : NtfsBoot) (entry : List Byte) (q ptr : Nat)
    (p : BitmapParams) (al rl : Nat) (rs : List DataRun) (rest : List Byte) : Prop where
  name : ntfsFilename memory boot entry q = .done p
  nameAllocated : numberAt 8 entry (q + 0x40) = some al
  nameReal : numberAt 8 entry (q + 0x48) = some rl
  data : DataAttribute entry ptr al rl rs rest
  runs : RunsRecord file boot rl rs

/-- With the same lengths in both attributes the comparison changes nothing. -/
theorem BitmapRecord.modifiedSize_eq
    (h : BitmapRecord memory file boot entry q ptr p al rl rs rest) :
    p.filelg = rl ∧ p.bitmaplg = al * boot.spc % 2 ^ 32 ∧
      p.bitmap = List.replicate (al * boot.spc % 2 ^ 32) 0 ∧
      modifiedSize memory boot al rl p = .done p := by
  obtain ⟨-, hal⟩ := numberAt_eq_some.mp h.nameAllocated
  obtain ⟨-, hrl⟩ := numberAt_eq_some.mp h.nameReal
  obtain ⟨hinside, hlengths⟩ := ntfsFilename_eq_done h.name
  have hzeros := ntfsFilename_zeros h.name
  have hsize : nameSize boot entry q = al * boot.spc % 2 ^ 32 := by
    rw [nameSize, hal, Nat.mod_mul_mod]
  have hmemory := hinside.memory
  have hfilelg : p.filelg = fieldValue 8 entry (q + 0x48) := congrArg BitmapLengths.filelg hlengths
  have hlg : p.bitmaplg = nameSize boot entry q := congrArg BitmapLengths.bitmaplg hlengths
  rw [hrl] at hfilelg
  rw [hsize] at hmemory hlg
  rw [hlg] at hzeros
  have hcalloc : calloc memory (al * boot.spc % 2 ^ 32) = some p.bitmap := by
    rw [calloc, if_pos hmemory, hzeros]
  have hsame : { p with bitmaplg := al * boot.spc % 2 ^ 32, bitmap := p.bitmap, filelg := rl } = p := by
    rw [← hlg, ← hfilelg]
  refine ⟨hfilelg, hlg, hzeros, ?_⟩
  rw [modifiedSize, hcalloc, Fate.ofCall, Fate.bind_done, hsame, ite_self]

theorem BitmapRecord.ntfsDatarun_iff
    (h : BitmapRecord memory file boot entry q ptr p al rl rs rest) {p' : BitmapParams} :
    ntfsDatarun memory file boot entry ptr p = .done p' ↔
      ∃ b, (∃ s, ntfsRuns file boot rl (entry.drop (ptr + 0x40))
        (List.replicate (al * boot.spc % 2 ^ 32) 0) = .done s ∧
          s.ptr ≠ [] ∧ s.bitmap = b) ∧
        ∃ b', clearBytes b (rl * boot.spc % 2 ^ 32) (al * boot.spc % 2 ^ 32) = .done b' ∧
          { p with bitmap := b', bitmaplg := rl * boot.spc % 2 ^ 32 } = p' := by
  obtain ⟨hfilelg, hlg, hzeros, hsize⟩ := h.modifiedSize_eq
  rw [h.data.ntfsDatarun_iff hsize, hfilelg, hlg, hzeros]

end

/-! ### Two volumes -/

/-- The attributes of `$Bitmap` with these lengths, the numbers being given by their bytes. -/
def nameAttribute (al rl : List Byte) : List Byte :=
  List.replicate 0x40 0 ++ al ++ rl ++ List.replicate 8 0 ++ [7, 0] ++ (ascii "$Bitmap").flatMap (fun b => [b, 0])

def dataAttribute (al rl : List Byte) (rs : List DataRun) : List Byte :=
  List.replicate 0x28 0 ++ al ++ rl ++ rl ++ rs.flatMap DataRun.encode ++ [0]

/-- A record with these attributes, at 0x30 and at 0x98; the second one has the length `lg`. -/
def bitmapEntry (al rl rl' : List Byte) (lg : Byte) (rs : List DataRun) : List Byte :=
  List.replicate 0x30 0 ++ [0x30, 0, 0, 0, 0x68, 0, 0, 0] ++ (nameAttribute al rl).drop 8 ++
    [0x80, 0, 0, 0, lg, 0, 0, 0] ++ (dataAttribute al rl' rs).drop 8 ++ List.replicate 4 0xFF ++ List.replicate 800 0

/-- 64 sectors with one cluster each. -/
def smallBoot : NtfsBoot := ⟨1, 64, by decide, by decide⟩

def smallVolume : VolumeFile := ⟨fun pos => if pos = 1024 then 5 else 0, 64 * 512⟩

theorem oneByte_length {b : Byte} : 1 ≤ [b].length ∧ [b].length ≤ 8 := by simp

theorem smallLength_length : 1 ≤ [(1 : Byte)].length ∧ [(1 : Byte)].length ≤ 8 := oneByte_length

theorem smallOffset_length : 1 ≤ [(2 : Byte)].length ∧ [(2 : Byte)].length ≤ 8 := oneByte_length

/-- The cluster 2. -/
def smallRun : DataRun := ⟨[1], [2], smallLength_length, smallOffset_length⟩

/-- The lengths are 512 and 8 in `$FILE_NAME`, and 512 and `rl` in `$DATA`. -/
def smallEntry (rl : Byte) : List Byte :=
  bitmapEntry [0, 2, 0, 0, 0, 0, 0, 0] [8, 0, 0, 0, 0, 0, 0, 0] [rl, 0, 0, 0, 0, 0, 0, 0] 0x44 [smallRun]

theorem smallRuns : RunsRecord smallVolume smallBoot 8 [smallRun] where
  size_lt := by decide
  real_le := by decide
  read_lt := by
    rw [show runsRead smallBoot 8 0 (clusters 0 [smallRun]) = [(1, 2)] by decide,
      runsContent_cons_length]
    decide
  inFile := by
    intro x hx
    rw [List.mem_singleton.mp hx]
    decide
  covers := by
    rw [clusters, runsContent_cons_length]
    decide
  near := fun r hr => Or.inl (by rw [List.mem_singleton.mp hr]; decide)

theorem smallEntry_data {rl : Byte} (h : rl = 8 ∨ rl = 16) :
    DataAttribute (smallEntry rl) 0x98 512 rl.toNat [smallRun]
      (List.replicate 4 0xFF ++ List.replicate 800 0) := by
  rcases h with rfl | rfl <;>
    exact ⟨by decide +kernel, by decide +kernel, by decide +kernel, by decide +kernel,
      fun h => absurd h (List.cons_ne_nil _ _)⟩

theorem smallEntry_name {rl : Byte} (h : rl = 8 ∨ rl = 16) :
    NameInside 512 smallBoot (smallEntry rl) 0x30 := by
  rcases h with rfl | rfl <;> exact ⟨by decide +kernel, by decide +kernel, by decide +kernel⟩

/-- What is read marks no sector behind as many bytes of the bitmap. -/
theorem marksFit_of_length {file : VolumeFile} {boot : NtfsBoot} {filelg alloc : Nat} {rs : List DataRun}
    (h : (runsContent file boot (runsRead boot filelg 0 (clusters 0 rs))).length * boot.spc ≤ alloc) :
    MarksFit file boot filelg alloc rs := by
  intro s _ hs
  have hlt := bitSet_lt hs
  rw [Nat.div_lt_iff_lt_mul boot.spc_pos, Nat.mul_assoc] at hlt
  omega

end PulseImaging
