import PulseImaging.ClusterMarks

/-! When `parse_datarun` gets over the data runs, and when it exits at one. -/

namespace PulseImaging

/-! ### Clusters -/

/-- The cluster at `pos` is in the file, and the sectors that its bits stand for are in the bitmap. -/
structure ClusterInside (file : VolumeFile) (boot : NtfsBoot) (pos cur alloc : Nat) : Prop where
  read : pos + boot.clustSize ≤ file.size
  marks : ∀ s, boot.Spread (8 * (cur % 2 ^ 32)) (bits (slice file.content pos boot.clustSize)) s → s < 8 * alloc

def clusterView (s : ClusterScan) : Nat × Nat × Nat := (s.pos, s.cur, s.bitmap.length)

def nextCluster (boot : NtfsBoot) (v : Nat × Nat × Nat) : Nat × Nat × Nat :=
  (v.1 + boot.clustSize, v.2.1 + boot.clustSize * boot.spc, v.2.2)

theorem nextCluster_iterate (boot : NtfsBoot) (n pos cur alloc : Nat) :
    (nextCluster boot)^[n] (pos, cur, alloc) =
    (pos + n * boot.clustSize, cur + n * (boot.clustSize * boot.spc), alloc) := by
  induction n with
  | zero => simp
  | succ n ih =>
    rw [Function.iterate_succ_apply', ih, nextCluster, Nat.succ_mul, Nat.succ_mul, Nat.add_assoc,
      Nat.add_assoc]

section Turn

variable {file : VolumeFile} {boot : NtfsBoot} {s s' : ClusterScan}

theorem readCluster_eq_some {pos lg : Nat} {clust : List Byte} :
    readCluster file pos lg = some clust ↔ pos + lg ≤ file.size ∧
      slice file.content pos lg = clust := by
  rw [readCluster, Option.ite_none_right_eq_some, Option.some_inj]

theorem readCluster_eq_none {pos lg : Nat} :
    readCluster file pos lg = none ↔ file.size < pos + lg := by
  rw [readCluster, ite_eq_right_iff, ← not_le]
  exact ⟨fun h hle => Option.some_ne_none _ (h hle), fun h hle => absurd hle h⟩

theorem clusterTurn_eq_done (h : clusterTurn file boot s = .done s') :
    ClusterInside file boot s.pos s.cur s.bitmap.length ∧
      clusterView s' = nextCluster boot (clusterView s) := by
  obtain ⟨clust, hclust, hturn⟩ := Fate.bind_eq_done.mp h
  obtain ⟨hread, rfl⟩ := readCluster_eq_some.mp (Fate.ofCall_eq_done.mp hclust)
  obtain ⟨bitmap, hset, hdone⟩ := Fate.bind_eq_done.mp hturn
  have hset := Fate.ofAccess_eq_done.mp hset
  obtain rfl := Fate.done.inj hdone
  refine ⟨⟨hread, (setClusters_storing boot _ _ 0 _).inside.mp ⟨bitmap, hset⟩⟩, ?_⟩
  rw [clusterView, setClusters_length hset]
  rfl

theorem clusterTurn_done (h : ClusterInside file boot s.pos s.cur s.bitmap.length) :
    ∃ s', clusterTurn file boot s = .done s' := by
  obtain ⟨bitmap, hset⟩ := (setClusters_storing boot (s.cur % 2 ^ 32) _ 0 s.bitmap).inside.mpr h.marks
  exact ⟨_, Fate.bind_eq_done.mpr ⟨_, Fate.ofCall_eq_done.mpr (readCluster_eq_some.mpr ⟨h.read, rfl⟩),
    Fate.bind_eq_done.mpr ⟨bitmap, Fate.ofAccess_eq_done.mpr hset, rfl⟩⟩⟩

theorem clusterTurn_eq_exit :
    clusterTurn file boot s = .exit ↔ file.size < s.pos + boot.clustSize := by
  rw [clusterTurn, Fate.bind_eq_exit, Fate.ofCall_eq_exit, readCluster_eq_none]
  refine or_iff_left ?_
  rintro ⟨clust, -, h⟩
  rcases Fate.bind_eq_exit.mp h with h | ⟨bitmap, -, h⟩
  · exact Fate.ofAccess_ne_exit _ h
  · cases h

end Turn

theorem clusterTurn_view (file : VolumeFile) (boot : NtfsBoot) :
    View (fun s s' => clusterTurn file boot s = .done s') clusterView (nextCluster boot)
      (fun v => ClusterInside file boot v.1 v.2.1 v.2.2) :=
  ⟨clusterTurn_eq_done, clusterTurn_done⟩

section Times

variable {file : VolumeFile} {boot : NtfsBoot} {n : Nat} {s s' : ClusterScan}

theorem clusters_eq_done (h : Fate.times (clusterTurn file boot) n s = .done s') :
    (∀ i < n, ClusterInside file boot (s.pos + i * boot.clustSize)
      (s.cur + i * (boot.clustSize * boot.spc))
      s.bitmap.length) ∧
      clusterView s' = (s.pos + n * boot.clustSize, s.cur + n * (boot.clustSize * boot.spc),
        s.bitmap.length) := by
  have h := (clusterTurn_view file boot).steps (Fate.times_eq_done.mp h)
  simpa only [clusterView, nextCluster_iterate] using h

theorem clusters_done (h : ∀ i < n, ClusterInside file boot (s.pos + i * boot.clustSize)
      (s.cur + i * (boot.clustSize * boot.spc)) s.bitmap.length) :
    ∃ s', Fate.times (clusterTurn file boot) n s = .done s' := by
  obtain ⟨s', hs'⟩ := (clusterTurn_view file boot).exists_steps (fun i hi => by
    rw [clusterView, nextCluster_iterate]
    exact h i hi)
  exact ⟨s', Fate.times_eq_done.mpr hs'⟩

theorem clusters_eq_exit : Fate.times (clusterTurn file boot) n s = .exit ↔
    ∃ i < n, (∀ j < i, ClusterInside file boot (s.pos + j * boot.clustSize)
      (s.cur + j * (boot.clustSize * boot.spc))
      s.bitmap.length) ∧ file.size < s.pos + i * boot.clustSize + boot.clustSize := by
  rw [Fate.times_eq_exit]
  refine exists_congr fun i => and_congr_right fun hi => ?_
  have h := (clusterTurn_view file boot).steps_iff i s (fun v => file.size < v.1 + boot.clustSize)
  simp only [clusterView, nextCluster_iterate] at h
  simp only [clusterTurn_eq_exit]
  exact h

end Times

/-! ### Runs -/

/-- What is seen of a `RunScan`: the length of the bitmap, not what is in it. -/
structure RunView where
  loffset : Int
  ptr : List Byte
  cur : Nat
  alloc : Nat

def RunScan.view (s : RunScan) : RunView := ⟨s.loffset, s.ptr, s.cur, s.bitmap.length⟩

def RunView.next (boot : NtfsBoot) (v : RunView) : RunView :=
  match nextRun v.loffset v.ptr with
  | some (length, offset, ptr) => ⟨offset, ptr, v.cur + runTurns length * (boot.clustSize * boot.spc), v.alloc⟩
  | none => v

/-- The run stands in the record, its clusters stand in the file and their sectors in the bitmap. -/
def RunView.Inside (file : VolumeFile) (boot : NtfsBoot) (v : RunView) : Prop :=
  ∃ length offset ptr pos, nextRun v.loffset v.ptr = some (length, offset, ptr) ∧ seekCluster boot offset = some pos ∧
    ∀ i < runTurns length,
      ClusterInside file boot (pos + i * boot.clustSize) (v.cur + i * (boot.clustSize * boot.spc)) v.alloc

/-- The run stands in the record, and it leads out of the file before it leads out of the bitmap. -/
def RunView.Exits (file : VolumeFile) (boot : NtfsBoot) (v : RunView) : Prop :=
  ∃ length offset ptr, nextRun v.loffset v.ptr = some (length, offset, ptr) ∧ (seekCluster boot offset = none ∨
    ∃ pos, seekCluster boot offset = some pos ∧ ∃ i < runTurns length,
      (∀ j < i, ClusterInside file boot (pos + j * boot.clustSize) (v.cur + j * (boot.clustSize * boot.spc)) v.alloc) ∧
        file.size < pos + i * boot.clustSize + boot.clustSize)

/-- A part of the bitmap is missing. -/
def RunView.Missing (boot : NtfsBoot) (filelg : Nat) (v : RunView) : Prop :=
  curDistance v.cur < filelg * boot.spc % 2 ^ 64

instance (boot : NtfsBoot) (filelg : Nat) (v : RunView) : Decidable (v.Missing boot filelg) :=
  inferInstanceAs (Decidable (_ < _))

section Runs

variable {file : VolumeFile} {boot : NtfsBoot} {filelg : Nat} {s : RunScan}

theorem runTurn_eq_done {y : RunScan ⊕ RunScan} (h : runTurn file boot filelg s = .done y) :
    s.view.Inside file boot ∧ ∃ s' : RunScan, s'.view = s.view.next boot ∧
      y = if (s.view.next boot).Missing boot filelg then .inl s' else .inr s' := by
  obtain ⟨⟨length, offset, ptr⟩, hrun, hturn⟩ := Fate.bind_eq_done.mp h
  obtain ⟨pos, hseek, hturn⟩ := Fate.bind_eq_done.mp hturn
  obtain ⟨c, hclusters, hdone⟩ := Fate.bind_eq_done.mp hturn
  have hrun := Fate.ofAccess_eq_done.mp hrun
  have hseek := Fate.ofCall_eq_done.mp hseek
  obtain ⟨hinside, hview⟩ := clusters_eq_done hclusters
  have hcur : c.cur = s.cur + runTurns length * (boot.clustSize * boot.spc) :=
    congrArg (fun v => v.2.1) hview
  have hlength : c.bitmap.length = s.bitmap.length := congrArg (fun v => v.2.2) hview
  have hnext : s.view.next boot = ⟨offset, ptr, c.cur, c.bitmap.length⟩ := by
    rw [RunView.next, RunScan.view, hrun, hcur, hlength]
  refine ⟨⟨length, offset, ptr, pos, hrun, hseek, hinside⟩, ⟨offset, ptr, c.cur, c.bitmap⟩,
    hnext.symm, ?_⟩
  rw [hnext]
  exact (Fate.done.inj hdone).symm

theorem runTurn_done (filelg : Nat) (h : s.view.Inside file boot) :
    ∃ y, runTurn file boot filelg s = .done y := by
  obtain ⟨length, offset, ptr, pos, hrun, hseek, hinside⟩ := h
  obtain ⟨c, hclusters⟩ := @clusters_done file boot (runTurns length) ⟨pos, s.cur, s.bitmap⟩ hinside
  exact ⟨_, Fate.bind_eq_done.mpr ⟨_, Fate.ofAccess_eq_done.mpr hrun, Fate.bind_eq_done.mpr ⟨pos,
    Fate.ofCall_eq_done.mpr hseek, Fate.bind_eq_done.mpr ⟨c, hclusters, rfl⟩⟩⟩⟩

theorem runTurn_eq_exit : runTurn file boot filelg s = .exit ↔ s.view.Exits file boot := by
  rw [runTurn, Fate.bind_eq_exit, or_iff_right (Fate.ofAccess_ne_exit _)]
  simp only [Fate.ofAccess_eq_done, Fate.bind_eq_exit, Fate.ofCall_eq_exit, Fate.ofCall_eq_done]
  constructor
  · rintro ⟨⟨length, offset, ptr⟩, hrun, hseek | ⟨pos, hseek, hclusters | ⟨c, -, hdone⟩⟩⟩
    · exact ⟨length, offset, ptr, hrun, .inl hseek⟩
    · exact ⟨length, offset, ptr, hrun, .inr ⟨pos, hseek, clusters_eq_exit.mp hclusters⟩⟩
    · cases hdone
  · rintro ⟨length, offset, ptr, hrun, hseek | ⟨pos, hseek, hclusters⟩⟩
    · exact ⟨_, hrun, .inl hseek⟩
    · exact ⟨_, hrun, .inr ⟨pos, hseek, .inl (clusters_eq_exit.mpr hclusters)⟩⟩

theorem runTurn_view (file : VolumeFile) (boot : NtfsBoot) (filelg : Nat) :
    View (GoesOn (runTurn file boot filelg)) RunScan.view (RunView.next boot)
      (fun v => v.Inside file boot ∧ (v.next boot).Missing boot filelg) := by
  refine ⟨fun {s s₁} h => ?_, fun {s} h => ?_⟩
  · obtain ⟨hinside, s', hview, hy⟩ := runTurn_eq_done h
    split at hy
    · next hmissing =>
      cases hy
      exact ⟨⟨hinside, hmissing⟩, hview⟩
    · cases hy
  · obtain ⟨y, hy⟩ := runTurn_done filelg h.1
    obtain ⟨-, s', -, rfl⟩ := runTurn_eq_done hy
    rw [if_pos h.2] at hy
    exact ⟨s', hy⟩

end Runs

/-! ### A list of runs -/

/-- The runs from `v` on are inside, and behind the last one, at `w`, no part of the bitmap is missing. -/
def RunView.LeadTo (file : VolumeFile) (boot : NtfsBoot) (filelg : Nat) (v w : RunView) : Prop :=
  ∃ n, (∀ i < n, ((RunView.next boot)^[i] v).Inside file boot ∧ ((RunView.next boot)^[i + 1] v).Missing boot filelg) ∧
    ((RunView.next boot)^[n] v).Inside file boot ∧ ¬ ((RunView.next boot)^[n + 1] v).Missing boot filelg ∧
    w = (RunView.next boot)^[n + 1] v

/-- The runs from `v` on are inside up to one that leads out of the file. -/
def RunView.LeadOut (file : VolumeFile) (boot : NtfsBoot) (filelg : Nat) (v : RunView) : Prop :=
  ∃ n, (∀ i < n, ((RunView.next boot)^[i] v).Inside file boot ∧ ((RunView.next boot)^[i + 1] v).Missing boot filelg) ∧
    ((RunView.next boot)^[n] v).Exits file boot

theorem nextRun_length {loffset offset : Int} {length : Nat} {ptr rest : List Byte}
    (h : nextRun loffset ptr = some (length, offset, rest)) : rest.length < ptr.length := by
  cases ptr with
  | nil => cases h
  | cons b ptr =>
    rw [nextRun] at h
    obtain ⟨-, h⟩ := Option.ite_none_right_eq_some.mp h
    cases h
    simp only [List.length_drop, List.length_cons]
    omega

section List

variable {file : VolumeFile} {boot : NtfsBoot} {filelg : Nat}

theorem RunView.Inside.next_length {v : RunView} (h : v.Inside file boot) :
    (v.next boot).ptr.length < v.ptr.length := by
  obtain ⟨length, offset, ptr, pos, hrun, -⟩ := h
  rw [RunView.next, hrun]
  exact nextRun_length hrun

/-- Each run takes a byte of the record, so the loop ends. -/
theorem RunView.iterate_length {v : RunView} {n : Nat}
    (h : ∀ i < n, ((RunView.next boot)^[i] v).Inside file boot) :
    n ≤ v.ptr.length := by
  have hall : ((RunView.next boot)^[n] v).ptr.length + n ≤ v.ptr.length := by
    induction n with
    | zero => exact le_refl _
    | succ n ih =>
      have hlt := (h n (Nat.lt_succ_self n)).next_length
      have hle := ih (fun i hi => h i (Nat.lt_succ_of_lt hi))
      rw [Function.iterate_succ_apply']
      omega
  omega

theorem ntfsRuns_iff {x : Fate RunScan} (hx : x ≠ .more) (ptr bitmap : List Byte) :
    ntfsRuns file boot filelg ptr bitmap = x ↔
      ∃ n s', Steps (GoesOn (runTurn file boot filelg)) n ⟨0, ptr, 0, bitmap⟩ s' ∧
      Fate.leave (runTurn file boot filelg) s' = x := by
  rw [ntfsRuns, Fate.iterate_iff hx]
  constructor
  · rintro ⟨n, -, s', h⟩
    exact ⟨n, s', h⟩
  · rintro ⟨n, s', hsteps, hlast⟩
    have hinside := ((runTurn_view file boot filelg).steps hsteps).1
    have hle := RunView.iterate_length (fun i hi => (hinside i hi).1)
    exact ⟨n, Nat.lt_succ_of_le hle, s', hsteps, hlast⟩

theorem ntfsRuns_eq_done {ptr bitmap : List Byte} {w : RunView} :
    (∃ s, s.view = w ∧ ntfsRuns file boot filelg ptr bitmap = .done s) ↔
      RunView.LeadTo file boot filelg ⟨0, ptr, 0, bitmap.length⟩ w := by
  have hlast {s : RunScan} : (∃ s', s'.view = w ∧
      Fate.leave (runTurn file boot filelg) s = .done s') ↔
      s.view.Inside file boot ∧ ¬ (s.view.next boot).Missing boot filelg ∧ w = s.view.next boot := by
    simp only [Fate.leave_eq_done]
    constructor
    · rintro ⟨s', rfl, h⟩
      obtain ⟨hinside, s₁, hview, hy⟩ := runTurn_eq_done h
      split at hy
      · cases hy
      · next hmissing =>
        cases hy
        exact ⟨hinside, hmissing, hview⟩
    · rintro ⟨hinside, hmissing, rfl⟩
      obtain ⟨y, hy⟩ := runTurn_done filelg hinside
      obtain ⟨-, s', hview, rfl⟩ := runTurn_eq_done hy
      rw [if_neg hmissing] at hy
      exact ⟨s', hview, hy⟩
  have hdone (s : RunScan) : ntfsRuns file boot filelg ptr bitmap = .done s ↔
    _ := ntfsRuns_iff (by simp) ptr bitmap
  have hsteps (n : Nat) := (runTurn_view file boot filelg).steps_iff n ⟨0, ptr, 0, bitmap⟩
    (fun v => v.Inside file boot ∧ ¬ (v.next boot).Missing boot filelg ∧ w = v.next boot)
  simp only [RunScan.view, ← Function.iterate_succ_apply' (RunView.next boot)] at hsteps
  rw [RunView.LeadTo]
  simp only [← hsteps]
  constructor
  · rintro ⟨s, hview, h⟩
    obtain ⟨n, s', hsteps, hleave⟩ := (hdone s).mp h
    exact ⟨n, s', hsteps, hlast.mp ⟨s, hview, hleave⟩⟩
  · rintro ⟨n, s', hsteps, h⟩
    obtain ⟨s, hview, hleave⟩ := hlast.mpr h
    exact ⟨s, hview, (hdone s).mpr ⟨n, s', hsteps, hleave⟩⟩

theorem ntfsRuns_eq_exit {ptr bitmap : List Byte} : ntfsRuns file boot filelg ptr bitmap = .exit ↔
    RunView.LeadOut file boot filelg ⟨0, ptr, 0, bitmap.length⟩ := by
  rw [ntfsRuns_iff (by simp), RunView.LeadOut]
  refine exists_congr fun n => ?_
  simp only [Fate.leave_eq_exit, runTurn_eq_exit]
  have h := (runTurn_view file boot filelg).steps_iff n ⟨0, ptr, 0, bitmap⟩
    (fun v => v.Exits file boot)
  simpa only [RunScan.view, ← Function.iterate_succ_apply' (RunView.next boot)] using h

end List

/-! ### The end of the bitmap -/

theorem clearBytes_succ (bitmap : List Byte) (nb k : Nat) : clearBytes bitmap nb (nb + (k + 1)) =
    if nb < bitmap.length then clearBytes (bitmap.set nb 0) (nb + 1) (nb + 1 + k) else .fault := by
  have hrange : List.range' nb (k + 1) = nb :: List.range' (nb + 1) k := List.range'_succ
  rw [clearBytes, clearBytes, Nat.add_sub_cancel_left, Nat.add_sub_cancel_left, hrange, Fate.loop]
  split
  · rfl
  · rfl

theorem clearBytes_eq_done {bitmap bitmap' : List Byte} {nb bitmaplg : Nat}
    (h : clearBytes bitmap nb bitmaplg = .done bitmap') :
    (bitmaplg ≤ nb ∨ bitmaplg ≤ bitmap.length) ∧ bitmap'.length = bitmap.length := by
  by_cases hle : bitmaplg ≤ nb
  · rw [clearBytes, Nat.sub_eq_zero_of_le hle] at h
    cases h
    exact ⟨.inl hle, rfl⟩
  · obtain ⟨k, rfl⟩ : ∃ k, bitmaplg = nb + (k + 1) := ⟨bitmaplg - nb - 1, by omega⟩
    induction k generalizing nb bitmap with
    | zero =>
      rw [clearBytes_succ] at h
      split at h
      · next hlt =>
        rw [clearBytes, Nat.add_zero, Nat.sub_self] at h
        cases h
        exact ⟨.inr hlt, List.length_set⟩
      · cases h
    | succ k ih =>
      rw [clearBytes_succ] at h
      split at h
      · have hrest := @ih (bitmap.set nb 0) (nb + 1) h (by omega)
        rw [List.length_set] at hrest
        exact ⟨.inr (by have := hrest.1; omega), hrest.2⟩
      · cases h

theorem clearBytes_done {bitmap : List Byte} {nb bitmaplg : Nat}
    (h : bitmaplg ≤ nb ∨ bitmaplg ≤ bitmap.length) :
    ∃ bitmap', clearBytes bitmap nb bitmaplg = .done bitmap' := by
  by_cases hle : bitmaplg ≤ nb
  · exact ⟨bitmap, by rw [clearBytes, Nat.sub_eq_zero_of_le hle]; rfl⟩
  · obtain ⟨k, rfl⟩ : ∃ k, bitmaplg = nb + (k + 1) := ⟨bitmaplg - nb - 1, by omega⟩
    have hlength := h.resolve_left hle
    induction k generalizing nb bitmap with
    | zero =>
      rw [clearBytes_succ, if_pos (by omega)]
      exact ⟨bitmap.set nb 0, by rw [clearBytes, Nat.add_zero, Nat.sub_self]; rfl⟩
    | succ k ih =>
      rw [clearBytes_succ, if_pos (by omega)]
      have hset : nb + 1 + (k + 1) ≤ (bitmap.set nb 0).length := by
        rw [List.length_set]
        omega
      exact ih (.inr hset) (by omega) hset

theorem clearBytes_ne_exit (bitmap : List Byte) (nb bitmaplg : Nat) :
    clearBytes bitmap nb bitmaplg ≠ .exit := by
  rw [clearBytes]
  generalize List.range' nb (bitmaplg - nb) = l
  induction l generalizing bitmap with
  | nil => exact fun h => by cases h
  | cons i l ih =>
    rw [Fate.loop]
    split
    · exact ih _
    · exact fun h => by cases h

end PulseImaging
