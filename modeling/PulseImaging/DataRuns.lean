import PulseImaging.ImageNtfs

/-! The runs of a file on NTFS, and what `parse_datarun` makes of them. -/

namespace PulseImaging

/-- A data run with between one and eight bytes for its length and for its offset. -/
structure DataRun where
  lg : List Byte
  off : List Byte
  lg_length : 1 ≤ lg.length ∧ lg.length ≤ 8
  off_length : 1 ≤ off.length ∧ off.length ≤ 8

def DataRun.encode (r : DataRun) : List Byte :=
  UInt8.ofNat (16 * r.off.length + r.lg.length) :: (r.lg ++ r.off)

def DataRun.length (r : DataRun) : Nat := leValue r.lg

/-- The distance from the run before. -/
def DataRun.jump (r : DataRun) : Int := leSigned r.off

/-- A jump backwards takes at most three bytes. -/
def DataRun.Near (r : DataRun) : Prop := r.off.length ≤ 3 ∨ ∀ b ∈ r.off.getLast?, b < 0x80

/-- The runs with their clusters, the run before them being at `lcn`. -/
def clusters (lcn : Int) : List DataRun → List (Nat × Int)
  | [] => []
  | r :: rs => (r.length, lcn + r.jump) :: clusters (lcn + r.jump) rs

theorem runLength_eq {s : List Byte} (h : s.length ≤ 8) : runLength s = leValue s := by
  induction s with
  | nil => rfl
  | cons b s ih =>
    have hlt := leValue_lt (b :: s)
    have hpow : 256 ^ (b :: s).length ≤ 256 ^ 8 := Nat.pow_le_pow_right (by norm_num) h
    have hs : runLength (b :: s) = (256 * runLength s + b.toNat) % 2 ^ 64 := rfl
    rw [leValue_cons] at hlt ⊢
    rw [hs, ih (by rw [List.length_cons] at h; omega), Nat.mod_eq_of_lt (by omega), Nat.add_comm]

theorem toLL_add (x y : Int) : toLL (toLL x + y) = toLL (x + y) := Int.bmod_add_bmod

theorem toLL_sub (x y : Int) : toLL (toLL x - y) = toLL (x - y) := Int.bmod_sub_bmod

theorem toLL_mul_add (c x y : Int) : toLL (c * toLL x + y) = toLL (c * x + y) := by
  rw [← toLL_add (c * x), ← toLL_add (c * toLL x), toLL, toLL, toLL, toLL, toLL, Int.mul_bmod_bmod]

theorem toLL_eq {z : Int} (hlo : -2 ^ 63 ≤ z) (hhi : z < 2 ^ 63) : toLL z = z :=
  Int.bmod_eq_of_le (by omega) (by omega)

theorem runOffset_fold (s : List Byte) :
    s.foldr (fun b offset => toLL (256 * offset + b.toNat)) 0 = toLL (leValue s) := by
  induction s with
  | nil => rfl
  | cons b s ih =>
    rw [List.foldr_cons, ih, toLL_mul_add, leValue_cons]
    congr 1
    push_cast
    ring

theorem runOffset_concat (s : List Byte) (b : Byte) :
    runOffset (s ++ [b]) =
      toLL (leValue (s ++ [b]) - if 0x80 ≤ b then longShift (8 * (s.length + 1)) else 0) := by
  rw [runOffset, runOffset_fold, List.getLast?_concat, List.length_append, List.length_singleton]
  by_cases h : 0x80 ≤ b
  · simp only [Option.any_some, h, decide_true, if_true, toLL_sub]
  · simp only [Option.any_some, h, decide_false, Bool.false_eq_true, if_false, Int.sub_zero]

/-- The shift of a 32-bit `long` gives the power for three bytes at most. -/
theorem longShift_iff {n : Nat} (h1 : 1 ≤ n) (h8 : n ≤ 8) :
    toLL (longShift (8 * n)) = toLL (256 ^ n) ↔ n ≤ 3 := by
  interval_cases n <;> decide

theorem nextRun_encode (r : DataRun) (loffset : Int) (rest : List Byte) :
    nextRun loffset (r.encode ++ rest) = some (r.length, toLL (runOffset r.off + loffset), rest) := by
  obtain ⟨hl1, hl8⟩ := r.lg_length
  obtain ⟨ho1, ho8⟩ := r.off_length
  have hhead : (UInt8.ofNat (16 * r.off.length + r.lg.length)).toNat =
      16 * r.off.length + r.lg.length := Nat.mod_eq_of_lt (by omega)
  have hn2 : (16 * r.off.length + r.lg.length) % 16 = r.lg.length := by omega
  have hn1 : (16 * r.off.length + r.lg.length) / 16 = r.off.length := by omega
  rw [DataRun.encode, List.cons_append, nextRun]
  simp only [hhead, hn2, hn1]
  rw [if_pos (by simp), List.append_assoc, List.take_left, List.drop_left, List.take_left,
    ← List.append_assoc, ← List.length_append, List.drop_left, runLength_eq hl8]
  rfl

/-- The cluster of a run is right if the jump goes forward or takes at most three bytes. -/
theorem runOffset_iff (r : DataRun) {lcn : Int} (hlo : -2 ^ 63 ≤ lcn + r.jump)
    (hhi : lcn + r.jump < 2 ^ 63) :
    toLL (runOffset r.off + lcn) = lcn + r.jump ↔ r.Near := by
  obtain ⟨ho1, ho8⟩ := r.off_length
  obtain ⟨s, b, hs⟩ : ∃ s b, r.off = s ++ [b] := by
    rcases List.eq_nil_or_concat' r.off with h | ⟨s, b, h⟩
    · rw [h] at ho1
      exact absurd ho1 (by decide)
    · exact ⟨s, b, h⟩
  have hlen : r.off.length = s.length + 1 := by
    rw [hs, List.length_append, List.length_singleton]
  have hjump : r.jump = leValue (s ++ [b]) - if 0x80 ≤ b then 256 ^ (s.length + 1) else 0 := by
    rw [DataRun.jump, hs, leSigned_concat]
  have hnear : r.Near ↔ s.length + 1 ≤ 3 ∨ ¬ 0x80 ≤ b := by
    rw [DataRun.Near, hlen, hs, List.getLast?_concat]
    simp
  have htrue : lcn + r.jump = toLL (lcn + r.jump) := (toLL_eq hlo hhi).symm
  rw [hnear, htrue, hs, runOffset_concat, toLL_add, hjump, Int.add_comm, ← Int.add_sub_assoc,
    ← Int.add_sub_assoc]
  by_cases h : 0x80 ≤ b
  · rw [if_pos h, if_pos h, toLL, toLL, Int.bmod_sub_cancel_left, or_iff_left (not_not.mpr h)]
    exact longShift_iff (Nat.succ_pos _) (hlen ▸ ho8)
  · rw [if_neg h, if_neg h]
    exact iff_of_true rfl (Or.inr h)

theorem nextRun_iff (r : DataRun) {lcn : Int} (hlo : -2 ^ 63 ≤ lcn + r.jump)
    (hhi : lcn + r.jump < 2 ^ 63) (rest : List Byte) :
    nextRun lcn (r.encode ++ rest) = some (r.length, lcn + r.jump, rest) ↔ r.Near := by
  rw [nextRun_encode, Option.some.injEq, Prod.mk.injEq, Prod.mk.injEq, ← runOffset_iff r hlo hhi]
  exact ⟨fun h => h.2.1, fun h => ⟨rfl, h, rfl⟩⟩

theorem nextRuns_cons (r : DataRun) (n : Nat) (lcn : Int) (rest : List Byte) :
    nextRuns (n + 1) lcn (r.encode ++ rest) = (nextRuns n (toLL (runOffset r.off + lcn)) rest).map
      ((r.length, toLL (runOffset r.off + lcn)) :: ·) := by
  rw [nextRuns, nextRun_encode, Option.bind_some]

/-- A list of runs is followed to the clusters that it names if all its jumps are near. -/
theorem nextRuns_iff {lcn : Int} {rs : List DataRun}
    (h : ∀ x ∈ clusters lcn rs, -2 ^ 63 ≤ x.2 ∧ x.2 < 2 ^ 63) (rest : List Byte) :
    nextRuns rs.length lcn (rs.flatMap DataRun.encode ++ rest) = some (clusters lcn rs) ↔
      ∀ r ∈ rs, r.Near := by
  induction rs generalizing lcn with
  | nil => exact iff_of_true rfl (by simp)
  | cons r rs ih =>
    obtain ⟨hlo, hhi⟩ := h (r.length, lcn + r.jump) (by simp [clusters])
    have htail := @ih (lcn + r.jump) (fun x hx => h x (by simp [clusters, hx]))
    have hfirst := runOffset_iff r hlo hhi
    rw [List.flatMap_cons, List.append_assoc, List.length_cons, nextRuns_cons, clusters,
      List.forall_mem_cons]
    by_cases hr : r.Near
    · rw [hfirst.mpr hr, ← htail, and_iff_right hr, Option.map_eq_some_iff]
      constructor
      · rintro ⟨l, hl, he⟩
        rw [hl, (List.cons.inj he).2]
      · intro hl
        exact ⟨_, hl, rfl⟩
    · -- the first run that is not near is the one that goes wrong
      refine iff_of_false (fun he => hr ?_) (fun he => hr he.1)
      obtain ⟨l, -, he⟩ := Option.map_eq_some_iff.mp he
      exact hfirst.mp (Prod.mk.inj (List.cons.inj he).1).2

/-- A run is decoded as it is meant, and a list of them is followed, when every jump that
goes backwards takes at most three bytes, and in no other case. -/
theorem data_runs_followed {lcn : Int} (r : DataRun) (hr : -2 ^ 63 ≤ lcn + r.jump ∧ lcn + r.jump < 2 ^ 63)
    (rs : List DataRun) (hrs : ∀ x ∈ clusters lcn rs, -2 ^ 63 ≤ x.2 ∧ x.2 < 2 ^ 63) (rest : List Byte) :
    (nextRun lcn (r.encode ++ rest) = some (r.length, lcn + r.jump, rest) ↔ r.Near) ∧
    (nextRuns rs.length lcn (rs.flatMap DataRun.encode ++ rest) = some (clusters lcn rs) ↔ ∀ r ∈ rs, r.Near) :=
  ⟨nextRun_iff r hr.1 hr.2 rest, nextRuns_iff hrs rest⟩

/-- One cluster, 128 clusters back. -/
def nearRun : DataRun := ⟨[1], [0x80], by decide, by decide⟩

/-- One cluster, 8388609 clusters back. -/
def farRun : DataRun := ⟨[1], [0xFF, 0xFF, 0x7F, 0xFF], by decide, by decide⟩

theorem data_runs_followed_near :
    nextRun 200 (nearRun.encode ++ [0]) = some (1, 72, [0]) ∧
      nextRuns 1 200 (nearRun.encode ++ [0]) = some [(1, 72)] := by
  have hjump : nearRun.jump = -128 := by decide
  have h := @data_runs_followed 200 nearRun (by rw [hjump]; decide) [nearRun] (by decide) [0]
  exact ⟨h.1.mpr (Or.inl (by decide)),
    h.2.mpr (fun r hr => Or.inl (by rw [List.mem_singleton.mp hr]; decide))⟩

/-- `1L << 32` is 1. -/
theorem farRun_cluster : 8388610 + farRun.jump = 1 ∧
    nextRun 8388610 (farRun.encode ++ [0]) = some (1, 4294967296, [0]) := by
  decide

end PulseImaging
