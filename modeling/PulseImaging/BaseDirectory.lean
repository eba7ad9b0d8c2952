import PulseImaging.CText
import Mathlib.Data.List.GetD

/-! `bootp` cuts the name of the boot file at its second-to-last slash. The slashes are looked for in all of the field
and in the byte behind it, so those that are left there from an earlier name count as well. -/

namespace PulseImaging

/-- The room for `basedir` in front of offset 0x206 of the program. -/
def BASEDIRLG : Nat := 478

/-- `strcpy(dest, src)`. -/
def strcpy (dest src : List Byte) : List Byte := cstr src ++ 0 :: dest.drop ((cstr src).length + 1)

/-- The loop, from index `n - 1` on down. -/
def scanLevels (cmp : List Byte) : Nat → Nat → List Byte → List Byte
  | 0, _, basedir => basedir
  | i + 1, levels, basedir =>
    if cmp.getD i 0 = 47 then
      if levels - 1 = 0 then basedir.set i 0 else scanLevels cmp i (levels - 1) (basedir.set i 0)
    else scanLevels cmp i levels basedir

/-- `basedir` behind the call, from the bytes at `ptr + 108`. -/
def setBasedir (cmp basedir : List Byte) : List Byte :=
  let basedir := scanLevels cmp 129 2 (strcpy basedir cmp)
  if basedir.getD 0 0 = 0 then (basedir.set 0 47).set 1 0 else basedir

/-- A name in the field and what stands behind its end, up to the byte that follows the field. -/
structure BootFile where
  name : List Byte
  behind : List Byte
  no_nul : 0 ∉ name
  name_lt : name.length < 128
  length_eq : name.length + 1 + behind.length = 129

def BootFile.bytes (f : BootFile) : List Byte := f.name ++ 0 :: f.behind

/-- The positions below `n` of the slashes, the last one first. -/
def slashes (s : List Byte) : Nat → List Nat
  | 0 => []
  | i + 1 => if s.getD i 0 = 47 then i :: slashes s i else slashes s i

def orSlash (s : List Byte) : List Byte := if s = [] then [47] else s

/-- What the name is to be cut to. -/
def baseDirectory (name : List Byte) : List Byte :=
  orSlash (match slashes name name.length with
    | [] => name
    | [p] => name.take p
    | _ :: p :: _ => name.take p)

/-! ### Cutting -/

theorem cstr_set_zero (s : List Byte) (p : Nat) : cstr (s.set p 0) = (cstr s).take p := by
  induction s generalizing p with
  | nil => simp [cstr]
  | cons c s ih =>
    cases p with
    | zero => simp [cstr]
    | succ p =>
      rw [List.set_cons_succ, cstr, cstr]
      by_cases hc : c = 0
      · simp [hc]
      · rw [List.takeWhile_cons_of_pos (by simpa using hc),
          List.takeWhile_cons_of_pos (by simpa using hc), List.take_succ_cons, ← cstr, ← cstr, ih]

/-- The text cut at one position after the other. -/
def cutAll (s : List Byte) (ps : List Nat) : List Byte := ps.foldl (fun s p => s.take p) s

theorem cutAll_behind {s : List Byte} {ps : List Nat} (h : ∀ p ∈ ps, s.length ≤ p) :
    cutAll s ps = s := by
  induction ps with
  | nil => rfl
  | cons p ps ih =>
    rw [cutAll, List.foldl_cons, List.take_of_length_le (h p List.mem_cons_self), ← cutAll]
    exact ih (fun q hq => h q (List.mem_cons_of_mem _ hq))

theorem scanLevels_cstr (cmp : List Byte) (n levels : Nat) (basedir : List Byte) :
    cstr (scanLevels cmp n (levels + 1) basedir) = cutAll (cstr basedir)
      ((slashes cmp n).take (levels + 1)) := by
  induction n generalizing levels basedir with
  | zero => rfl
  | succ n ih =>
    rw [scanLevels, slashes]
    by_cases hslash : cmp.getD n 0 = 47
    · rw [if_pos hslash, if_pos hslash, Nat.add_sub_cancel, List.take_succ_cons, cutAll,
        List.foldl_cons, ← cutAll, ← cstr_set_zero]
      cases levels with
      | zero => rfl
      | succ levels => exact ih levels _
    · rw [if_neg hslash, if_neg hslash]
      exact ih levels basedir

theorem scanLevels_length (cmp : List Byte) (n levels : Nat) (basedir : List Byte) :
    (scanLevels cmp n levels basedir).length = basedir.length := by
  induction n generalizing levels basedir with
  | zero => rfl
  | succ n ih =>
    rw [scanLevels]
    split
    · split
      · exact List.length_set
      · rw [ih, List.length_set]
    · exact ih levels basedir

theorem cstr_keep_slash {b : List Byte} (h : 2 ≤ b.length) :
    cstr (if b.getD 0 0 = 0 then (b.set 0 47).set 1 0 else b) = orSlash (cstr b) := by
  obtain ⟨x, y, t, rfl⟩ : ∃ x y t, b = x :: y :: t := by
    match b, h with
    | x :: y :: t, _ => exact ⟨x, y, t, rfl⟩
  by_cases hx : x = 0
  · subst hx
    rfl
  · have hne : cstr (x :: y :: t) = x :: cstr (y :: t) :=
      List.takeWhile_cons_of_pos (by simpa using hx)
    rw [if_neg (show ¬ (x :: y :: t).getD 0 0 = 0 from hx), hne, orSlash,
      if_neg (List.cons_ne_nil _ _)]

theorem setBasedir_cstr (f : BootFile) (old : Vector Byte BASEDIRLG) :
    cstr (setBasedir f.bytes old.toList) = orSlash
      (cutAll f.name ((slashes f.bytes 129).take 2)) := by
  have hname : cstr f.bytes = f.name := cstr_append_zero f.no_nul f.behind
  have hcopy : cstr (strcpy old.toList f.bytes) = f.name := by
    rw [strcpy, hname]
    exact cstr_append_zero f.no_nul _
  have hlen : 2 ≤ (strcpy old.toList f.bytes).length := by
    have := f.name_lt
    rw [strcpy, hname, List.length_append, List.length_cons, List.length_drop,
      Vector.length_toList, BASEDIRLG]
    omega
  rw [setBasedir, cstr_keep_slash (by rw [scanLevels_length]; exact hlen), scanLevels_cstr, hcopy]

/-! ### Slashes -/

theorem slashes_append_left (s t : List Byte) {n : Nat} (h : n ≤ s.length) :
    slashes (s ++ t) n = slashes s n := by
  induction n with
  | zero => rfl
  | succ n ih => rw [slashes, slashes, ih (by omega), List.getD_append s t 0 n (by omega)]

theorem slashes_append_right (s t : List Byte) (n : Nat) :
    slashes (s ++ t) (s.length + n) = (slashes t n).map (fun p => s.length + p) ++
      slashes s s.length := by
  induction n with
  | zero => exact slashes_append_left s t (Nat.le_refl _)
  | succ n ih =>
    rw [← Nat.add_assoc, slashes, slashes, ih, List.getD_append_right s t 0 _ (by omega),
      Nat.add_sub_cancel_left]
    split <;> rfl

theorem slashes_cons {s : List Byte} {n p : Nat} {ps : List Nat} (h : slashes s n = p :: ps) :
    p < n ∧ s.getD p 0 = 47 ∧ ps = slashes s p := by
  induction n with
  | zero => cases h
  | succ n ih =>
    rw [slashes] at h
    split at h
    · next hslash =>
      obtain ⟨rfl, rfl⟩ := List.cons.inj h
      exact ⟨Nat.lt_succ_self n, hslash, rfl⟩
    · obtain ⟨hlt, hrest⟩ := ih h
      exact ⟨Nat.lt_succ_of_lt hlt, hrest⟩

theorem slashes_length (s : List Byte) {n : Nat} (h : n ≤ s.length) :
    (slashes s n).length = (s.take n).count 47 := by
  induction n with
  | zero => rfl
  | succ n ih =>
    have hlt : n < s.length := h
    rw [slashes, List.take_succ_eq_append_getElem hlt, List.count_append, ← ih (by omega),
      List.getD_eq_getElem s 0 hlt]
    split
    · next hslash => rw [hslash]; rfl
    · next hslash => rw [List.count_singleton, if_neg (by simpa using hslash), Nat.add_zero]

theorem slashes_bytes (f : BootFile) :
    ∃ stale : List Nat, slashes f.bytes 129 = stale ++ slashes f.name f.name.length ∧
      (∀ p ∈ stale, f.name.length ≤ p) ∧ stale.length = f.behind.count 47 := by
  have hlen : 129 = f.name.length + (1 + f.behind.length) := by rw [← f.length_eq, Nat.add_assoc]
  have hzero : slashes (0 :: f.behind) (1 + f.behind.length) =
      (slashes f.behind f.behind.length).map (fun p => 1 + p) :=
    (slashes_append_right [0] f.behind f.behind.length).trans (List.append_nil _)
  refine ⟨(slashes (0 :: f.behind) (1 + f.behind.length)).map (fun p => f.name.length + p), ?_,
    fun p hp => ?_, ?_⟩
  · rw [hlen, BootFile.bytes]
    exact slashes_append_right f.name (0 :: f.behind) _
  · obtain ⟨p, -, rfl⟩ := List.mem_map.mp hp
    exact Nat.le_add_right _ _
  · rw [List.length_map, hzero, List.length_map, slashes_length f.behind (Nat.le_refl _),
      List.take_length]

/-! ### The directory -/

section

variable {name : List Byte} {p q : Nat} {ps : List Nat}

theorem orSlash_take (hp : 0 < p) (hlt : p < name.length) : orSlash (name.take p) = name.take p :=
  if_neg (fun h => by
    have := congrArg List.length h
    rw [List.length_take, List.length_nil] at this
    omega)

theorem orSlash_name (hp : p < name.length) : orSlash name = name :=
  if_neg (fun h => by
    rw [h] at hp
    exact absurd hp (Nat.not_lt_zero p))

/-- A name that is cut at a slash is the whole one only when it is that slash. -/
theorem orSlash_take_eq_name (hp : p < name.length) :
    orSlash (name.take p) = orSlash name ↔ name = [47] := by
  rw [orSlash_name hp]
  constructor
  · intro h
    by_cases hzero : p = 0
    · rw [hzero, List.take_zero] at h
      exact h.symm
    · have hlen := congrArg List.length h
      rw [orSlash_take (Nat.pos_of_ne_zero hzero) hp, List.length_take] at hlen
      omega
  · rintro rfl
    rw [Nat.lt_one_iff.mp hp]
    rfl

/-- Cuts at two slashes agree only where the first is at the beginning and the other behind it. -/
theorem orSlash_take_eq_take (hq : q < p) (hp : p < name.length) :
    orSlash (name.take p) = orSlash (name.take q) ↔ q = 0 ∧ p = 1 ∧ name.getD 0 0 = 47 := by
  rw [orSlash_take (by omega) hp]
  constructor
  · intro h
    have hlen := congrArg List.length h
    rw [List.length_take, Nat.min_eq_left hp.le] at hlen
    by_cases hzero : q = 0
    · have hone : p = 1 := by
        rw [hlen, hzero]
        rfl
      rw [hzero, hone] at h
      refine ⟨hzero, hone, ?_⟩
      match name, h with
      | _ :: _, h => exact (List.cons.inj h).1
    · rw [orSlash_take (by omega) (by omega), List.length_take] at hlen
      omega
  · rintro ⟨rfl, rfl, hslash⟩
    match name, hslash with
    | c :: _, hslash =>
      obtain rfl : c = 47 := hslash
      rfl

theorem slashes_two_iff :
    slashes name name.length = [1, 0] ↔ name.count 47 = 2 ∧ [47, 47] <+: name := by
  have hcount := slashes_length name (Nat.le_refl _)
  rw [List.take_length] at hcount
  constructor
  · intro h
    obtain ⟨hlt, hone, hrest⟩ := slashes_cons h
    obtain ⟨-, hzero, -⟩ := slashes_cons hrest.symm
    match name, hlt with
    | x :: y :: t, _ =>
      obtain rfl : y = 47 := hone
      obtain rfl : x = 47 := hzero
      exact ⟨by rw [← hcount, h]; rfl, t, rfl⟩
  · rintro ⟨hc, t, rfl⟩
    have hshape : ∀ n, slashes ([47, 47] ++ t) (2 + n) =
        (slashes t n).map (fun p => 2 + p) ++ [1, 0] := slashes_append_right [47, 47] t
    have hlen : ([47, 47] ++ t).length = 2 + t.length := List.length_append
    rw [hlen, hshape] at hcount ⊢
    rw [hc, List.length_append, List.length_map] at hcount
    rw [List.eq_nil_of_length_eq_zero (show (slashes t t.length).length = 0 by simpa using hcount)]
    rfl

theorem cut_own (name : List Byte) :
    orSlash (cutAll name ((slashes name name.length).take 2)) = baseDirectory name := by
  obtain ⟨ps, hps⟩ : ∃ ps, slashes name name.length = ps := ⟨_, rfl⟩
  rw [baseDirectory, hps]
  match ps, hps with
  | [], _ => rfl
  | [_], _ => rfl
  | p :: q :: r, hps =>
    obtain ⟨hp, -, hrest⟩ := slashes_cons hps
    obtain ⟨hq, -, -⟩ := slashes_cons hrest.symm
    change orSlash ((name.take p).take q) = orSlash (name.take q)
    rw [List.take_take, Nat.min_eq_left hq.le]

/-- One stale slash takes the first level. -/
theorem cut_one_iff {a : Nat} (ha : name.length ≤ a) :
    orSlash (cutAll name ((a :: slashes name name.length).take 2)) = baseDirectory name ↔
      (slashes name name.length).length ≤ 1 ∨ slashes name name.length = [1, 0] := by
  obtain ⟨ps, hps⟩ : ∃ ps, slashes name name.length = ps := ⟨_, rfl⟩
  rw [baseDirectory, hps]
  match ps, hps with
  | [], _ =>
    refine iff_of_true ?_ (Or.inl (Nat.zero_le 1))
    change orSlash (name.take a) = orSlash name
    rw [List.take_of_length_le ha]
  | [p], _ =>
    refine iff_of_true ?_ (Or.inl (Nat.le_refl 1))
    change orSlash ((name.take a).take p) = orSlash (name.take p)
    rw [List.take_of_length_le ha]
  | p :: q :: r, hps =>
    obtain ⟨hp, -, hrest⟩ := slashes_cons hps
    obtain ⟨hq, hslash, hr⟩ := slashes_cons hrest.symm
    change orSlash ((name.take a).take p) = orSlash (name.take q) ↔ _
    rw [List.take_of_length_le ha, orSlash_take_eq_take hq hp]
    constructor
    · rintro ⟨rfl, rfl, -⟩
      obtain rfl : r = [] := hr
      exact Or.inr rfl
    · rintro (hle | h)
      · exact absurd (Nat.le_of_succ_le_succ hle) (Nat.not_succ_le_zero _)
      · obtain ⟨hone, h⟩ := List.cons.inj h
        obtain ⟨hzero, -⟩ := List.cons.inj h
        exact ⟨hzero, hone, hzero ▸ hslash⟩

/-- Two stale slashes take both, and nothing is cut. -/
theorem cut_more_iff {a b : Nat} (s : List Nat) (ha : name.length ≤ a) (hb : name.length ≤ b) :
    orSlash (cutAll name ((a :: b :: s).take 2)) = baseDirectory name ↔
      (slashes name name.length).length = 0 ∨ name = [47] := by
  have hcut : cutAll name ((a :: b :: s).take 2) = name :=
    cutAll_behind (List.forall_mem_cons.mpr ⟨ha, List.forall_mem_singleton.mpr hb⟩)
  obtain ⟨ps, hps⟩ : ∃ ps, slashes name name.length = ps := ⟨_, rfl⟩
  rw [hcut, baseDirectory, hps]
  match ps, hps with
  | [], _ => exact iff_of_true rfl (Or.inl rfl)
  | [p], hps =>
    obtain ⟨hp, -, -⟩ := slashes_cons hps
    change orSlash name = orSlash (name.take p) ↔ _
    rw [eq_comm, orSlash_take_eq_name hp]
    simp
  | p :: q :: r, hps =>
    obtain ⟨hp, -, hrest⟩ := slashes_cons hps
    obtain ⟨hq, -, -⟩ := slashes_cons hrest.symm
    change orSlash name = orSlash (name.take q) ↔ _
    rw [eq_comm, orSlash_take_eq_name (hq.trans hp)]
    simp

end

/-- The stale slashes of the field use up the levels: with one of them a name with a single slash is still right, with
more only a name without any. -/
theorem base_directory_iff (f : BootFile) (old : Vector Byte BASEDIRLG) :
    cstr (setBasedir f.bytes old.toList) = baseDirectory f.name ↔
      f.behind.count 47 = 0 ∨ f.name.count 47 = 0 ∨ f.name = [47] ∨
        f.behind.count 47 = 1 ∧ (f.name.count 47 = 1 ∨ f.name.count 47 = 2 ∧ [47, 47] <+: f.name) := by
  obtain ⟨stale, hbytes, hstale, hcount⟩ := slashes_bytes f
  have hname := slashes_length f.name (Nat.le_refl _)
  rw [List.take_length] at hname
  rw [setBasedir_cstr, hbytes, ← slashes_two_iff, ← hcount, ← hname]
  match stale, hstale with
  | [], _ => exact iff_of_true (cut_own f.name) (Or.inl rfl)
  | [a], hstale =>
    have hone : f.name = [47] → (slashes f.name f.name.length).length = 1 := fun h => by rw [h]; rfl
    refine (cut_one_iff (hstale a List.mem_cons_self)).trans ⟨?_, ?_⟩
    · rintro (hle | h)
      · rcases Nat.le_one_iff_eq_zero_or_eq_one.mp hle with h | h
        · exact Or.inr (Or.inl h)
        · exact Or.inr (Or.inr (Or.inr ⟨rfl, Or.inl h⟩))
      · exact Or.inr (Or.inr (Or.inr ⟨rfl, Or.inr h⟩))
    · rintro (h | h | h | ⟨-, h | h⟩)
      · exact absurd h Nat.one_ne_zero
      · exact Or.inl (h.le.trans (Nat.zero_le 1))
      · exact Or.inl (hone h).le
      · exact Or.inl h.le
      · exact Or.inr h
  | a :: b :: s, hstale =>
    refine (cut_more_iff _ (hstale a (by simp)) (hstale b (by simp))).trans ?_
    simp

/-- The name `/tftp/images/boot`, and behind it two slashes of a longer name. -/
def staleFile : BootFile where
  name := ascii "/tftp/images/boot"
  behind := ascii "/a/" ++ List.replicate 108 0
  no_nul := by decide
  name_lt := by decide
  length_eq := by decide

theorem stale_slashes_kept :
    cstr (setBasedir staleFile.bytes (Vector.replicate BASEDIRLG 0).toList) ≠ baseDirectory staleFile.name := by
  decide

end PulseImaging
