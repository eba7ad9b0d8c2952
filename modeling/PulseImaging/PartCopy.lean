import PulseImaging.ImageNames
import PulseImaging.Repetition

/-! The loop of `partcopy_func`: one file of the image after the other, whatever `new_get` does. -/

namespace PulseImaging

/-- The digits of `num`, the last one first. -/
def digitLoop (num : Nat) : List Byte :=
  digitByte (num % 10) :: if 0 < num / 10 then digitLoop (num / 10) else []

/-- `convert_to_ascii(str, 'd', num)`. -/
def convertToAscii (num : Int) : List Byte :=
  if num < 0 then 45 :: (digitLoop (-num).toNat).reverse else (digitLoop num.toNat).reverse

/-- The variables `l1`, `l2` and `l3`. -/
structure FileCounter where
  l1 : Int
  l2 : Int
  l3 : Int

def FileCounter.start : FileCounter := ⟨0, 48, 48⟩

def FileCounter.next (c : FileCounter) : FileCounter :=
  if c.l3 + 1 > 57 then
    if c.l2 + 1 > 57 then ⟨c.l1 + 1, 48, 48⟩ else ⟨c.l1, c.l2 + 1, 48⟩
  else ⟨c.l1, c.l2, c.l3 + 1⟩

/-- `grub_sprintf(name, "%s%d%c%c", path, l1, l2, l3)`. -/
def FileCounter.name (path : List Byte) (c : FileCounter) : List Byte :=
  cstr path ++ convertToAscii c.l1 ++ [UInt8.ofNat (c.l2 % 256).toNat, UInt8.ofNat (c.l3 % 256).toNat]

/-- What is left by `new_get(name, sect, &endsect, 0)`; it also sets `files`. -/
structure Got (σ : Type) where
  code : Int
  endsect : Int
  files : Int
  env : σ

structure CopyState (σ : Type) where
  i : Int
  files : Int
  curr : Int
  counter : FileCounter
  env : σ

variable {σ : Type}

def CopyState.start (newStart : Int) (env : σ) : CopyState σ := ⟨0, 1, newStart, .start, env⟩

/-- One turn of the loop; it is left with `return 1` when a file cannot be had. -/
def copyTurn (newGet : List Byte → Int → σ → Got σ) (path : List Byte) (s : CopyState σ) :
    Fate (CopyState σ ⊕ CopyState σ) :=
  if s.i < s.files then
    let got := newGet (s.counter.name path) s.curr s.env
    if got.code ≠ 0 then .exit
    else .done (.inl ⟨s.i + 1, got.files, got.endsect, s.counter.next, got.env⟩)
  else .done (.inr s)

/-! ### The counter -/

theorem digitLoop_reverse (n : Nat) : (digitLoop n).reverse = decimal n := by
  induction n using Nat.strongRecOn with
  | ind n ih =>
    rw [digitLoop, List.reverse_cons]
    by_cases h : n < 10
    · rw [if_neg (by omega), List.reverse_nil, List.nil_append, decimal_lt_ten h, Nat.mod_eq_of_lt h]
    · rw [if_pos (by omega), ih (n / 10) (by omega), ← decimal_ge_ten (by omega)]

theorem convertToAscii_natCast (n : Nat) : convertToAscii (n : Int) = decimal n := by
  rw [convertToAscii, if_neg (by omega), Int.toNat_natCast, digitLoop_reverse]

def FileCounter.nth (n : Nat) : FileCounter := ⟨(n / 100 : Nat), (48 + n / 10 % 10 : Nat), (48 + n % 10 : Nat)⟩

theorem FileCounter.next_nth (n : Nat) : (FileCounter.nth n).next = FileCounter.nth (n + 1) := by
  rw [FileCounter.next]
  by_cases hones : n % 10 = 9
  · rw [if_pos (by simp only [nth]; omega)]
    by_cases htens : n / 10 % 10 = 9
    · rw [if_pos (by simp only [nth]; omega)]
      simp only [nth, FileCounter.mk.injEq]
      omega
    · rw [if_neg (by simp only [nth]; omega)]
      simp only [nth, FileCounter.mk.injEq]
      omega
  · rw [if_neg (by simp only [nth]; omega)]
    simp only [nth, FileCounter.mk.injEq]
    omega

theorem pad3_eq (n : Nat) :
    pad3 n = decimal (n / 100) ++ [digitByte (n / 10 % 10), digitByte (n % 10)] := by
  by_cases hlt : n < 10
  · rw [pad3, decimal_lt_ten hlt, decimal_lt_ten (show n / 100 < 10 by omega),
      show n / 100 = 0 by omega, show n / 10 % 10 = 0 by omega, Nat.mod_eq_of_lt hlt]
    rfl
  · rw [pad3, decimal_ge_ten (show 10 ≤ n by omega)]
    by_cases hlt' : n < 100
    · rw [decimal_lt_ten (show n / 10 < 10 by omega), decimal_lt_ten (show n / 100 < 10 by omega),
        show n / 100 = 0 by omega, Nat.mod_eq_of_lt (show n / 10 < 10 by omega)]
      rfl
    · have hpos := List.length_pos_of_ne_nil (decimal_ne_nil (n / 100))
      rw [decimal_ge_ten (show 10 ≤ n / 10 by omega), show n / 10 / 10 = n / 100 by omega,
        Nat.sub_eq_zero_of_le (by simp only [List.length_append, List.length_singleton]; omega)]
      simp

theorem FileCounter.name_nth (path : List Byte) (n : Nat) :
    (FileCounter.nth n).name path = imageName (cstr path) n := by
  have hchar : ∀ d < 10, UInt8.ofNat (((48 + d : Nat) : Int) % 256).toNat = digitByte d := by
    intro d hd
    rw [digitByte, show (((48 + d : Nat) : Int) % 256).toNat = 48 + d by omega]
  rw [name, nth, imageName, pad3_eq, convertToAscii_natCast, hchar _ (Nat.mod_lt _ (by decide)),
    hchar _ (Nat.mod_lt _ (by decide)), List.append_assoc]

/-! ### The loop -/

variable {newGet : List Byte → Int → σ → Got σ} {path : List Byte} {s s' : CopyState σ}

theorem goesOn_copyTurn (h : GoesOn (copyTurn newGet path) s s') :
    ∃ files, newGet (s.counter.name path) s.curr s.env = ⟨0, s'.curr, files, s'.env⟩ ∧
      s' = ⟨s.i + 1, files, s'.curr, s.counter.next, s'.env⟩ := by
  rw [GoesOn, copyTurn] at h
  dsimp only at h
  split at h
  · split at h
    · cases h
    · next hcode =>
      obtain rfl := Sum.inl.inj (Fate.done.inj h)
      exact ⟨_, by rw [← not_ne_iff.mp hcode], rfl⟩
  · cases h

theorem counter_of_steps {n : Nat} (h : Steps (GoesOn (copyTurn newGet path)) n s s') {m : Nat}
    (hm : s.counter = FileCounter.nth m) : s'.counter = FileCounter.nth (m + n) := by
  induction h generalizing m with
  | zero => exact hm
  | succ hstep _ ih =>
    obtain ⟨files, -, hs⟩ := goesOn_copyTurn hstep
    have hnext : _ = FileCounter.nth (m + 1) := (congrArg CopyState.counter hs).trans
      (hm ▸ FileCounter.next_nth m)
    rw [ih hnext, Nat.add_right_comm, Nat.add_assoc]

/-- Turn `n` asks for the file that `compress_volume` wrote for block `n`, and for its data from the sector that the
file before it ended at. -/
theorem partcopy_requests {newStart : Int} {env : σ} {n : Nat}
    (h : Steps (GoesOn (copyTurn newGet path)) n (CopyState.start newStart env) s) :
    s.counter.name path = imageName (cstr path) n ∧
      ((n = 0 ∧ s.curr = newStart) ∨ ∃ m t files, n = m + 1 ∧
        Steps (GoesOn (copyTurn newGet path)) m (CopyState.start newStart env) t ∧
        newGet (imageName (cstr path) m) t.curr t.env = ⟨0, s.curr, files, s.env⟩) := by
  have hname : ∀ {n : Nat} {s : CopyState σ},
      Steps (GoesOn (copyTurn newGet path)) n (CopyState.start newStart env) s →
        s.counter.name path = imageName (cstr path) n := by
    intro n s h
    rw [counter_of_steps h (m := 0) rfl, Nat.zero_add, FileCounter.name_nth]
  refine ⟨hname h, ?_⟩
  rcases h.last with ⟨hn, rfl⟩ | ⟨m, t, hn, hsteps, hlast⟩
  · exact .inl ⟨hn, rfl⟩
  · obtain ⟨files, hgot, -⟩ := goesOn_copyTurn hlast
    exact .inr ⟨m, t, files, hn, hsteps, hname hsteps ▸ hgot⟩

/-- An image of eleven files, each with a full bitmap. -/
def elevenFiles : List Byte → Int → Unit → Got Unit := fun _ sect _ => ⟨0, sect + 8 * ALLOCLG, 11, ()⟩

theorem second_file_requested :
    (FileCounter.mk 0 48 49).name (ascii "P1-") = imageName (cstr (ascii "P1-")) 1 ∧
      ((1 = 0 ∧ (176191 : Int) = 63) ∨ ∃ m t files, 1 = m + 1 ∧
        Steps (GoesOn (copyTurn elevenFiles (ascii "P1-"))) m (CopyState.start 63 ()) t ∧
        elevenFiles (imageName (cstr (ascii "P1-")) m) t.curr t.env = ⟨0, 176191, files, ()⟩) := by
  have hstep : GoesOn (copyTurn elevenFiles (ascii "P1-")) (CopyState.start 63 ()) ⟨1, 11, 176191, ⟨0, 48, 49⟩, ()⟩ := rfl
  exact partcopy_requests (.succ hstep (.zero _))

end PulseImaging
