import PulseImaging.NtfsEnds

/-! The record of `$Bitmap`: its two attributes give the lengths of the bitmap. -/

namespace PulseImaging

/-- The first `n` attributes from `ptr` on, with their types, if the record ends behind them. -/
def attributesFrom (entry : List Byte) : Nat → Nat → Option (List (Nat × Nat))
  | 0, _ => none
  | n + 1, ptr =>
    if 1024 ≤ ptr ∧ ptr < 2 ^ 31 then some []
    else
      (numberAt 4 entry ptr).bind (fun attType =>
        if attType = 0xFFFFFFFF then some []
        else
          (numberAt 4 entry (ptr + 4)).bind (fun lg =>
            (attributesFrom entry n ((ptr + lg) % 2 ^ 32)).map ((attType, ptr) :: ·)))

section

variable {memory : Nat} {file : VolumeFile} {boot : NtfsBoot} {entry : List Byte}

/-- What is known of the bitmap behind the attributes. -/
def allLengths (boot : NtfsBoot) (entry : List Byte) (as : List (Nat × Nat)) (l : BitmapLengths) : BitmapLengths :=
  as.foldl (fun l a => attributeLengths boot entry a.1 a.2 l) l

theorem mftField_of_numberAt {n off v : Nat} (h : numberAt n entry off = some v) :
    mftField n entry off = .done v := Fate.ofAccess_eq_done.mpr h

/-- A turn at an attribute, by the numbers in it. -/
theorem mftTurn_attribute {s : MftScan} {attType lg : Nat}
    (hbehind : ¬ (1024 ≤ s.ptr ∧ s.ptr < 2 ^ 31)) (htype : numberAt 4 entry s.ptr = some attType)
    (hend : attType ≠ 0xFFFFFFFF) (hlg : numberAt 4 entry (s.ptr + 4) = some lg) :
    mftTurn memory file boot entry s = (ntfsAttribute memory file boot entry attType s.ptr s.p).bind
      (fun p =>
      .done (.inl ⟨(s.ptr + lg) % 2 ^ 32, p⟩)) := by
  rw [mftTurn, if_neg hbehind, mftField_of_numberAt htype, Fate.bind_done, if_neg hend, parseAttr,
    mftField_of_numberAt hlg]
  rfl

/-- The record's end gives what is known behind its attributes. -/
theorem mftRun_lengths {n fuel ptr : Nat} {p p' : BitmapParams} {as : List (Nat × Nat)}
    (has : attributesFrom entry n ptr = some as)
    (h : Fate.iterate (mftTurn memory file boot entry) fuel ⟨ptr, p⟩ = .done p') :
    p'.lengths = allLengths boot entry as p.lengths := by
  induction fuel generalizing n ptr p as with
  | zero => cases h
  | succ fuel ih =>
    cases n with
    | zero => cases has
    | succ n =>
      obtain ⟨y, hturn, hy⟩ := Fate.bind_eq_done.mp h
      rw [attributesFrom] at has
      by_cases hbehind : 1024 ≤ ptr ∧ ptr < 2 ^ 31
      · rw [if_pos hbehind] at has
        rw [mftTurn, if_pos hbehind] at hturn
        cases has
        cases hturn
        cases hy
        rfl
      · rw [if_neg hbehind] at has
        obtain ⟨attType, htype, has⟩ := Option.bind_eq_some_iff.mp has
        by_cases hend : attType = 0xFFFFFFFF
        · rw [if_pos hend] at has
          rw [mftTurn, if_neg hbehind, mftField_of_numberAt htype, Fate.bind_done,
            if_pos hend] at hturn
          cases has
          cases hturn
          cases hy
          rfl
        · rw [if_neg hend] at has
          obtain ⟨lg, hlg, has⟩ := Option.bind_eq_some_iff.mp has
          obtain ⟨as', has', rfl⟩ := Option.map_eq_some_iff.mp has
          rw [mftTurn_attribute hbehind htype hend hlg] at hturn
          obtain ⟨p₁, hattr, hdone⟩ := Fate.bind_eq_done.mp hturn
          cases hdone
          have hlengths := (ntfsAttribute_eq_done hattr).2
          rw [ih has' hy, hlengths]
          rfl

theorem attributeLengths_other {attType ptr : Nat} (l : BitmapLengths) (h30 : attType ≠ 0x30)
    (h80 : attType ≠ 0x80) : attributeLengths boot entry attType ptr l = l := by
  rw [attributeLengths, if_neg h30, if_neg (fun h => h80 h.1)]

theorem allLengths_other {as : List (Nat × Nat)} (has : ∀ a ∈ as, a.1 ≠ 0x30 ∧ a.1 ≠ 0x80)
    (l : BitmapLengths) :
    allLengths boot entry as l = l := by
  induction as generalizing l with
  | nil => rfl
  | cons a as ih =>
    obtain ⟨h30, h80⟩ := has a List.mem_cons_self
    rw [allLengths, List.foldl_cons, attributeLengths_other l h30 h80]
    exact ih (fun b hb => has b (List.mem_cons_of_mem _ hb)) l

end

/-! ### The lengths -/

/-- A record of `$Bitmap`: `q` is the last `$FILE_NAME` before the `$DATA` at `ptr`. -/
structure BitmapMft (boot : NtfsBoot) (entry : List Byte) (q ptr nameAl nameRl al rl : Nat) : Prop where
  order : ∃ n pre mid post, attributesFrom entry n (firstAttribute entry) =
      some (pre ++ (0x30, q) :: (mid ++ (0x80, ptr) :: post)) ∧
    (∀ a ∈ mid, a.1 ≠ 0x30 ∧ a.1 ≠ 0x80) ∧ ∀ a ∈ post, a.1 ≠ 0x30 ∧ a.1 ≠ 0x80
  name : (nameLengths boot entry q).fn = ascii "$Bitmap"
  nameAllocated : numberAt 8 entry (q + 0x40) = some nameAl
  nameReal : numberAt 8 entry (q + 0x48) = some nameRl
  allocated : numberAt 8 entry (ptr + 0x28) = some al
  real : numberAt 8 entry (ptr + 0x30) = some rl

section

variable {memory fuel : Nat} {file : VolumeFile} {boot : NtfsBoot} {entry : List Byte} {p p' : BitmapParams}
  {q ptr nameAl nameRl al rl : Nat}

/-- Only the two attributes count. -/
theorem BitmapMft.lengths_eq (h : BitmapMft boot entry q ptr nameAl nameRl al rl)
    (hp' : mftRun fuel memory file boot entry p = .done p') :
    p'.lengths = dataLengths boot entry ptr (nameLengths boot entry q) := by
  obtain ⟨n, pre, mid, post, hattributes, hmid, hpost⟩ := h.order
  have hname (l : BitmapLengths) : attributeLengths boot entry 0x30 q l =
    nameLengths boot entry q := if_pos rfl
  have hdata : attributeLengths boot entry 0x80 ptr (nameLengths boot entry q) =
      dataLengths boot entry ptr (nameLengths boot entry q) := by
    rw [attributeLengths, if_neg (by decide), if_pos ⟨rfl, h.name⟩]
  have hmid' := @allLengths_other boot entry mid hmid (nameLengths boot entry q)
  have hpost' := @allLengths_other boot entry post hpost
    (dataLengths boot entry ptr (nameLengths boot entry q))
  rw [allLengths] at hmid' hpost'
  rw [mftRun_lengths hattributes hp', allLengths, List.foldl_append, List.foldl_cons,
    List.foldl_append, List.foldl_cons, hname, hmid', hdata, hpost']

/-- The lengths after `parse_datarun`: only when the allocated length is another one is the real
length taken from `$DATA`. -/
theorem BitmapMft.lengths_cases (h : BitmapMft boot entry q ptr nameAl nameRl al rl)
    (hp' : mftRun fuel memory file boot entry p = .done p') :
    if nameAl * boot.spc % 2 ^ 32 ≠ al * boot.spc % 2 ^ 64 then
      p'.bitmaplg = rl * boot.spc % 2 ^ 32 ∧ p'.bitmap.length = al * boot.spc % 2 ^ 32
    else p'.bitmaplg = nameRl * boot.spc % 2 ^ 32 ∧
      p'.bitmap.length = nameAl * boot.spc % 2 ^ 32 := by
  have hlengths := h.lengths_eq hp'
  obtain ⟨-, hnal⟩ := numberAt_eq_some.mp h.nameAllocated
  obtain ⟨-, hnrl⟩ := numberAt_eq_some.mp h.nameReal
  obtain ⟨-, hal⟩ := numberAt_eq_some.mp h.allocated
  obtain ⟨-, hrl⟩ := numberAt_eq_some.mp h.real
  have hlg : p'.bitmaplg = (dataLengths boot entry ptr (nameLengths boot entry q)).bitmaplg :=
    congrArg BitmapLengths.bitmaplg hlengths
  have halloc : p'.bitmap.length = (dataLengths boot entry ptr (nameLengths boot entry q)).alloc :=
    congrArg BitmapLengths.alloc hlengths
  simp only [dataLengths, sizedLengths, nameLengths, nameSize, dataSize, hnal, hnrl, hal, hrl,
    Nat.mod_mul_mod]
    at hlg halloc
  by_cases hne : nameAl * boot.spc % 2 ^ 32 ≠ al * boot.spc % 2 ^ 64
  · rw [if_pos hne] at hlg halloc ⊢
    exact ⟨hlg, halloc⟩
  · rw [if_neg hne] at hlg halloc ⊢
    exact ⟨hlg, halloc⟩

/-- The length of the bitmap and its memory are those of `$DATA` if they fit 32 bits and the real
length in `$FILE_NAME` is stale only when the allocated length is too. -/
theorem bitmap_length (h : BitmapMft boot entry q ptr nameAl nameRl al rl)
    (hp' : mftRun fuel memory file boot entry p = .done p') :
    (p'.bitmaplg = rl * boot.spc ∧ al * boot.spc ≤ p'.bitmap.length) ↔
    (al * boot.spc < 2 ^ 32 ∧ rl * boot.spc < 2 ^ 32) ∧
      (nameAl * boot.spc % 2 ^ 32 ≠ al * boot.spc ∨ nameRl * boot.spc % 2 ^ 32 = rl * boot.spc) := by
  have hlengths := h.lengths_cases hp'
  split at hlengths
  · rw [hlengths.1, hlengths.2]
    omega
  · rw [hlengths.1, hlengths.2]
    omega

end

/-! ### Records of the small volume -/

theorem smallEntry_attributes {rl : Byte} (h : rl = 8 ∨ rl = 16) :
    attributesFrom (smallEntry rl) 3 (firstAttribute (smallEntry rl)) = some [(0x30, 0x30), (0x80, 0x98)] := by
  rcases h with rfl | rfl <;> decide +kernel

theorem smallEntry_bitmap {rl : Byte} (h : rl = 8 ∨ rl = 16) :
    BitmapMft smallBoot (smallEntry rl) 0x30 0x98 512 8 512 rl.toNat where
  order := ⟨3, [], [], [], smallEntry_attributes h, by simp, by simp⟩
  name := by rcases h with rfl | rfl <;> decide +kernel
  nameAllocated := by rcases h with rfl | rfl <;> decide +kernel
  nameReal := by rcases h with rfl | rfl <;> decide +kernel
  allocated := (smallEntry_data h).allocated
  real := (smallEntry_data h).real

/-- The real length in `$FILE_NAME` is kept, so the runs are those of eight bytes. -/
theorem smallVolume_ntfsDatarun {rl : Byte} (h : rl = 8 ∨ rl = 16) {p : BitmapParams}
    (hp : ntfsFilename 512 smallBoot (smallEntry rl) 0x30 = .done p) :
    p.fn = ascii "$Bitmap" ∧ ∃ p', ntfsDatarun 512 smallVolume smallBoot (smallEntry rl) 0x98 p = .done p' := by
  have hbitmap := smallEntry_bitmap h
  obtain ⟨-, hlengths⟩ := ntfsFilename_eq_done hp
  obtain ⟨-, hal⟩ := numberAt_eq_some.mp hbitmap.nameAllocated
  obtain ⟨-, hrl⟩ := numberAt_eq_some.mp hbitmap.nameReal
  have hfn : p.fn = ascii "$Bitmap" := (congrArg BitmapLengths.fn hlengths).trans hbitmap.name
  have hfilelg : p.filelg = 8 := (congrArg BitmapLengths.filelg hlengths).trans hrl
  have hlg : p.bitmaplg = 512 := by
    refine (congrArg BitmapLengths.bitmaplg hlengths).trans ?_
    rw [nameLengths, nameSize, hal]
    exact show 512 % 2 ^ 32 * 1 % 2 ^ 32 = 512 by decide
  have hzeros := ntfsFilename_zeros hp
  rw [hlg] at hzeros
  have hsize : modifiedSize 512 smallBoot 512 rl.toNat p = .done p := by
    rw [modifiedSize, if_neg (by rw [hlg]; decide)]
  have hstoring := smallRuns.storing (smallEntry_data h) (List.replicate 512 0)
  obtain ⟨b, hb⟩ := hstoring.inside.mpr (fun s hs => by
    have hlt := @marksFit_of_length smallVolume smallBoot 8 512 [smallRun] (by
      rw [show runsRead smallBoot 8 0 (clusters 0 [smallRun]) = [(1, 2)] by decide, runsContent_cons_length]
      decide) s hs.2.2 hs.2.1
    rwa [List.length_replicate])
  have hlength : b.length = 512 := by rw [(hstoring.marks b hb).1, List.length_replicate]
  obtain ⟨b', hb', -⟩ := clearBytes_spec b (8 * smallBoot.spc % 2 ^ 32)
  rw [hlength] at hb'
  refine ⟨hfn, _, ((smallEntry_data h).ntfsDatarun_iff hsize).mpr ⟨b, ?_, b', ?_, rfl⟩⟩
  · rw [hfilelg, hzeros]
    exact hb
  · rw [hfilelg, hlg]
    exact hb'

theorem smallVolume_mftRun {rl : Byte} (h : rl = 8 ∨ rl = 16) (p : BitmapParams) :
    ∃ p', mftRun 3 512 smallVolume smallBoot (smallEntry rl) p = .done p' := by
  obtain ⟨p₁, hp₁⟩ := ntfsFilename_done (smallEntry_name h)
  obtain ⟨hfn, p₂, hp₂⟩ := smallVolume_ntfsDatarun h hp₁
  have hfirst : firstAttribute (smallEntry rl) = 0x30 := by rcases h with rfl | rfl <;> decide +kernel
  have hfields : numberAt 4 (smallEntry rl) 0x30 = some 0x30 ∧
      numberAt 4 (smallEntry rl) 0x34 = some 0x68 ∧
      numberAt 4 (smallEntry rl) 0x98 = some 0x80 ∧ numberAt 4 (smallEntry rl) 0x9C = some 0x44 ∧
      numberAt 4 (smallEntry rl) 0xDC = some 0xFFFFFFFF := by
        rcases h with rfl | rfl <;> decide +kernel
  obtain ⟨htype, hlg, htype', hlg', hend⟩ := hfields
  have hname : mftTurn 512 smallVolume smallBoot (smallEntry rl) ⟨0x30, p⟩ =
      .done (.inl ⟨0x98, p₁⟩) := by
    rw [mftTurn_attribute (show ¬ (1024 ≤ 0x30 ∧ 0x30 < 2 ^ 31) by decide) htype (by decide) hlg,
      ntfsAttribute, if_neg (by decide), if_pos rfl, hp₁]
    rfl
  have hdata : mftTurn 512 smallVolume smallBoot (smallEntry rl) ⟨0x98, p₁⟩ =
      .done (.inl ⟨0xDC, p₂⟩) := by
    rw [mftTurn_attribute (show ¬ (1024 ≤ 0x98 ∧ 0x98 < 2 ^ 31) by decide) htype' (by decide) hlg',
      ntfsAttribute, if_neg (by decide), if_neg (by decide),
      if_neg (by decide), if_pos rfl, if_pos hfn, hp₂]
    rfl
  have hlast : mftTurn 512 smallVolume smallBoot (smallEntry rl) ⟨0xDC, p₂⟩ = .done (.inr p₂) := by
    rw [mftTurn, if_neg (show ¬ (1024 ≤ 0xDC ∧ 0xDC < 2 ^ 31) by decide), mftField_of_numberAt hend,
      Fate.bind_done, if_pos rfl]
  refine ⟨p₂, ?_⟩
  rw [mftRun, hfirst, Fate.iterate, hname, Fate.bind_done, Sum.elim_inl, Fate.iterate, hdata,
    Fate.bind_done, Sum.elim_inl, Fate.iterate, hlast, Fate.bind_done, Sum.elim_inr]

theorem bitmap_length_small : ∃ p', mftRun 3 512 smallVolume smallBoot (smallEntry 8) ⟨0, 0, [], []⟩ = .done p' ∧
    p'.bitmaplg = 8 ∧ 512 ≤ p'.bitmap.length := by
  have h8 : (8 : Byte) = 8 ∨ (8 : Byte) = 16 := Or.inl rfl
  obtain ⟨p', hp'⟩ := smallVolume_mftRun h8 ⟨0, 0, [], []⟩
  exact ⟨p', hp', (bitmap_length (smallEntry_bitmap h8) hp').mpr (by decide)⟩

/-- The bitmap has grown from 8 bytes to 16 inside its cluster: half of it is lost. -/
theorem smallEntry_stale : ∃ p', BitmapMft smallBoot (smallEntry 16) 0x30 0x98 512 8 512 16 ∧
    mftRun 3 512 smallVolume smallBoot (smallEntry 16) ⟨0, 0, [], []⟩ = .done p' ∧
    p'.bitmaplg = 8 ∧ 16 * smallBoot.spc = 16 := by
  have h16 : (16 : Byte) = 8 ∨ (16 : Byte) = 16 := Or.inr rfl
  obtain ⟨p', hp'⟩ := smallVolume_mftRun h16 ⟨0, 0, [], []⟩
  have hlengths := (smallEntry_bitmap h16).lengths_cases hp'
  rw [if_neg (by decide)] at hlengths
  exact ⟨p', smallEntry_bitmap h16, hp', hlengths.1, rfl⟩

end PulseImaging
