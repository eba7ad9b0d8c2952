import PulseImaging.Fate
import PulseImaging.Bitmap
import PulseImaging.ImageNtfs
import Mathlib.Data.List.GetD

/-! Bitmaps in which sectors are marked one after the other. -/

namespace PulseImaging

/-- Bit `s`; bits behind the end are clear. -/
def bitSet (bitmap : List Byte) (s : Nat) : Bool := (bits bitmap).getD s false

/-! ### One bit -/

theorem and_or_byte (b m m' : Byte) : (b ||| m) &&& m' = (b &&& m') ||| (m &&& m') := by
  rw [← UInt8.toBitVec_inj]
  simp only [UInt8.toBitVec_and, UInt8.toBitVec_or]
  ext i
  simp [Bool.and_or_distrib_right]

theorem byteBits_or (b : Byte) {j : Nat} (hj : j < 8) :
    byteBits (b ||| masks.getD j 0) = (byteBits b).set j true := by
  have hkeep {m m' : Byte} (h : m &&& m' = 0) : ((b ||| m) &&& m' != 0) = (b &&& m' != 0) := by
    rw [and_or_byte, h, UInt8.or_zero]
  have hset {m : Byte} (h : m ≠ 0) : ((b ||| m) &&& m != 0) = true := by
    rw [and_or_byte, UInt8.and_self, bne_iff_ne, Ne, UInt8.or_eq_zero_iff]
    exact fun h0 => h h0.2
  interval_cases j <;> simp (disch := decide) [byteBits, masks, hkeep, hset]

theorem bits_set {bitmap : List Byte} {i j : Nat} {b b' : Byte} {v : Bool}
    (hb : bitmap[i]? = some b) (hj : j < 8) (h : byteBits b' = (byteBits b).set j v) :
    bits (bitmap.set i b') = (bits bitmap).set (8 * i + j) v := by
  induction bitmap generalizing i with
  | nil => simp at hb
  | cons c bitmap ih =>
    cases i with
    | zero =>
      obtain rfl : c = b := by simpa using hb
      rw [List.set_cons_zero, bits_cons, bits_cons, h, Nat.mul_zero, Nat.zero_add,
        List.set_append_left _ _ (by rwa [byteBits_length])]
    | succ i =>
      rw [List.set_cons_succ, bits_cons, bits_cons, ih (by simpa using hb),
        List.set_append_right _ _ (by rw [byteBits_length]; omega), byteBits_length,
        show 8 * (i + 1) + j - 8 = 8 * i + j by omega]

theorem setbit_spec {bitmap : List Byte} {cur nb : Nat} (h : 8 * cur + nb < 8 * bitmap.length) :
    ∃ bitmap', setbit bitmap cur nb = some bitmap' ∧ bitmap'.length = bitmap.length ∧
      ∀ s, bitSet bitmap' s = true ↔ bitSet bitmap s = true ∨ s = 8 * cur + nb := by
  have hs : nb >>> 3 = nb / 8 := Nat.shiftRight_eq_div_pow nb 3
  have hm : nb &&& 7 = nb % 8 := Nat.and_two_pow_sub_one_eq_mod nb 3
  have hi : cur + nb / 8 < bitmap.length := by omega
  have hget : bitmap[cur + nb / 8]? = some bitmap[cur + nb / 8] := List.getElem?_eq_getElem hi
  have hbits := bits_set hget (Nat.mod_lt nb (by decide))
    (byteBits_or bitmap[cur + nb / 8] (Nat.mod_lt nb (by decide)))
  refine ⟨_, by rw [setbit, hs, hm, hget, Option.map_some], List.length_set, fun s => ?_⟩
  rw [bitSet, bitSet, hbits, show 8 * (cur + nb / 8) + nb % 8 = 8 * cur + nb by omega,
    List.getD_eq_getElem?_getD, List.getD_eq_getElem?_getD, List.getElem?_set, bits_length]
  by_cases he : 8 * cur + nb = s
  · subst he
    simp [h]
  · rw [if_neg he]
    exact ⟨Or.inl, fun h => h.resolve_right (fun h => he h.symm)⟩

theorem bits_zeros (n : Nat) : bits (List.replicate n 0) = List.replicate (8 * n) false := by
  induction n with
  | zero => rfl
  | succ n ih =>
    have hzero : byteBits 0 = List.replicate 8 false := by decide
    rw [List.replicate_succ, bits_cons, ih, hzero, List.replicate_append_replicate, Nat.mul_succ,
      Nat.add_comm]

theorem bitSet_zeros (n s : Nat) : bitSet (List.replicate n 0) s = false := by
  rw [bitSet, bits_zeros, List.getD_eq_getElem?_getD, List.getElem?_replicate]
  split <;> rfl

theorem bitSet_lt {bitmap : List Byte} {s : Nat} (h : bitSet bitmap s = true) :
    s < 8 * bitmap.length := by
  by_contra hout
  rw [bitSet, List.getD_eq_default _ _ (by rw [bits_length]; omega)] at h
  cases h

theorem bitSet_full {n s : Nat} (h : s < 8 * n) : bitSet (List.replicate n 0xFF) s = true := by
  rw [bitSet, bits_replicate_ff, List.getD_eq_getElem?_getD, List.getElem?_replicate, if_pos h]
  rfl

theorem bitSet_take {bitmap : List Byte} {n : Nat} (h : n ≤ bitmap.length) (s : Nat) :
    bitSet (bitmap.take n) s = true ↔ bitSet bitmap s = true ∧ s < 8 * n := by
  have hlen : (bits (bitmap.take n)).length = 8 * n := by rw [bits_length, List.length_take_of_le h]
  have hsplit : bits bitmap = bits (bitmap.take n) ++ bits (bitmap.drop n) := by
    rw [← bits_append, List.take_append_drop]
  rw [bitSet, bitSet, hsplit]
  by_cases hs : s < 8 * n
  · rw [List.getD_append _ _ _ _ (by omega), and_iff_left hs]
  · rw [List.getD_eq_default _ _ (by omega)]
    exact iff_of_false Bool.false_ne_true (fun h => hs h.2)

/-! ### Marks -/

/-- `bitmap'` has the bits of `bitmap` and those of `P`. -/
def Marks (bitmap bitmap' : List Byte) (P : Nat → Prop) : Prop :=
  bitmap'.length = bitmap.length ∧ ∀ s, bitSet bitmap' s = true ↔ bitSet bitmap s = true ∨ P s

theorem Marks.refl {P : Nat → Prop} (bitmap : List Byte) (h : ∀ s, ¬ P s) : Marks bitmap bitmap P :=
  ⟨rfl, fun s => ⟨Or.inl, fun hs => hs.resolve_right (h s)⟩⟩

theorem Marks.trans {b b' b'' : List Byte} {P Q : Nat → Prop} (h : Marks b b' P)
    (h' : Marks b' b'' Q) :
    Marks b b'' (fun s => P s ∨ Q s) :=
  ⟨h'.1.trans h.1, fun s => by rw [h'.2, h.2, or_assoc]⟩

theorem Marks.congr {b b' : List Byte} {P Q : Nat → Prop} (h : Marks b b' P) (hPQ : ∀ s, P s ↔ Q s) :
    Marks b b' Q :=
  ⟨h.1, fun s => by rw [h.2, hPQ]⟩

theorem Marks.of_zeros {n : Nat} {b : List Byte} {P : Nat → Prop}
    (h : Marks (List.replicate n 0) b P) :
    b.length = n ∧ ∀ s, bitSet b s = true ↔ P s :=
  ⟨by rw [h.1, List.length_replicate], fun s => by simp [h.2, bitSet_zeros]⟩

theorem setbit_marks (bitmap : List Byte) (cur nb : Nat) (h : 8 * cur + nb < 8 * bitmap.length) :
    ∃ bitmap', setbit bitmap cur nb = some bitmap' ∧ Marks bitmap bitmap' (· = 8 * cur + nb) := by
  obtain ⟨bitmap', he, hlength, hbits⟩ := setbit_spec h
  exact ⟨bitmap', he, hlength, hbits⟩

theorem setbit_none {bitmap : List Byte} {cur nb : Nat} (h : 8 * bitmap.length ≤ 8 * cur + nb) :
    setbit bitmap cur nb = none := by
  have hs : nb >>> 3 = nb / 8 := Nat.shiftRight_eq_div_pow nb 3
  rw [setbit, hs, List.getElem?_eq_none (by omega), Option.map_none]

/-- What `P` gives is there when `Q` is inside, and has the marks of `Q`. -/
structure Storing (bitmap : List Byte) (Q : Nat → Prop) (P : List Byte → Prop) : Prop where
  inside : (∃ b, P b) ↔ ∀ s, Q s → s < 8 * bitmap.length
  marks : ∀ b, P b → Marks bitmap b Q

theorem Storing.congr {b : List Byte} {P P' : List Byte → Prop} {Q Q' : Nat → Prop}
    (h : Storing b Q P) (hQ : ∀ s, Q s ↔ Q' s) (hP : ∀ c, P c ↔ P' c) : Storing b Q' P' := by
  refine ⟨?_, fun b' hb' => (h.marks b' ((hP b').mpr hb')).congr hQ⟩
  simp only [← hP, ← hQ]
  exact h.inside

/-- Nothing is stored. -/
theorem Storing.refl (b : List Byte) {Q : Nat → Prop} (hQ : ∀ s, ¬ Q s) : Storing b Q (b = ·) :=
  ⟨iff_of_true ⟨b, rfl⟩ (fun s hs => absurd hs (hQ s)), fun _ hb => hb ▸ Marks.refl b hQ⟩

/-- One thing is stored after the other. -/
theorem Storing.trans {b : List Byte} {P : List Byte → Prop} {Q Q' : Nat → Prop}
    {P' : List Byte → List Byte → Prop} (h : Storing b Q P)
    (h' : ∀ b', P b' → Storing b' Q' (P' b')) :
    Storing b (fun s => Q s ∨ Q' s) (fun b'' => ∃ b', P b' ∧ P' b' b'') := by
  constructor
  · constructor
    · rintro ⟨b'', b', hb', hb''⟩ s (hs | hs)
      · exact h.inside.mp ⟨b', hb'⟩ s hs
      · rw [← (h.marks b' hb').1]
        exact (h' b' hb').inside.mp ⟨b'', hb''⟩ s hs
    · intro hin
      obtain ⟨b', hb'⟩ := h.inside.mpr (fun s hs => hin s (.inl hs))
      obtain ⟨b'', hb''⟩ := (h' b' hb').inside.mpr (fun s hs => by
        rw [(h.marks b' hb').1]
        exact hin s (.inr hs))
      exact ⟨b'', b', hb', hb''⟩
  · rintro b'' ⟨b', hb', hb''⟩
    exact (h.marks b' hb').trans ((h' b' hb').marks b'' hb'')

theorem setbit_storing (bitmap : List Byte) (cur nb : Nat) :
    Storing bitmap (· = 8 * cur + nb) (fun b => setbit bitmap cur nb = some b) := by
  constructor
  · constructor
    · rintro ⟨b, hb⟩ s rfl
      by_contra hout
      rw [setbit_none (not_lt.mp hout)] at hb
      cases hb
    · intro h
      obtain ⟨b, hb, -⟩ := setbit_spec (h _ rfl)
      exact ⟨b, hb⟩
  · intro b hb
    have hlt : 8 * cur + nb < 8 * bitmap.length := by
      by_contra hout
      rw [setbit_none (not_lt.mp hout)] at hb
      cases hb
    obtain ⟨b', hb', hmarks⟩ := setbit_marks bitmap cur nb hlt
    cases hb.symm.trans hb'
    exact hmarks

theorem testBit_done {bitmap : List Byte} {b : Nat} (h : b < 8 * bitmap.length) :
    testBit bitmap b = some (bitSet bitmap b) := by
  rw [testBit_eq, bitSet, List.getD_eq_getElem?_getD, List.getElem?_eq_getElem (by rwa [bits_length])]
  rfl

/-! ### Loops over sectors -/

/-- `setbit` of `pos s` for each `s` of `ss` that passes `test`. -/
def markLoop (test : Nat → Fate Bool) (pos : Nat → Nat) (ss : List Nat) (bitmap : List Byte) : Fate (List Byte) :=
  Fate.loop (fun bitmap s =>
    (test s).bind (fun t => if t then Fate.ofAccess (setbit bitmap 0 (pos s)) else .done bitmap)) ss bitmap

/-- `test` reads nothing from outside and what it passes is in the bitmap. -/
def MarkSafe (test : Nat → Fate Bool) (pos : Nat → Nat) (n s : Nat) : Prop :=
  ∃ t, test s = .done t ∧ (t = true → pos s < n)

theorem markLoop_spec (test : Nat → Fate Bool) (pos : Nat → Nat) (ss : List Nat) (bitmap : List Byte)
    (h : ∀ s ∈ ss, MarkSafe test pos (8 * bitmap.length) s) :
    ∃ bitmap', markLoop test pos ss bitmap = .done bitmap' ∧
      Marks bitmap bitmap' (fun s => ∃ x ∈ ss, test x = .done true ∧ s = pos x) := by
  induction ss generalizing bitmap with
  | nil => exact ⟨bitmap, rfl, Marks.refl bitmap (fun s hs => by simp at hs)⟩
  | cons x ss ih =>
    obtain ⟨t, ht, hx⟩ := h x List.mem_cons_self
    have hss : ∀ s ∈ ss, MarkSafe test pos (8 * bitmap.length) s :=
      fun s hs => h s (List.mem_cons_of_mem _ hs)
    cases t with
    | false =>
      obtain ⟨bitmap', he, hmarks⟩ := ih bitmap hss
      refine ⟨bitmap', by simpa [markLoop, Fate.loop, ht] using he, hmarks.congr (fun s => ?_)⟩
      simp [ht]
    | true =>
      obtain ⟨b, hb, hmark⟩ := setbit_marks bitmap 0 (pos x) (by simpa using hx rfl)
      obtain ⟨bitmap', he, hmarks⟩ := ih b (by rwa [hmark.1])
      refine ⟨bitmap', by simpa [markLoop, Fate.loop, ht, hb] using he,
        (hmark.trans hmarks).congr (fun s => ?_)⟩
      simp [ht]

theorem markLoop_fault {test : Nat → Fate Bool}
    (hends : ∀ s, test s = .fault ∨ ∃ t, test s = .done t) {pos : Nat → Nat} {ss : List Nat}
    (bitmap : List Byte) (h : ¬ ∀ s ∈ ss, MarkSafe test pos (8 * bitmap.length) s) :
    markLoop test pos ss bitmap = .fault := by
  induction ss generalizing bitmap with
  | nil => simp at h
  | cons x ss ih =>
    rcases hends x with ht | ⟨t, ht⟩
    · simp [markLoop, Fate.loop, ht]
    · by_cases hx : t = true → pos x < 8 * bitmap.length
      · have hss : ¬ ∀ s ∈ ss, MarkSafe test pos (8 * bitmap.length) s := by
          rintro hss
          refine h (fun s hs => ?_)
          rcases List.mem_cons.mp hs with rfl | hs
          · exact ⟨t, ht, hx⟩
          · exact hss s hs
        cases t with
        | false => simpa [markLoop, Fate.loop, ht] using ih bitmap hss
        | true =>
          obtain ⟨b, hb, hmark⟩ := setbit_marks bitmap 0 (pos x) (by simpa using hx rfl)
          simpa [markLoop, Fate.loop, ht, hb] using ih b (by rwa [hmark.1])
      · obtain ⟨rfl, hout⟩ := Classical.not_imp.mp hx
        have hnone : setbit bitmap 0 (pos x) = none := setbit_none (by simpa using hout)
        simp [markLoop, Fate.loop, ht, hnone]

/-- Nothing outside is accessed, exactly when no step does. -/
theorem markLoop_safe_iff {test : Nat → Fate Bool}
    (hends : ∀ s, test s = .fault ∨ ∃ t, test s = .done t) (pos : Nat → Nat) (ss : List Nat)
    (bitmap : List Byte) :
    markLoop test pos ss bitmap ≠ .fault ↔ ∀ s ∈ ss, MarkSafe test pos (8 * bitmap.length) s := by
  constructor
  · exact fun h => Classical.byContradiction (fun hs => h (markLoop_fault hends bitmap hs))
  · intro h
    obtain ⟨bitmap', he, -⟩ := markLoop_spec test pos ss bitmap h
    rw [he]
    simp

/-- The loop that marks all sectors before `n`. -/
def markAll (n : Nat) : List Byte → Fate (List Byte) := markLoop (fun _ => .done true) id (List.range n)

theorem markAll_spec {n lg : Nat} (h : n ≤ 8 * lg) :
    ∃ b, markAll n (List.replicate lg 0) = .done b ∧ b.length = lg ∧
      ∀ s, bitSet b s = true ↔ s < n := by
  obtain ⟨b, hb, hmarks⟩ := markLoop_spec (fun _ => Fate.done true) id (List.range n)
    (List.replicate lg 0)
    (fun s hs => ⟨true, rfl, fun _ => by
      have := List.mem_range.mp hs
      rw [List.length_replicate, id]
      omega⟩)
  obtain ⟨hlength, hbits⟩ := hmarks.of_zeros
  exact ⟨b, hb, hlength, fun s => by simp [hbits]⟩

theorem markAll_fault {n lg : Nat} (h : 8 * lg < n) : markAll n (List.replicate lg 0) = .fault := by
  refine markLoop_fault (by simp) _ (fun hsafe => ?_)
  obtain ⟨t, ht, hlt⟩ := hsafe (n - 1) (by rw [List.mem_range]; omega)
  cases ht
  have := hlt rfl
  rw [List.length_replicate, id] at this
  omega

end PulseImaging
