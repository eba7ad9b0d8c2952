import PulseImaging.WriteRequests
import PulseImaging.BootRestore

/-! The write loop of `new_get` on disks of every size. The cursor goes over a whole run even if
the run is cut at the end of the disk, the bit behind a run is read before the loop knows
that the buffer is finished, and `biosdisk` takes the sector as an `int`. -/

namespace PulseImaging

def marksOf (out : List Byte) : List Nat := setBits (allocOf out)

/-- The data of the marked sector `j`. -/
def sectorOf (out : List Byte) (j : Nat) : List Byte := (out.drop (OUTBUFF + 512 * j)).take 512

/-- The data behind the header are one sector for each mark. -/
def Decompressed (out : List Byte) : Prop := out.length = OUTBUFF + 512 * (marksOf out).length

/-- Nothing is written at or behind the end of the disk, and the marked sectors in front of it
get their data. -/
structure WritesRight (out : List Byte) (sect total : Nat) (s : WriteScan) : Prop where
  inside : ∀ q ∈ s.log, q.sect + q.nb ≤ total
  data : ∀ disk j g, (marksOf out)[j]? = some g → sect + g < total →
    slice (s.disk disk) (512 * (sect + g)) 512 = sectorOf out j

/-- A run of neighbours that come in one buffer begins with mark `j`, which is bit `g`. -/
def RunFirst (out : List Byte) (j g : Nat) : Prop :=
  j % 47 = 0 ∨ ∀ a, (marksOf out)[j - 1]? = some a → a + 1 ≠ g

/-- A run begins in front of the end of the disk and goes over it. -/
structure RunAcross (out : List Byte) (sect total j g r : Nat) : Prop where
  first : RunFirst out j g
  buffer : j % 47 + r ≤ 47
  marks : ∀ o < r, (marksOf out)[j + o]? = some (g + o)
  starts : (sect + g) % 2 ^ 32 < total
  ends : total < (sect + g) % 2 ^ 32 + r

/-- A run begins in front of the end of the disk, at a sector that is no positive `int`. -/
structure HighRun (out : List Byte) (sect total j g : Nat) : Prop where
  first : RunFirst out j g
  mark : (marksOf out)[j]? = some g
  high : 2 ^ 31 ≤ sect + g
  starts : sect + g < total

/-- The last bit of `alloc` is clear, no run goes over the end of the disk, and none begins at a sector that
`biosdisk` cannot be given. -/
structure RunsFit (out : List Byte) (sect total : Nat) : Prop where
  last : 8 * ALLOCLG - 1 ∉ marksOf out
  across : ∀ j g r, ¬ RunAcross out sect total j g r
  low : ∀ j g, ¬ HighRun out sect total j g

/-! ### Sectors of a patched disk -/

theorem slice_patch_outside (c : Content) {pos p n : Nat} {data : List Byte}
    (h : p + n ≤ pos ∨ pos + data.length ≤ p) :
    slice (patch c pos data) p n = slice c p n := by
  refine List.map_congr_left fun k hk => if_neg ?_
  have := List.mem_range.mp hk
  omega

theorem slice_patch_inside (c : Content) {pos o n : Nat} {data : List Byte}
    (h : o + n ≤ data.length) :
    slice (patch c pos data) (pos + o) n = (data.drop o).take n := by
  apply List.ext_getElem?
  intro k
  by_cases hk : k < n
  · rw [slice_getElem? hk, patch, if_pos (by omega), List.getElem?_take, if_pos hk,
      List.getElem?_drop,
      show pos + o + k - pos = o + k by omega, List.getD_eq_getElem?_getD,
      List.getElem?_eq_getElem (by omega), Option.getD_some]
  · rw [List.getElem?_eq_none_iff.mpr (by rw [slice_length]; omega),
      List.getElem?_eq_none_iff.mpr (by rw [List.length_take, List.length_drop]; omega)]

theorem WriteRequest.slice_apply (disk : Content) {q : WriteRequest} {p n : Nat}
    (h : p + n ≤ 512 * q.sect ∨ 512 * q.sect + q.data.length ≤ p) :
    slice (WriteRequest.apply disk q) p n = slice disk p n := by
  rw [WriteRequest.apply]
  split
  · exact slice_patch_outside disk h
  · rfl

section

variable {out : List Byte} {sect total : Nat}

/-! ### The file -/

theorem allocOf_length (h : Decompressed out) : (allocOf out).length = ALLOCLG := by
  have hlen : OUTBUFF ≤ out.length := by
    rw [h]
    exact Nat.le_add_right _ _
  rw [allocOf, List.length_take, List.length_drop, List.length_take]
  simp only [OUTBUFF, HEADERLG, ALLOCLG] at hlen ⊢
  omega

theorem marksOf_lt (h : Decompressed out) {j g : Nat} (hg : (marksOf out)[j]? = some g) :
    g < 8 * ALLOCLG := by
  have hlt := setBits_lt (List.mem_of_getElem? hg)
  rwa [allocOf_length h] at hlt

theorem marksOf_ascends {i j a b : Nat} (ha : (marksOf out)[i]? = some a)
    (hb : (marksOf out)[j]? = some b) (h : i < j) :
    a < b := by
  obtain ⟨hi, rfl⟩ := List.getElem?_eq_some_iff.mp ha
  obtain ⟨hj, rfl⟩ := List.getElem?_eq_some_iff.mp hb
  exact List.pairwise_iff_getElem.mp (indexes_pairwise 0 _) i j hi hj h

theorem outputBuffer_sectors (h : Decompressed out) (b : Nat) :
    (outputBuffer out b).length / 512 = min 47 ((marksOf out).length - 47 * b) := by
  have hlen : out.length = OUTBUFF + 512 * (marksOf out).length := h
  rw [outputBuffer, List.length_take, List.length_drop, hlen]
  simp only [OUTBUFF]
  omega

theorem outputBuffer_data (out : List Byte) {b i r : Nat} (h : i + r ≤ 47) :
    ((outputBuffer out b).drop (512 * i)).take (512 * r) =
      (out.drop (OUTBUFF + 512 * (47 * b + i))).take (512 * r) := by
  have hB : OUTBUFF = 512 * 47 := rfl
  rw [outputBuffer, List.drop_take, List.take_take, List.drop_drop, Nat.min_eq_left (by omega), hB,
    show 512 * 47 * (b + 1) + 512 * i = 512 * 47 + 512 * (47 * b + i) by omega]

theorem dataOf_length (h : Decompressed out) {m r : Nat} (hr : m + r ≤ (marksOf out).length) :
    ((out.drop (OUTBUFF + 512 * m)).take (512 * r)).length = 512 * r := by
  have hlen : out.length = OUTBUFF + 512 * (marksOf out).length := h
  rw [List.length_take, List.length_drop, hlen]
  omega

theorem dataOf_sector (out : List Byte) {m r o : Nat} (ho : o < r) :
    (((out.drop (OUTBUFF + 512 * m)).take (512 * r)).drop (512 * o)).take 512 =
      sectorOf out (m + o) := by
  rw [List.drop_take, List.take_take, List.drop_drop, Nat.min_eq_left (by omega), sectorOf,
    show OUTBUFF + 512 * m + 512 * o = OUTBUFF + 512 * (m + o) by omega]

/-! ### Along the file -/

/-- The first `m` marked sectors have been dealt with as they should. -/
structure Along (out : List Byte) (sect total m : Nat) (s : WriteScan) : Prop where
  first : m % 47 = 0 ∨ ∀ a g, (marksOf out)[m - 1]? = some a → (marksOf out)[m]? = some g → a + 1 ≠ g
  cursor : ∃ k, s.cursor = cursorAt sect k ∧ remaining (allocOf out) k = (marksOf out).drop m
  inside : ∀ q ∈ s.log, q.sect + q.nb ≤ total
  data : (∀ j g, ¬ HighRun out sect total j g) → ∀ disk j g, j < m → (marksOf out)[j]? = some g →
    sect + g < total → slice (s.disk disk) (512 * (sect + g)) 512 = sectorOf out j
  kept : ∀ disk j g, m ≤ j ∨ HighRun out sect total j g → (marksOf out)[j]? = some g → sect + g < total →
    slice (s.disk disk) (512 * (sect + g)) 512 = slice disk (512 * (sect + g)) 512

/-- A run of `r` marked sectors from bit `g` on, which is mark `m`; it ends with the buffer or
before a clear bit. -/
structure RunAt (out : List Byte) (m g r : Nat) : Prop where
  pos : 0 < r
  marks : ∀ o < r, (marksOf out)[m + o]? = some (g + o)
  rest : remaining (allocOf out) (g + r) = (marksOf out).drop (m + r)
  closed : (m + r) % 47 = 0 ∨ (marksOf out)[m + r]? ≠ some (g + r)

variable {b m r g : Nat} {s : WriteScan}

theorem RunAt.le (h : RunAt out m g r) : m + r ≤ (marksOf out).length := by
  have hpos := h.pos
  obtain ⟨hlt, -⟩ := List.getElem?_eq_some_iff.mp (h.marks (r - 1) (by omega))
  omega

theorem RunAt.end_le (hd : Decompressed out) (h : RunAt out m g r) : g + r ≤ 8 * ALLOCLG := by
  have hpos := h.pos
  have hlt := marksOf_lt hd (h.marks (r - 1) (by omega))
  omega

theorem runAt_run (hd : Decompressed out) {k : Nat} {rest : List Nat} (hm : m = 47 * b + s.i)
    (hi : s.i < (outputBuffer out b).length / 512) (hrem : remaining (allocOf out) k = g :: rest)
    (hdrop : g :: rest = (marksOf out).drop m) :
    RunAt out m g (s.run (allocOf out) (outputBuffer out b) g) := by
  have hself := (remaining_self hrem).trans hdrop
  have hsectors := outputBuffer_sectors hd b
  obtain ⟨hle, hrun, -⟩ := run_le s (allocOf out) (outputBuffer out b) g
  refine ⟨run_pos hi hrem, fun o ho => ?_, ?_, ?_⟩
  · have hget := runFrom_getElem ho
    rw [List.getElem?_take, hself, List.getElem?_drop] at hget
    split at hget
    · exact hget
    · cases hget
  · rw [remaining_drop rfl hrun, hself, List.drop_drop]
  · by_cases hfull : s.run (allocOf out) (outputBuffer out b) g =
      (outputBuffer out b).length / 512 - s.i
    · -- the buffer is full, or the last one
      by_cases hlast : 47 * (b + 1) ≤ (marksOf out).length
      · exact Or.inl (by omega)
      · rw [List.getElem?_eq_none_iff.mpr (by omega)]
        exact Or.inr (Option.some_ne_none _).symm
    · have hne := @runFrom_end g ((remaining (allocOf out) g).take
        ((outputBuffer out b).length / 512 - s.i))
      rw [← WriteScan.run, List.getElem?_take, if_pos (by omega), hself, List.getElem?_drop] at hne
      exact Or.inr hne

theorem after_eq (s : WriteScan) (buffer : List Byte)
    (hfit : total ≤ (sect + g) % 2 ^ 32 ∨ (sect + g) % 2 ^ 32 + r ≤ total) :
    s.after total buffer (r, cursorOf ((sect + g) % 2 ^ 32) (g + r)) =
      ⟨s.i + r, cursorAt sect (g + r), if (sect + g) % 2 ^ 32 < total then
        s.log ++ [⟨(sect + g) % 2 ^ 32, r, (buffer.drop (512 * s.i)).take (512 * r)⟩]
          else s.log⟩ := by
  have hmod := Nat.mod_le ((sect + g) % 2 ^ 32 + r) (2 ^ 32)
  have hcut : cutRun total ((sect + g) % 2 ^ 32) r = r := if_neg (by omega)
  have hmove : (cursorOf ((sect + g) % 2 ^ 32) (g + r)).move r = cursorAt sect (g + r) := by
    simp only [cursorAt, Cursor.move, cursorOf, Cursor.mk.injEq, and_true]
    omega
  rw [after_cursorOf, hcut, hmove]

theorem after_disk (s : WriteScan) (hm : m = 47 * b + s.i) (hi : s.i + r ≤ 47)
    (hfit : total ≤ (sect + g) % 2 ^ 32 ∨ (sect + g) % 2 ^ 32 + r ≤ total) (disk : Content) :
    (s.after total (outputBuffer out b) (r, cursorOf ((sect + g) % 2 ^ 32) (g + r))).disk disk =
      if (sect + g) % 2 ^ 32 < total then
        WriteRequest.apply (s.disk disk)
          ⟨(sect + g) % 2 ^ 32, r, (out.drop (OUTBUFF + 512 * m)).take (512 * r)⟩
      else s.disk disk := by
  rw [after_eq s _ hfit, outputBuffer_data out hi, ← hm, WriteScan.disk]
  dsimp only
  split
  · rw [List.foldl_append]
    rfl
  · rfl

/-- The sectors of other marks are not those of the run, even if its own wrap around. -/
theorem RunAt.other (hd : Decompressed out) (hs : sect < 2 ^ 32) (htotal : total < 2 ^ 32)
    (hr : RunAt out m g r) {j g' : Nat} (hj : j < m ∨ m + r ≤ j) (hg' : (marksOf out)[j]? = some g')
    (hlt : sect + g' < total) :
    512 * (sect + g') + 512 ≤ 512 * ((sect + g) % 2 ^ 32) ∨
      512 * ((sect + g) % 2 ^ 32) + 512 * r ≤ 512 * (sect + g') := by
  have hpos := hr.pos
  have hle := hr.end_le hd
  have hlg : 8 * ALLOCLG = 176128 := rfl
  rcases hj with hj | hj
  · have hasc := marksOf_ascends hg' (hr.marks 0 hpos) hj
    omega
  · have hasc := marksOf_ascends (hr.marks (r - 1) (by omega)) hg' (by omega)
    omega

theorem after_other (hd : Decompressed out) (hs : sect < 2 ^ 32) (htotal : total < 2 ^ 32)
    (hm : m = 47 * b + s.i) (hr : RunAt out m g r) (hi : s.i + r ≤ 47)
    (hfit : total ≤ (sect + g) % 2 ^ 32 ∨ (sect + g) % 2 ^ 32 + r ≤ total) (disk : Content)
    {j g' : Nat} (hj : j < m ∨ m + r ≤ j) (hg' : (marksOf out)[j]? = some g')
    (hlt : sect + g' < total) :
    slice ((s.after total (outputBuffer out b) (r, cursorOf ((sect + g) % 2 ^ 32) (g + r))).disk disk)
      (512 * (sect + g')) 512 = slice (s.disk disk) (512 * (sect + g')) 512 := by
  rw [after_disk s hm hi hfit]
  split
  · refine WriteRequest.slice_apply (s.disk disk) ?_
    rw [dataOf_length hd hr.le]
    exact hr.other hd hs htotal hj hg' hlt
  · rfl

theorem after_low (hd : Decompressed out) (hm : m = 47 * b + s.i) (hr : RunAt out m g r)
    (hi : s.i + r ≤ 47) (hfit : total ≤ (sect + g) % 2 ^ 32 ∨ (sect + g) % 2 ^ 32 + r ≤ total)
    (hlow : sect + g < 2 ^ 31) (disk : Content) {o : Nat} (ho : o < r)
    (hlt : sect + (g + o) < total) :
    slice ((s.after total (outputBuffer out b) (r, cursorOf ((sect + g) % 2 ^ 32) (g + r))).disk disk)
      (512 * (sect + (g + o))) 512 = sectorOf out (m + o) := by
  have hmod : (sect + g) % 2 ^ 32 = sect + g := Nat.mod_eq_of_lt (by omega)
  have hlen := dataOf_length hd hr.le
  rw [after_disk s hm hi hfit, hmod, if_pos (by omega), WriteRequest.apply_low _ (by exact hlow),
    show 512 * (sect + (g + o)) = 512 * (sect + g) + 512 * o by omega,
    slice_patch_inside _ (by rw [hlen]; omega), dataOf_sector out ho]

theorem Along.runFirst (h : Along out sect total m s) (hr : RunAt out m g r) : RunFirst out m g :=
  h.first.imp_right fun hne a ha => hne a g ha (hr.marks 0 hr.pos)

/-- No run begins in the middle of one that is taken. -/
theorem RunAt.first_eq (hr : RunAt out m g r) (hm : m = 47 * b + s.i) (hi : s.i + r ≤ 47) {o : Nat}
    (ho : o < r) (hfirst : RunFirst out (m + o) (g + o)) :
    o = 0 := by
  cases o with
  | zero => rfl
  | succ o =>
    rcases hfirst with hfirst | hfirst
    · omega
    · exact absurd rfl (hfirst (g + o) (hr.marks o (by omega)))

/-- A run that does not go over the end of the disk. -/
theorem Along.after (hd : Decompressed out) (hs : sect < 2 ^ 32) (htotal : total < 2 ^ 32)
    (h : Along out sect total m s) (hm : m = 47 * b + s.i) (hr : RunAt out m g r)
    (hi : s.i + r ≤ 47) (hfit : total ≤ (sect + g) % 2 ^ 32 ∨ (sect + g) % 2 ^ 32 + r ≤ total) :
    Along out sect total (m + r)
      (s.after total (outputBuffer out b) (r, cursorOf ((sect + g) % 2 ^ 32) (g + r))) := by
  have hpos := hr.pos
  have hafter := after_eq s (outputBuffer out b) hfit
  refine ⟨hr.closed.imp_right fun hne a g' ha hg' => ?_, ⟨g + r, congrArg WriteScan.cursor hafter,
    hr.rest⟩, fun q hq => ?_, fun hno disk j g' hj hg' hlt => ?_, fun disk j g' hj hg' hlt => ?_⟩
  · have hprev := hr.marks (r - 1) (by omega)
    rw [show m + (r - 1) = m + r - 1 by omega, ha, Option.some.injEq] at hprev
    rintro rfl
    exact hne (by rw [hg', hprev, show g + (r - 1) + 1 = g + r by omega])
  · rw [hafter] at hq
    dsimp only at hq
    split at hq
    · rcases List.mem_append.mp hq with hq | hq
      · exact h.inside q hq
      · rw [List.mem_singleton.mp hq]
        dsimp only
        omega
    · exact h.inside q hq
  · by_cases hjm : j < m
    · rw [after_other hd hs htotal hm hr hi hfit disk (Or.inl hjm) hg' hlt]
      exact h.data hno disk j g' hjm hg' hlt
    · obtain ⟨o, rfl⟩ := Nat.exists_eq_add_of_le (Nat.le_of_not_lt hjm)
      obtain rfl : g + o = g' := Option.some.inj ((hr.marks o (by omega)).symm.trans hg')
      have hlow : sect + g < 2 ^ 31 := by
        by_contra hhigh
        exact hno m g ⟨h.runFirst hr, hr.marks 0 hpos, by omega, by omega⟩
      exact after_low hd hm hr hi hfit hlow disk (by omega) hlt
  · by_cases hout : j < m ∨ m + r ≤ j
    · rw [after_other hd hs htotal hm hr hi hfit disk hout hg' hlt]
      exact h.kept disk j g' (hj.imp_left (by omega)) hg' hlt
    · obtain ⟨o, rfl⟩ := Nat.exists_eq_add_of_le (show m ≤ j by omega)
      have ho : o < r := by omega
      obtain rfl : g + o = g' := Option.some.inj ((hr.marks o ho).symm.trans hg')
      have hhigh := hj.resolve_left (by omega)
      obtain rfl := hr.first_eq hm hi ho hhigh.first
      have hge := hhigh.high
      have hmod : (sect + g) % 2 ^ 32 = sect + g := Nat.mod_eq_of_lt (by omega)
      rw [after_disk s hm hi hfit, hmod, if_pos (show sect + g < total from hlt),
        WriteRequest.apply_high _ (by exact hge)]
      exact h.kept disk m g (Or.inl (Nat.le_refl m)) hg' hlt

/-! ### When the runs fit -/

theorem RunsFit.run (hf : RunsFit out sect total) (h : Along out sect total m s)
    (hr : RunAt out m g r) (hm : m = 47 * b + s.i) (hi : s.i + r ≤ 47) :
    total ≤ (sect + g) % 2 ^ 32 ∨ (sect + g) % 2 ^ 32 + r ≤ total := by
  by_contra hnot
  exact hf.across m g r ⟨h.runFirst hr, by omega, hr.marks, by omega, by omega⟩

theorem RunsFit.last_lt (hd : Decompressed out) (hf : RunsFit out sect total) (hr : RunAt out m g r) :
    g + r < 8 * ALLOCLG := by
  have hpos := hr.pos
  have hmark := hr.marks (r - 1) (by omega)
  have hlt := marksOf_lt hd hmark
  have hne : g + (r - 1) ≠ 8 * ALLOCLG - 1 := fun he => hf.last (he ▸ List.mem_of_getElem? hmark)
  omega

/-- The marks that are left when a buffer is not finished. -/
theorem Along.next (hd : Decompressed out) (h : Along out sect total m s) (hm : m = 47 * b + s.i)
    (hi : s.i < (outputBuffer out b).length / 512) :
    ∃ k g rest, s.cursor = cursorAt sect k ∧ remaining (allocOf out) k = g :: rest ∧ g < 8 * ALLOCLG ∧
      RunAt out m g (s.run (allocOf out) (outputBuffer out b) g) ∧
      s.i + s.run (allocOf out) (outputBuffer out b) g ≤ (outputBuffer out b).length / 512 := by
  obtain ⟨k, hc, hrem⟩ := h.cursor
  have hsectors := outputBuffer_sectors hd b
  have hlt : m < (marksOf out).length := by omega
  have hcons := List.drop_eq_getElem_cons hlt
  obtain ⟨hrun, -⟩ := run_le s (allocOf out) (outputBuffer out b) (marksOf out)[m]
  exact ⟨k, _, _, hc, hrem.trans hcons, marksOf_lt hd (List.getElem?_eq_getElem hlt),
    runAt_run hd hm hi (hrem.trans hcons) hcons.symm, by omega⟩

theorem Along.buffer_done (hd : Decompressed out) (hs : sect < 2 ^ 32) (htotal : total < 2 ^ 32)
    (hf : RunsFit out sect total) {fuel turns : Nat} (hfuel : 8 * ALLOCLG < fuel)
    (h : Along out sect total m s) (hm : m = 47 * b + s.i)
    (hi : s.i ≤ (outputBuffer out b).length / 512)
    (hturns : (outputBuffer out b).length / 512 < s.i + turns) :
    ∃ t, Fate.iterate (WriteScan.turn total (allocOf out) (outputBuffer out b) fuel) turns s =
      .done t ∧
      Along out sect total (47 * b + (outputBuffer out b).length / 512) t := by
  have hsectors := outputBuffer_sectors hd b
  induction turns generalizing s m with
  | zero => omega
  | succ turns ih =>
    rw [Fate.iterate]
    by_cases hlt : s.i < (outputBuffer out b).length / 512
    · obtain ⟨k, g, rest, hc, hrem, hg, hr, hle⟩ := h.next hd hm hlt
      have hfit := hf.run h hr hm (by omega)
      have hnext := h.after hd hs htotal hm hr (by omega) hfit
      have hpos := hr.pos
      have hlast := hf.last_lt hd hr
      have hlg : 47 < 8 * ALLOCLG := by decide
      have hturn : s.turn total (allocOf out) (outputBuffer out b) fuel = .done _ :=
        (turn_eq_done hlt hc).mpr
        ⟨g, rest, hrem, by omega, by omega, by rw [allocOf_length hd]; exact hlast, rfl⟩
      have hi' := congrArg WriteScan.i (after_eq s (outputBuffer out b) hfit)
      rw [hturn, Fate.bind_done, Sum.elim_inl]
      dsimp only at hi'
      exact ih hnext (by omega) (by omega) (by omega)
    · rw [WriteScan.turn, if_neg hlt, Fate.bind_done, Sum.elim_inr]
      obtain rfl : m = 47 * b + (outputBuffer out b).length / 512 := by omega
      exact ⟨s, rfl, h⟩

theorem Along.rewind (h : Along out sect total m s) : Along out sect total m { s with i := 0 } :=
  ⟨h.first, h.cursor, h.inside, h.data, h.kept⟩

/-- Sectors are dealt with buffer by buffer. -/
theorem Along.buffers_done (hd : Decompressed out) (hs : sect < 2 ^ 32) (htotal : total < 2 ^ 32)
    (hf : RunsFit out sect total) {fuel : Nat} (hfuel : 8 * ALLOCLG < fuel) (d : Nat)
    (h : Along out sect total (min (47 * b) (marksOf out).length) s)
    (hb : 47 * (b + d) ≤ (marksOf out).length + 46) :
    ∃ t, Fate.loop (writeBuffer total (allocOf out) fuel)
      ((List.range' b d).map (outputBuffer out)) s = .done t ∧
      Along out sect total (min (47 * (b + d)) (marksOf out).length) t := by
  induction d generalizing b s with
  | zero => exact ⟨s, rfl, h⟩
  | succ d ih =>
    have hsectors := outputBuffer_sectors hd b
    have hlg : 47 < 8 * ALLOCLG := by decide
    rw [Nat.min_eq_left (by omega)] at h
    have h₀ : Along out sect total (47 * b) { s with i := 0 } := h.rewind
    obtain ⟨t, hbuffer, ht⟩ : ∃ t, Fate.iterate (WriteScan.turn total (allocOf out)
        (outputBuffer out b) fuel) fuel
        { s with i := 0 } = .done t ∧ Along out sect total
          (47 * b + (outputBuffer out b).length / 512) t :=
      h₀.buffer_done hd hs htotal hf hfuel rfl (Nat.zero_le _) (by dsimp only; omega)
    rw [show 47 * b + (outputBuffer out b).length / 512 =
      min (47 * (b + 1)) (marksOf out).length by omega] at ht
    obtain ⟨t', hloop, ht'⟩ := ih ht (by omega)
    rw [show b + 1 + d = b + (d + 1) by omega] at ht'
    refine ⟨t', ?_, ht'⟩
    rw [List.range'_succ, List.map_cons, Fate.loop, writeBuffer, hbuffer, Fate.bind_done]
    exact hloop

/-! ### When the loop comes to its end -/

/-- Neither the end of the disk nor that of `alloc` is met at mark `j`. -/
def Passed (out : List Byte) (sect total j : Nat) : Prop :=
  (∀ g r, ¬ RunAcross out sect total j g r) ∧ ∀ g, (marksOf out)[j]? = some g → g + 1 < 8 * ALLOCLG

/-- A run that begins at another mark does not begin in the middle of one that is taken. -/
theorem RunAt.passed (hr : RunAt out m g r) (hm : m = 47 * b + s.i) (hi : s.i + r ≤ 47)
    (hfit : total ≤ (sect + g) % 2 ^ 32 ∨ (sect + g) % 2 ^ 32 + r ≤ total)
    (hlast : g + r < 8 * ALLOCLG) {j : Nat} (hj : m ≤ j) (hlt : j < m + r) :
    Passed out sect total j := by
  obtain ⟨o, rfl⟩ := Nat.exists_eq_add_of_le hj
  have hmark := hr.marks o (by omega)
  refine ⟨fun g' r' hacross => ?_, fun g' hg' => ?_⟩
  · have hstarts := hacross.starts
    have hends := hacross.ends
    obtain rfl : g + o = g' := Option.some.inj (hmark.symm.trans (hacross.marks 0 (by omega)))
    obtain rfl := hr.first_eq hm hi (by omega) hacross.first
    by_cases hle : r' ≤ r
    · omega
    · have hnext := hacross.marks r (by omega)
      have hbuffer := hacross.buffer
      rcases hr.closed with hclosed | hclosed
      · omega
      · exact hclosed hnext
  · obtain rfl : g + o = g' := Option.some.inj (hmark.symm.trans hg')
    omega

/-- A run that is cut leaves more sectors than bits, and one whose end wraps around is written. -/
theorem RunAt.fits (hm : m = 47 * b + s.i) (hr : RunAt out m g r)
    (hle : s.i + r ≤ (outputBuffer out b).length / 512) {fuel turns : Nat} {t : WriteScan}
    (hdone : Fate.iterate (WriteScan.turn total (allocOf out) (outputBuffer out b) fuel) turns
      (s.after total (outputBuffer out b) (r, cursorOf ((sect + g) % 2 ^ 32) (g + r))) = .done t)
    (hinside : ∀ q ∈ t.log, q.sect + q.nb ≤ total)
    (hrest : ∀ S k, t.cursor = cursorAt S k →
      (marksOf out).length - (47 * b + (outputBuffer out b).length / 512) ≤
      (remaining (allocOf out) k).length) :
    total ≤ (sect + g) % 2 ^ 32 ∨ (sect + g) % 2 ^ 32 + r ≤ total := by
  by_contra hnot
  obtain ⟨S₁, hc₁⟩ := after_cursor total s (outputBuffer out b) ((sect + g) % 2 ^ 32) r (g + r)
  obtain ⟨hlog, S', k', hc', hcount⟩ := buffer_count hc₁ hdone
  have hleft := hrest S' k' hc'
  have hlen := hr.le
  rw [hr.rest, List.length_drop, after_cursorOf] at hcount
  rw [after_cursorOf] at hlog
  dsimp only at hcount hlog
  by_cases hcut : (sect + g) % 2 ^ 32 < total ∧ ((sect + g) % 2 ^ 32 + r) % 2 ^ 32 > total
  · rw [cutRun, if_pos hcut] at hcount
    omega
  · rw [cutRun, if_neg hcut, if_pos (by omega)] at hlog
    have hq := hinside _ (hlog.subset (List.mem_append_right _ (List.mem_singleton.mpr rfl)))
    dsimp only at hq
    omega

theorem Along.buffer_passed (hd : Decompressed out) (hs : sect < 2 ^ 32) (htotal : total < 2 ^ 32)
    {fuel turns : Nat} {t : WriteScan} (h : Along out sect total m s) (hm : m = 47 * b + s.i)
    (hi : s.i ≤ (outputBuffer out b).length / 512)
    (hdone : Fate.iterate (WriteScan.turn total (allocOf out) (outputBuffer out b) fuel) turns s =
      .done t)
    (hinside : ∀ q ∈ t.log, q.sect + q.nb ≤ total)
    (hrest : ∀ S k, t.cursor = cursorAt S k →
      (marksOf out).length - (47 * b + (outputBuffer out b).length / 512) ≤
      (remaining (allocOf out) k).length) :
    Along out sect total (47 * b + (outputBuffer out b).length / 512) t ∧
      ∀ j, m ≤ j → j < 47 * b + (outputBuffer out b).length / 512 → Passed out sect total j := by
  have hsectors := outputBuffer_sectors hd b
  induction turns generalizing s m with
  | zero => cases hdone
  | succ turns ih =>
    obtain ⟨y, hturn, hdone⟩ := Fate.bind_eq_done.mp hdone
    by_cases hlt : s.i < (outputBuffer out b).length / 512
    · obtain ⟨k, g, rest, hc, hrem, -, hr, hle⟩ := h.next hd hm hlt
      obtain ⟨g', rest', hrem', -, -, hlast, rfl⟩ := (turn_eq_done hlt hc).mp hturn
      obtain rfl : g = g' := (List.cons.inj (hrem.symm.trans hrem')).1
      rw [allocOf_length hd] at hlast
      have hfit := hr.fits hm hle hdone hinside hrest
      have hnext := h.after hd hs htotal hm hr (by omega) hfit
      have hi' := congrArg WriteScan.i (after_eq s (outputBuffer out b) hfit)
      dsimp only at hi'
      obtain ⟨hend, hpassed⟩ := ih hnext (by omega) (by omega) hdone
      refine ⟨hend, fun j hj hjlt => ?_⟩
      by_cases hin : j < m + s.run (allocOf out) (outputBuffer out b) g
      · exact hr.passed hm (by omega) hfit hlast hj hin
      · exact hpassed j (Nat.le_of_not_lt hin) hjlt
    · rw [WriteScan.turn, if_neg hlt] at hturn
      cases hturn
      cases hdone
      obtain rfl : m = 47 * b + (outputBuffer out b).length / 512 := by omega
      exact ⟨h, fun j hj hjlt => absurd hjlt (Nat.not_lt.mpr hj)⟩

theorem buffers_count (hd : Decompressed out) {fuel d k S : Nat} {t : WriteScan}
    (hc : s.cursor = cursorAt S k)
    (h : Fate.loop (writeBuffer total (allocOf out) fuel)
      ((List.range' b d).map (outputBuffer out)) s = .done t) :
    s.log <+: t.log ∧ ∃ S' k', t.cursor = cursorAt S' k' ∧
      min (47 * d) ((marksOf out).length - 47 * b) + (remaining (allocOf out) k').length ≤
        (remaining (allocOf out) k).length := by
  induction d generalizing b s S k with
  | zero =>
    cases h
    exact ⟨List.prefix_rfl, S, k, hc, by omega⟩
  | succ d ih =>
    have hsectors := outputBuffer_sectors hd b
    rw [List.range'_succ, List.map_cons, Fate.loop] at h
    obtain ⟨s₁, hbuffer, h⟩ := Fate.bind_eq_done.mp h
    obtain ⟨hlog, S₁, k₁, hc₁, hcount⟩ := buffer_count (s := { s with i := 0 }) hc hbuffer
    obtain ⟨hlog', S', k', hc', hcount'⟩ := ih hc₁ h
    dsimp only at hcount hlog
    exact ⟨hlog.trans hlog', S', k', hc', by omega⟩

theorem Along.buffers_passed (hd : Decompressed out) (hs : sect < 2 ^ 32)
    (htotal : total < 2 ^ 32) {fuel d : Nat} {t : WriteScan}
    (h : Along out sect total (min (47 * b) (marksOf out).length) s)
    (hall : (marksOf out).length ≤ 47 * (b + d)) (hb : 47 * (b + d) ≤ (marksOf out).length + 46)
    (hdone : Fate.loop (writeBuffer total (allocOf out) fuel)
      ((List.range' b d).map (outputBuffer out)) s = .done t)
    (hinside : ∀ q ∈ t.log, q.sect + q.nb ≤ total) :
    Along out sect total (marksOf out).length t ∧
      ∀ j, min (47 * b) (marksOf out).length ≤ j → j < (marksOf out).length →
        Passed out sect total j := by
  induction d generalizing b s with
  | zero =>
    cases hdone
    rw [Nat.add_zero] at hall
    rw [Nat.min_eq_right hall] at h ⊢
    exact ⟨h, fun j hj hlt => absurd hlt (Nat.not_lt.mpr hj)⟩
  | succ d ih =>
    have hsectors := outputBuffer_sectors hd b
    rw [List.range'_succ, List.map_cons, Fate.loop] at hdone
    obtain ⟨s₁, hbuffer, hdone⟩ := Fate.bind_eq_done.mp hdone
    rw [Nat.min_eq_left (by omega)] at h
    obtain ⟨k, hc, -⟩ := h.cursor
    obtain ⟨-, S₁, k₁, hc₁, -⟩ := buffer_count (s := { s with i := 0 }) hc hbuffer
    obtain ⟨hlog, -⟩ := buffers_count hd hc₁ hdone
    have hinside₁ : ∀ q ∈ s₁.log, q.sect + q.nb ≤ total := fun q hq => hinside q (hlog.subset hq)
    obtain ⟨hend, hpassed⟩ := h.rewind.buffer_passed hd hs htotal
      (b := b) rfl (Nat.zero_le _) hbuffer hinside₁
      fun S k hc => by
        obtain ⟨-, S', k', -, hcount⟩ := buffers_count hd hc hdone
        omega
    rw [show 47 * b + (outputBuffer out b).length / 512 =
      min (47 * (b + 1)) (marksOf out).length by omega] at hend hpassed
    obtain ⟨hlast, hrest⟩ := ih hend (by omega) (by omega) hdone
    refine ⟨hlast, fun j hj hlt => ?_⟩
    by_cases hin : j < min (47 * (b + 1)) (marksOf out).length
    · exact hpassed j (by omega) hin
    · exact hrest j (Nat.le_of_not_lt hin) hlt

/-! ### A whole file -/

theorem along_start (hs : sect < 2 ^ 32) : Along out sect total 0 ⟨0, ⟨sect, 0, 1⟩, []⟩ := by
  refine ⟨Or.inl rfl, ⟨0, ?_, rfl⟩, fun q hq => absurd hq List.not_mem_nil,
    fun hno disk j g hj => absurd hj (Nat.not_lt_zero j), fun disk j g hj hg hlt => rfl⟩
  rw [cursorAt, Nat.add_zero, Nat.mod_eq_of_lt hs]
  rfl

theorem outputBuffers_count (hd : Decompressed out) :
    (marksOf out).length ≤ 47 * ((out.length - 1) / OUTBUFF) ∧
      47 * ((out.length - 1) / OUTBUFF) ≤ (marksOf out).length + 46 := by
  have hlen : out.length = OUTBUFF + 512 * (marksOf out).length := hd
  rw [hlen]
  simp only [OUTBUFF]
  omega

theorem writeOutput_right_iff (hd : Decompressed out) (hs : sect < 2 ^ 32)
    (htotal : total < 2 ^ 32) :
    (∃ fuel s, writeOutput out sect total fuel = .done s ∧ WritesRight out sect total s) ↔
      RunsFit out sect total := by
  obtain ⟨hall, hcount⟩ := outputBuffers_count hd
  have hstart : Along out sect total (min (47 * 0) (marksOf out).length) ⟨0, ⟨sect, 0, 1⟩, []⟩ := by
    rw [Nat.mul_zero, Nat.zero_min]
    exact along_start hs
  constructor
  · rintro ⟨fuel, s, hdone, hright⟩
    rw [writeOutput, outputBuffers, List.range_eq_range'] at hdone
    obtain ⟨hend, hpassed⟩ := hstart.buffers_passed hd hs htotal (by rwa [Nat.zero_add])
      (by rwa [Nat.zero_add])
      hdone hright.inside
    replace hpassed : ∀ j < (marksOf out).length, Passed out sect total j := fun j hj =>
      hpassed j (by omega) hj
    refine ⟨fun hlast => ?_, fun j g r hacross => ?_, fun j g hhigh => ?_⟩
    · obtain ⟨j, hj⟩ := List.getElem?_of_mem hlast
      have hlt := (hpassed j (List.getElem?_eq_some_iff.mp hj).1).2 _ hj
      have hlg : 8 * ALLOCLG = 176128 := rfl
      omega
    · have hstarts := hacross.starts
      have hends := hacross.ends
      have hmark := hacross.marks 0 (by omega)
      exact (hpassed j (List.getElem?_eq_some_iff.mp hmark).1).1 g r hacross
    · -- the sector keeps what was on the disk, whatever that was
      have hkept : ∀ disk, slice disk (512 * (sect + g)) 512 = sectorOf out j := fun disk =>
        (hend.kept disk j g (Or.inr hhigh) hhigh.mark hhigh.starts).symm.trans
          (hright.data disk j g hhigh.mark hhigh.starts)
      have hdiffer := (hkept fun _ => 0).trans (hkept fun _ => 1).symm
      have hfirst := congrArg (fun l => l[0]?) hdiffer
      rw [slice_getElem? (by omega), slice_getElem? (by omega)] at hfirst
      exact absurd (Option.some.inj hfirst) (by decide)
  · intro hf
    obtain ⟨s, hdone, hs⟩ := hstart.buffers_done hd hs htotal hf (Nat.lt_succ_self _)
      ((out.length - 1) / OUTBUFF)
      (by rwa [Nat.zero_add])
    rw [Nat.zero_add, Nat.min_eq_right hall] at hs
    rw [← List.range_eq_range'] at hdone
    exact ⟨_, s, hdone, hs.inside, fun disk j g hg => hs.data hf.low disk j g
      (List.getElem?_eq_some_iff.mp hg).1 hg⟩

end

/-! ### The files of an image -/

theorem FileData.decompressed {calls : List DeflateCall} {p : Part} (h : FileData calls p)
    (hr : p.Shaped) :
    allocOf (streamInput calls) = zeroPad ALLOCLG p.slice ∧ Decompressed (streamInput calls) := by
  have halloc : allocOf (streamInput calls) = zeroPad ALLOCLG p.slice := by
    rw [allocOf, h.input, show OUTBUFF = TOTALLG from rfl, output_header hr, hr.header_bitmap,
      List.take_of_length_le (zeroPad_length hr.slice_le).le]
  have hB : OUTBUFF = 512 * 47 := rfl
  refine ⟨halloc, ?_⟩
  rw [Decompressed, marksOf, halloc, setBits_zeroPad, h.input, output_length hr h.sectors,
    h.secs_count]
  omega

theorem compressVolume_decompressed (io : Nat → Outcome) (options : Option (List Byte))
    {info : List Byte} (hinfo : info ∈ imagerInfos) (params : PARAMS) (dev : Device) {i : Nat}
    {calls : List DeflateCall}
    (h : (compressVolume io options info params dev).files[i]? = some calls) :
    Decompressed (streamInput calls) ∧
      ∃ slice, (slicesOf params.bitmap)[i]? = some slice ∧
        marksOf (streamInput calls) = setBits slice := by
  obtain ⟨parts, hdata, hslices, hlayout, -⟩ := compressVolume_layout io options hinfo params dev
  obtain ⟨hi, hget⟩ := List.getElem?_eq_some_iff.mp h
  have hi' : i < parts.length := hdata.length_eq ▸ hi
  have hpart : parts[i]? = some parts[i] := List.getElem?_eq_getElem hi'
  have hfile : FileData calls parts[i] := hget ▸ (List.forall₂_iff_get.mp hdata).2 i hi hi'
  obtain ⟨halloc, hd⟩ := hfile.decompressed (hlayout i parts[i] hpart).1
  refine ⟨hd, parts[i].slice, ?_, by rw [marksOf, halloc, setBits_zeroPad]⟩
  rw [← hslices, List.getElem?_map, hpart]
  rfl

/-- The loop ends inside `alloc` with the right sectors written, and no others behind the end of
the disk, exactly when the last bit is clear, no run goes over the end of the disk and none begins in front of
it from sector 2^31 on. -/
theorem write_loop_iff (io : Nat → Outcome) (options : Option (List Byte)) {info : List Byte}
    (hinfo : info ∈ imagerInfos) (params : PARAMS) (dev : Device) {calls : List DeflateCall}
    (hcalls : calls ∈ (compressVolume io options info params dev).files) {sect total : Nat} (hsect : sect < 2 ^ 32)
    (htotal : total < 2 ^ 32) :
    (∃ fuel s, writeOutput (streamInput calls) sect total fuel = .done s ∧
      WritesRight (streamInput calls) sect total s) ↔ RunsFit (streamInput calls) sect total := by
  obtain ⟨i, hi⟩ := List.getElem?_of_mem hcalls
  obtain ⟨hd, -⟩ := compressVolume_decompressed io options hinfo params dev hi
  exact writeOutput_right_iff hd hsect htotal

theorem slicesOf_marks (io : Nat → Outcome) (options : Option (List Byte)) {info : List Byte}
    (hinfo : info ∈ imagerInfos) {params : PARAMS} (dev : Device) {slice : List Byte}
    (h : slicesOf params.bitmap = [slice]) :
    ∃ calls ∈ (compressVolume io options info params dev).files,
      Decompressed (streamInput calls) ∧ marksOf (streamInput calls) = setBits slice := by
  obtain ⟨calls, p, hfiles, hfile, hshape, rfl, -⟩ := compressVolume_single io options hinfo dev h
  obtain ⟨halloc, hd⟩ := hfile.decompressed hshape
  exact ⟨calls, by rw [hfiles]; exact List.mem_singleton.mpr rfl, hd,
    by rw [marksOf, halloc, setBits_zeroPad]⟩

/-- On a disk of 1000 sectors. -/
theorem smallImage_written :
    ∃ calls ∈ smallImage.files, ∃ fuel s, writeOutput (streamInput calls) 63 1000 fuel = .done s ∧
      WritesRight (streamInput calls) 63 1000 s := by
  obtain ⟨calls, hmem, -, hmarks⟩ := slicesOf_marks allFull none nil_mem_imagerInfos
    (openDevice (fun _ => 0x55)) gappedSectors_slices
  have hlast : 8 * ALLOCLG - 1 ∉ marksOf (streamInput calls) := by
    rw [hmarks, gappedSectors_setBits]
    decide
  refine ⟨calls, hmem, (write_loop_iff allFull none nil_mem_imagerInfos gappedSectors
    (openDevice (fun _ => 0x55)) hmem (by decide) (by decide)).mpr
    ⟨hlast, fun j g r hacross => ?_, fun j g hhigh => ?_⟩⟩
  · have hlt := List.mem_of_getElem? (hacross.marks 0
      (by have := hacross.starts; have := hacross.ends; omega))
    rw [hmarks] at hlt
    have hbound := setBits_lt hlt
    have hlen : gappedSectors.bitmap.length = 7 := rfl
    have hends := hacross.ends
    have hbuffer := hacross.buffer
    omega
  · have hge := hhigh.high
    have hlt := hhigh.starts
    omega

theorem twoSectors_lt : blockCount [(0x03 : Byte)].length < 2 ^ 31 := by decide

theorem twoSectors_nb : 2 < 2 ^ 64 := by decide

/-- The first two sectors are marked. -/
def twoSectors : PARAMS := ⟨[0x03], 2, twoSectors_nb, twoSectors_lt⟩

theorem lastBitParams_slices : slicesOf lastBitParams.bitmap = [lastBitParams.bitmap] := by
  have hlen : lastBitParams.bitmap.length = ALLOCLG := fullBitmap_length 0x80
  rw [slicesOf, hlen, show blockCount ALLOCLG = 0 + 1 by decide, bitmapSlices,
    List.take_of_length_le hlen.le]
  rfl

/-- A disk that ends between two marked sectors, a bitmap of which the last bit is set, and a partition that
`biosdisk` cannot be given the sectors of. -/
theorem disk_end_and_last_bit :
    (∃ calls ∈ (compressVolume allFull none [] twoSectors (openDevice (fun _ => 0x55))).files,
      ¬ ∃ fuel s, writeOutput (streamInput calls) 63 64 fuel = .done s ∧ WritesRight (streamInput calls) 63 64 s) ∧
    (∃ calls ∈ (compressVolume allFull none [] lastBitParams (openDevice (fun _ => 0x55))).files,
      ¬ ∃ fuel s, writeOutput (streamInput calls) 63 1000000 fuel = .done s ∧
        WritesRight (streamInput calls) 63 1000000 s) ∧
    ∃ calls ∈ (compressVolume allFull none [] twoSectors (openDevice (fun _ => 0x55))).files,
      ¬ ∃ fuel s, writeOutput (streamInput calls) 2147483648 4000000000 fuel = .done s ∧
        WritesRight (streamInput calls) 2147483648 4000000000 s := by
  have htwo := slicesOf_marks allFull none nil_mem_imagerInfos (openDevice (fun _ => 0x55))
    (by decide : slicesOf twoSectors.bitmap = [[0x03]])
  rw [show setBits [0x03] = [0, 1] by decide] at htwo
  obtain ⟨calls, hmem, hd, hmarks⟩ := htwo
  refine ⟨⟨calls, hmem, fun hright => ?_⟩, ?_, calls, hmem, fun hright => ?_⟩
  · have hf := (writeOutput_right_iff hd (by decide) (by decide)).mp hright
    refine hf.across 0 0 2 ⟨Or.inl rfl, by decide, fun o ho => ?_, by decide, by decide⟩
    rw [hmarks]
    interval_cases o <;> rfl
  · obtain ⟨calls, hmem, hd, hmarks⟩ := slicesOf_marks allFull none nil_mem_imagerInfos
      (openDevice (fun _ => 0x55)) lastBitParams_slices
    refine ⟨calls, hmem, fun hright => ?_⟩
    have hf := (writeOutput_right_iff hd (by decide) (by decide)).mp hright
    refine hf.last ?_
    rw [hmarks, lastBitParams_setBits]
    exact List.mem_singleton.mpr rfl
  · have hf := (writeOutput_right_iff hd (by decide) (by decide)).mp hright
    exact hf.low 0 0 ⟨Or.inl rfl, by rw [hmarks]; rfl, by decide, by decide⟩

end PulseImaging
