import PulseImaging.ImageStream

/-! `flushToDisk` of the Linux restore: each sector of a decompressed buffer goes
to the next set bit of the bitmap, the device being moved by relative seeks. -/

namespace PulseImaging

/-- `PARAMS` of `autorestore.c` with the device behind its descriptor; `maxindex`
records the largest value the bit index has had after a write. -/
structure CurrentParams where
  bitindex : Nat
  offset : Nat
  dev : Device
  maxindex : Nat

/-- The inner loop: the first set bit from `indx` on, `none` if the scan leaves
the bitmap. -/
def nextSet (bit : List Byte) : Nat → Nat → Option Nat
  | 0, _ => none
  | fuel + 1, indx =>
    (testBit bit indx).bind (fun b => if b then some indx else nextSet bit fuel (indx + 1))

/-- `n` turns of the outer loop; write errors are reported and ignored. -/
def flushLoop (io : Nat → Outcome) (buff bit : List Byte) : Nat → Nat → CurrentParams → Option CurrentParams
  | 0, _, cp => some cp
  | n + 1, ptr, cp =>
    (nextSet bit (8 * bit.length + 1) cp.bitindex).bind (fun indx =>
      let s := 512 * (indx - cp.bitindex)
      let dev := (seekSkip io cp.dev s).exec io (.write ((buff.drop ptr).take 512))
      flushLoop io buff bit n (ptr + 512) ⟨indx + 1, cp.offset + s + 512, dev, max cp.maxindex (indx + 1)⟩)

def flushToDisk (io : Nat → Outcome) (buff bit : List Byte) (cp : CurrentParams) (lg : Nat) :
    Option CurrentParams :=
  flushLoop io buff bit ((lg + 511) / 512) 0 cp

/-- Set bits that are still to come at index `i`. -/
def remaining (bit : List Byte) (i : Nat) : List Nat := indexes i ((bits bit).drop i)

theorem remaining_zero (bit : List Byte) : remaining bit 0 = setBits bit := rfl

theorem remaining_step {bit : List Byte} {i : Nat} {b : Bool} (h : (bits bit)[i]? = some b) :
    remaining bit i = if b then i :: remaining bit (i + 1) else remaining bit (i + 1) := by
  obtain ⟨hlt, he⟩ := List.getElem?_eq_some_iff.mp h
  rw [remaining, List.drop_eq_getElem_cons hlt, he, indexes]
  rfl

theorem remaining_end {bit : List Byte} {i : Nat} (h : (bits bit)[i]? = none) :
    remaining bit i = [] := by
  rw [remaining, List.drop_of_length_le (List.getElem?_eq_none_iff.mp h)]
  rfl

theorem nextSet_eq_head {bit : List Byte} {fuel i : Nat} (hf : 8 * bit.length < fuel + i) :
    nextSet bit fuel i = (remaining bit i).head? := by
  induction fuel generalizing i with
  | zero =>
    have hnone : (bits bit)[i]? = none := List.getElem?_eq_none_iff.mpr (by rw [bits_length]; omega)
    rw [remaining_end hnone]
    rfl
  | succ fuel ih =>
    rw [nextSet, testBit_eq]
    cases hb : (bits bit)[i]? with
    | none => rw [remaining_end hb]; rfl
    | some b =>
      rw [remaining_step hb]
      cases b with
      | false => simpa using ih (by omega)
      | true => simp

theorem remaining_tail {bit : List Byte} {i g : Nat} {rest : List Nat}
    (h : remaining bit i = g :: rest) :
    i ≤ g ∧ g < 8 * bit.length ∧ remaining bit (g + 1) = rest := by
  by_cases hi : i < 8 * bit.length
  · obtain ⟨n, hn⟩ : ∃ n, 8 * bit.length - i = n := ⟨_, rfl⟩
    induction n generalizing i with
    | zero => omega
    | succ n ih =>
      obtain ⟨b, hb⟩ : ∃ b, (bits bit)[i]? = some b :=
        ⟨_, List.getElem?_eq_getElem (show i < (bits bit).length by rwa [bits_length])⟩
      rw [remaining_step hb] at h
      cases b with
      | true =>
        rw [if_pos rfl, List.cons.injEq] at h
        rw [← h.1]
        exact ⟨Nat.le_refl _, hi, h.2⟩
      | false =>
        rw [if_neg (by simp)] at h
        by_cases hi' : i + 1 < 8 * bit.length
        · obtain ⟨h1, h2, h3⟩ := ih h hi' (by omega)
          exact ⟨by omega, h2, h3⟩
        · rw [remaining_end (List.getElem?_eq_none_iff.mpr (by rw [bits_length]; omega))] at h
          simp at h
  · rw [remaining_end (List.getElem?_eq_none_iff.mpr (by rw [bits_length]; omega))] at h
    simp at h

/-- The largest index behind a visited bit. -/
def highest (m : Nat) (items : List (Nat × List Byte)) : Nat :=
  items.foldl (fun m x => max m (x.1 + 1)) m

theorem highest_lt_iff {m n : Nat} {items : List (Nat × List Byte)} :
    highest m items < n ↔ m < n ∧ ∀ x ∈ items, x.1 + 1 < n := by
  induction items generalizing m with
  | nil => simp [highest]
  | cons x items ih =>
    rw [show highest m (x :: items) = highest (max m (x.1 + 1)) items from rfl, ih,
      List.forall_mem_cons, Nat.max_lt, and_assoc]

/-- The state after the given sectors have been sent to the given bits. -/
def CurrentParams.after (io : Nat → Outcome) (cp : CurrentParams) (items : List (Nat × List Byte)) :
    CurrentParams where
  bitindex := visitEnd cp.bitindex (writes items)
  offset := cp.offset + 512 * (visitEnd cp.bitindex (writes items) - cp.bitindex)
  dev := cp.dev.run io (visit cp.bitindex (writes items))
  maxindex := highest cp.maxindex items

theorem ascends_of_remaining {bit : List Byte} {i : Nat} {gs rest : List Nat}
    (h : remaining bit i = gs ++ rest) : Ascends i gs := by
  induction gs generalizing i with
  | nil => trivial
  | cons g gs ih =>
    obtain ⟨hle, _, htail⟩ := remaining_tail h
    exact ⟨hle, ih htail⟩

/-- With enough set bits left, sector after sector goes to the next set bit. -/
theorem flushLoop_spec (io : Nat → Outcome) {buff bit junk : List Byte} {secs : List (List Byte)}
    {gs rest : List Nat} {ptr : Nat} {cp : CurrentParams}
    (hrem : remaining bit cp.bitindex = gs ++ rest) (hcount : secs.length = gs.length)
    (hlen : ∀ s ∈ secs, s.length = 512) (hbuf : buff.drop ptr = secs.flatten ++ junk) :
    flushLoop io buff bit secs.length ptr cp = some (cp.after io (gs.zip secs)) ∧
      remaining bit (cp.after io (gs.zip secs)).bitindex = rest := by
  induction secs generalizing gs ptr cp with
  | nil =>
    have hgs : gs = [] := List.length_eq_zero_iff.mp hcount.symm
    subst hgs
    exact ⟨by simp [flushLoop, CurrentParams.after, highest, writes, visit, visitEnd], hrem⟩
  | cons sec secs ih =>
    cases gs with
    | nil => simp at hcount
    | cons g gs =>
      obtain ⟨hle, hlt, htail⟩ := remaining_tail hrem
      have hs := hlen sec (by simp)
      have hsec : (buff.drop ptr).take 512 = sec := by
        rw [hbuf, List.flatten_cons, List.append_assoc, List.take_left' hs]
      have hdrop : buff.drop (ptr + 512) = secs.flatten ++ junk := by
        rw [← List.drop_drop, hbuf, List.flatten_cons, List.append_assoc, List.drop_left' hs]
      have hnext : nextSet bit (8 * bit.length + 1) cp.bitindex = some g := by
        rw [nextSet_eq_head (by omega), hrem]
        rfl
      let cp' : CurrentParams := ⟨g + 1, cp.offset + 512 * (g - cp.bitindex) + 512,
        (cp.dev.run io (gap cp.bitindex g)).exec io (.write sec), max cp.maxindex (g + 1)⟩
      obtain ⟨hflush, hrest⟩ := ih (show remaining bit cp'.bitindex = gs ++ rest from htail)
        (by simpa using hcount) (fun s h => hlen s (by simp [h])) hdrop
      have hafter : cp'.after io (gs.zip secs) = cp.after io ((g :: gs).zip (sec :: secs)) := by
        have hasc : Ascends (g + 1) ((writes (gs.zip secs)).map Prod.fst) := by
          rw [writes_fst, List.map_fst_zip (by simpa using hcount.ge)]
          exact ascends_of_remaining htail
        have hge := le_visitEnd hasc
        simp only [CurrentParams.after, cp', List.zip_cons_cons, CurrentParams.mk.injEq]
        refine ⟨rfl, ?_, ?_, rfl⟩
        · simp only [writes, List.map_cons, visitEnd] at hge ⊢
          omega
        · rw [show visit cp.bitindex (writes ((g, sec) :: gs.zip secs)) = gap cp.bitindex g ++
            .write sec :: visit (g + 1) (writes (gs.zip secs)) from rfl, run_append, run_cons]
      rw [← hafter]
      refine ⟨?_, hrest⟩
      rw [List.length_cons, flushLoop, hnext]
      simp only [Option.bind_some, hsec, seekSkip_eq_gap io cp.dev hle]
      exact hflush

end PulseImaging
