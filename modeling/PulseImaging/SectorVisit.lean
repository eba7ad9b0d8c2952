import PulseImaging.SeekDevice

/-! Visiting 512-byte sectors in increasing order with relative seeks only: one
transfer for each visited sector, a seek over each gap. -/

namespace PulseImaging

/-- The seek over the sectors from `cur` up to `g`, if there are any. -/
def gap (cur g : Nat) : List Req := if g = cur then [] else [.skip (512 * (g - cur))]

/-- Requests that serve `(g, r)` pairs in turn, `r` at sector `g`. -/
def visit (cur : Nat) : List (Nat × Req) → List Req
  | [] => []
  | (g, r) :: items => gap cur g ++ r :: visit (g + 1) items

def visitEnd (cur : Nat) : List (Nat × Req) → Nat
  | [] => cur
  | (g, _) :: items => visitEnd (g + 1) items

/-- Sector numbers that increase strictly from `cur` on. -/
def Ascends (cur : Nat) : List Nat → Prop
  | [] => True
  | g :: gs => cur ≤ g ∧ Ascends (g + 1) gs

def Req.transfer : Req → Bool
  | .read n => n == 512
  | .write data => data.length == 512
  | _ => false

theorem transfer_advance {r : Req} (h : r.transfer = true) : r.advance = 512 ∧ r.relative = true := by
  cases r <;> simp_all [Req.transfer, Req.advance, Req.relative]

theorem ascends_indexes (base : Nat) (bs : List Bool) : Ascends base (indexes base bs) := by
  suffices h : ∀ cur, cur ≤ base → Ascends cur (indexes base bs) from h base (Nat.le_refl _)
  induction bs generalizing base with
  | nil => intro cur _; trivial
  | cons b bs ih =>
    intro cur hcur
    cases b with
    | false => exact ih (base + 1) cur (by omega)
    | true => exact ⟨hcur, ih (base + 1) (base + 1) (Nat.le_refl _)⟩

theorem Ascends.mem_le {cur g : Nat} {gs : List Nat} (h : Ascends cur gs) (hg : g ∈ gs) :
    cur ≤ g := by
  induction gs generalizing cur with
  | nil => simp at hg
  | cons a gs ih =>
    rcases List.mem_cons.mp hg with rfl | hg
    · exact h.1
    · have := ih h.2 hg
      have := h.1
      omega

theorem Ascends.shift {cur : Nat} {gs : List Nat} (h : Ascends cur gs) (k : Nat) :
    Ascends (k + cur) (gs.map (k + ·)) := by
  induction gs generalizing cur with
  | nil => trivial
  | cons g gs ih => exact ⟨Nat.add_le_add_left h.1 k, ih h.2⟩

theorem Ascends.take {cur : Nat} {gs : List Nat} (h : Ascends cur gs) (n : Nat) :
    Ascends cur (gs.take n) := by
  induction gs generalizing cur n with
  | nil => simpa using h
  | cons a gs ih =>
    cases n with
    | zero => trivial
    | succ n => exact ⟨h.1, ih h.2 n⟩

theorem visit_append (cur : Nat) (a b : List (Nat × Req)) :
    visit cur (a ++ b) = visit cur a ++ visit (visitEnd cur a) b := by
  induction a generalizing cur with
  | nil => rfl
  | cons x a ih => simp [visit, visitEnd, ih]

theorem visitEnd_append (cur : Nat) (a b : List (Nat × Req)) :
    visitEnd cur (a ++ b) = visitEnd (visitEnd cur a) b := by
  induction a generalizing cur with
  | nil => rfl
  | cons x a ih => simp [visitEnd, ih]

theorem visitEnd_le {cur n : Nat} {items : List (Nat × Req)} (hn : cur ≤ n)
    (h : ∀ x ∈ items, x.1 < n) : visitEnd cur items ≤ n := by
  induction items generalizing cur with
  | nil => exact hn
  | cons x items ih =>
    exact ih (h x (by simp)) (fun y hy => h y (by simp [hy]))

theorem le_visitEnd {cur : Nat} {items : List (Nat × Req)} (ha : Ascends cur (items.map Prod.fst)) :
    cur ≤ visitEnd cur items := by
  induction items generalizing cur with
  | nil => exact Nat.le_refl _
  | cons x items ih =>
    have h := ih ha.2
    have := ha.1
    simp only [visitEnd]
    omega

theorem gap_relative (cur g : Nat) : ∀ r ∈ gap cur g, r.relative = true := by
  intro r hr
  simp only [gap] at hr
  split at hr
  · simp at hr
  · rw [List.mem_singleton.mp hr]; rfl

theorem gap_advance_pos {cur g : Nat} (hle : cur ≤ g) : ∀ r ∈ gap cur g, 0 < r.advance := by
  intro r hr
  simp only [gap] at hr
  split at hr
  · simp at hr
  · rw [List.mem_singleton.mp hr]
    simp only [Req.advance]
    omega

theorem gap_not_transfer (cur g : Nat) : ∀ r ∈ gap cur g, r.transfer = false := by
  intro r hr
  simp only [gap] at hr
  split at hr
  · simp at hr
  · rw [List.mem_singleton.mp hr]; rfl

theorem advances_gap {cur g : Nat} (hle : cur ≤ g) : 512 * cur + advances (gap cur g) = 512 * g := by
  simp only [gap]
  split
  · simp_all
  · simp only [advances_cons, advances_nil, Req.advance]
    omega

theorem visit_relative {cur : Nat} {items : List (Nat × Req)}
    (ht : ∀ x ∈ items, x.2.transfer = true) : ∀ r ∈ visit cur items, r.relative = true := by
  induction items generalizing cur with
  | nil => simp [visit]
  | cons x items ih =>
    intro r hr
    simp only [visit, List.mem_append, List.mem_cons] at hr
    rcases hr with hr | rfl | hr
    · exact gap_relative _ _ r hr
    · exact (transfer_advance (ht x (by simp))).2
    · exact ih (fun y hy => ht y (by simp [hy])) r hr

theorem visit_advance_pos {cur : Nat} {items : List (Nat × Req)}
    (ha : Ascends cur (items.map Prod.fst)) (ht : ∀ x ∈ items, x.2.transfer = true) :
    ∀ r ∈ visit cur items, 0 < r.advance := by
  induction items generalizing cur with
  | nil => simp [visit]
  | cons x items ih =>
    intro r hr
    simp only [visit, List.mem_append, List.mem_cons] at hr
    rcases hr with hr | rfl | hr
    · exact gap_advance_pos ha.1 r hr
    · rw [(transfer_advance (ht x (by simp))).1]
      omega
    · exact ih ha.2 (fun y hy => ht y (by simp [hy])) r hr

theorem advances_visit {cur : Nat} {items : List (Nat × Req)}
    (ha : Ascends cur (items.map Prod.fst)) (ht : ∀ x ∈ items, x.2.transfer = true) :
    512 * cur + advances (visit cur items) = 512 * visitEnd cur items := by
  induction items generalizing cur with
  | nil => simp [visit, visitEnd]
  | cons x items ih =>
    have h := ih ha.2 (fun y hy => ht y (by simp [hy]))
    have hg := advances_gap ha.1
    have hx := (transfer_advance (ht x (by simp))).1
    simp only [visit, visitEnd, advances_append, advances_cons, hx]
    omega

/-! ### Effect on the contents when every call completes -/

/-- Sector data stored at `base + g` for each pair. -/
def puts (base : Nat) (c : Content) (items : List (Nat × List Byte)) : Content :=
  items.foldl (fun c x => patch c (512 * (base + x.1)) x.2) c

def writes (items : List (Nat × List Byte)) : List (Nat × Req) :=
  items.map (fun x => (x.1, Req.write x.2))

theorem puts_append (base : Nat) (c : Content) (a b : List (Nat × List Byte)) :
    puts base c (a ++ b) = puts base (puts base c a) b := by
  simp [puts]

theorem writes_append (a b : List (Nat × List Byte)) : writes (a ++ b) = writes a ++ writes b := by
  simp [writes]

theorem writes_fst (items : List (Nat × List Byte)) :
    (writes items).map Prod.fst = items.map Prod.fst := by
  simp [writes, Function.comp_def]

theorem run_gap (d : Device) {cur g base : Nat} (hle : cur ≤ g) (hpos : d.pos = 512 * (base + cur)) :
    (d.run allFull (gap cur g)).content = d.content ∧
      (d.run allFull (gap cur g)).pos = 512 * (base + g) := by
  by_cases h : g = cur
  · simp [gap, h, hpos]
  · simp only [gap, h, if_false, run_cons, run_nil, exec_skip_content, exec_allFull_pos, Req.target,
      hpos, true_and]
    omega

theorem run_visit_writes {cur base : Nat} {items : List (Nat × List Byte)} (d : Device)
    (ha : Ascends cur (items.map Prod.fst)) (hlen : ∀ x ∈ items, x.2.length = 512)
    (hpos : d.pos = 512 * (base + cur)) :
    (d.run allFull (visit cur (writes items))).content = puts base d.content items ∧
      (d.run allFull (visit cur (writes items))).pos =
        512 * (base + visitEnd cur (writes items)) := by
  induction items generalizing cur d with
  | nil => exact ⟨rfl, hpos⟩
  | cons x items ih =>
    obtain ⟨hc, hp⟩ := run_gap d ha.1 hpos
    have hx := hlen x (by simp)
    have h := ih ((d.run allFull (gap cur x.1)).exec allFull (.write x.2)) ha.2
      (fun y hy => hlen y (by simp [hy]))
      (by rw [exec_allFull_pos, hp, Req.target, hx]; omega)
    rw [exec_allFull_write, hc, hp] at h
    rw [show visit cur (writes (x :: items)) =
        gap cur x.1 ++ .write x.2 :: visit (x.1 + 1) (writes items) from rfl, run_append, run_cons]
    exact h

theorem patch_sector (c : Content) (b j : Nat) {data : List Byte} (h : data.length = 512) :
    slice (patch c (512 * b) data) (512 * j) 512 = if j = b then data else slice c (512 * j) 512 := by
  apply List.ext_getElem?
  intro k
  by_cases hk : k < 512
  · rw [slice_getElem? hk]
    by_cases hj : j = b
    · subst hj
      rw [if_pos rfl, patch, if_pos (by omega), Nat.add_sub_cancel_left,
        List.getD_eq_getElem?_getD, List.getElem?_eq_getElem (by omega), Option.getD_some]
    · rw [if_neg hj, slice_getElem? hk, patch, if_neg (by omega)]
  · rw [List.getElem?_eq_none_iff.mpr (by simp; omega), List.getElem?_eq_none_iff.mpr]
    split
    · omega
    · simp
      omega

theorem puts_sector_of_not_mem {base j : Nat} {items : List (Nat × List Byte)} (c : Content)
    (hlen : ∀ x ∈ items, x.2.length = 512) (hj : ∀ x ∈ items, j ≠ base + x.1) :
    slice (puts base c items) (512 * j) 512 = slice c (512 * j) 512 := by
  induction items generalizing c with
  | nil => rfl
  | cons x items ih =>
    have h := ih (patch c (512 * (base + x.1)) x.2) (fun y hy => hlen y (by simp [hy]))
      (fun y hy => hj y (by simp [hy]))
    rw [patch_sector _ _ _ (hlen x (by simp)), if_neg (hj x (by simp))] at h
    exact h

theorem puts_sector_of_mem {base : Nat} {items : List (Nat × List Byte)} (c : Content)
    (hlen : ∀ x ∈ items, x.2.length = 512) (hnd : (items.map Prod.fst).Nodup) {x : Nat × List Byte}
    (hx : x ∈ items) : slice (puts base c items) (512 * (base + x.1)) 512 = x.2 := by
  induction items generalizing c with
  | nil => simp at hx
  | cons y items ih =>
    have hlen' : ∀ z ∈ items, z.2.length = 512 := fun z hz => hlen z (by simp [hz])
    rw [List.map_cons, List.nodup_cons] at hnd
    rcases List.mem_cons.mp hx with rfl | hx
    · have hout : ∀ z ∈ items, base + x.1 ≠ base + z.1 := by
        intro z hz he
        exact hnd.1 (List.mem_map.mpr ⟨z, hz, by omega⟩)
      have h := puts_sector_of_not_mem (patch c (512 * (base + x.1)) x.2) hlen' hout
      rw [patch_sector _ _ _ (hlen x (by simp)), if_pos rfl] at h
      exact h
    · exact ih _ hlen' hnd.2 hx

/-! ### Positions of the transfers under arbitrary outcomes -/

def trace (io : Nat → Outcome) (d : Device) : List Req → List Call
  | [] => []
  | r :: rs => ⟨r, d.pos, d.next io⟩ :: trace io (d.exec io r) rs

/-- The position each transfer is meant for when the requests start at `p`. -/
def transferPositions (p : Nat) : List Req → List Nat
  | [] => []
  | r :: rs => (if r.transfer then [p] else []) ++ transferPositions (p + r.advance) rs

def Call.transfer (c : Call) : Bool := c.req.transfer

theorem run_log (io : Nat → Outcome) (d : Device) (rs : List Req) :
    (d.run io rs).log = d.log ++ trace io d rs := by
  induction rs generalizing d with
  | nil => simp [trace]
  | cons r rs ih => rw [run_cons, ih, exec_log, List.append_assoc]; rfl

theorem trace_outcome {o : Outcome} {d : Device} {rs : List Req} {c : Call}
    (h : c ∈ trace (fun _ => o) d rs) : c.outcome = o := by
  induction rs generalizing d with
  | nil => simp [trace] at h
  | cons r rs ih =>
    rcases List.mem_cons.mp h with rfl | h
    · rfl
    · exact ih h

theorem trace_append (io : Nat → Outcome) (d : Device) (a b : List Req) :
    trace io d (a ++ b) = trace io d a ++ trace io (d.run io a) b := by
  induction a generalizing d with
  | nil => rfl
  | cons r a ih => simp [trace, ih]

theorem transferPositions_append (p : Nat) (a b : List Req) :
    transferPositions p (a ++ b) = transferPositions p a ++ transferPositions (p + advances a) b := by
  induction a generalizing p with
  | nil => simp [transferPositions]
  | cons r a ih => simp [transferPositions, ih, Nat.add_assoc]

theorem transferPositions_gap (p cur g : Nat) : transferPositions p (gap cur g) = [] := by
  simp only [gap]
  split
  · rfl
  · simp [transferPositions, Req.transfer]

theorem transferPositions_visit {cur p : Nat} {items : List (Nat × Req)}
    (ha : Ascends cur (items.map Prod.fst)) (ht : ∀ x ∈ items, x.2.transfer = true) :
    transferPositions (p + 512 * cur) (visit cur items) = items.map (fun x => p + 512 * x.1) := by
  induction items generalizing cur with
  | nil => rfl
  | cons x items ih =>
    have hx := transfer_advance (ht x (by simp))
    have hg := advances_gap ha.1
    have h := ih ha.2 (fun y hy => ht y (by simp [hy]))
    rw [visit, transferPositions_append, transferPositions_gap, List.nil_append, transferPositions,
      hx.1, ht x (by simp), Nat.add_assoc p, hg, if_pos rfl, List.map_cons, List.singleton_append,
      show p + 512 * x.1 + 512 = p + 512 * (x.1 + 1) by omega, h]

theorem exec_aligned_iff {io : Nat → Outcome} {d : Device} {p : Nat} {r : Req}
    (hr : r.relative = true) (hle : d.pos ≤ p) :
    (d.exec io r).pos = p + r.advance ↔
      d.pos = p ∧ (0 < r.advance → d.next io = .full) := by
  have hreach : (d.exec io r).pos ≤ d.pos + r.advance := reached_le hr d.pos _
  constructor
  · intro h
    refine ⟨by omega, fun ha => ?_⟩
    by_contra ho
    have hlt : (d.exec io r).pos < d.pos + r.advance := reached_lt hr ha ho d.pos
    omega
  · rintro ⟨rfl, ho⟩
    rcases Nat.eq_zero_or_pos r.advance with hz | ha
    · cases r with
      | seekTo q => simp [Req.relative] at hr
      | tell => rfl
      | skip n => simp_all [Device.exec, Req.reached, Req.advance]
      | read n => simp_all [Device.exec, Req.reached, Req.advance]
      | write data => simp_all [Device.exec, Req.reached, Req.advance]
    · change r.reached d.pos (d.next io) = _
      rw [ho ha, reached_full hr]

/-- Every transfer that `q` selects by its outcome happens where it is meant to
happen if and only if no call that had to move the device was incomplete before
such a transfer: a lag is never made good. -/
theorem transfers_aligned_iff (io : Nat → Outcome) (q : Outcome → Prop) {rs : List Req} {d : Device}
    {p : Nat} (hrel : ∀ r ∈ rs, r.relative = true) (hle : d.pos ≤ p) :
    List.Forall₂ (fun c t => q c.outcome → c.pos = t) ((trace io d rs).filter Call.transfer)
        (transferPositions p rs) ↔
      ∀ j r, rs[j]? = some r → r.transfer = true → q (io (d.log.length + j)) →
        d.pos = p ∧ ∀ i r', i < j → rs[i]? = some r' → 0 < r'.advance →
          io (d.log.length + i) = .full := by
  induction rs generalizing d p with
  | nil => simp [trace, transferPositions]
  | cons r rs ih =>
    have hr := hrel r (by simp)
    have hlen : (d.exec io r).log.length = d.log.length + 1 := by simp [exec_log]
    have hle' : (d.exec io r).pos ≤ p + r.advance := by
      have : (d.exec io r).pos ≤ d.pos + r.advance := reached_le hr d.pos _
      omega
    have hstep := @exec_aligned_iff io d p r hr hle
    have htail := ih (d := d.exec io r) (p := p + r.advance) (fun x hx => hrel x (by simp [hx])) hle'
    have hshift (k : Nat) : d.log.length + 1 + k = d.log.length + (k + 1) := by omega
    have hrest : List.Forall₂ (fun c t => q c.outcome → c.pos = t)
        ((trace io (d.exec io r) rs).filter Call.transfer) (transferPositions (p + r.advance) rs) ↔
        ∀ j x, rs[j]? = some x → x.transfer = true → q (io (d.log.length + (j + 1))) →
          d.pos = p ∧ ∀ i r', i < j + 1 → (r :: rs)[i]? = some r' → 0 < r'.advance →
            io (d.log.length + i) = .full := by
      rw [htail]
      simp only [hlen, hshift, hstep]
      constructor
      · intro h j x hx ht hq
        obtain ⟨⟨hp, h0⟩, hall⟩ := h j x hx ht hq
        refine ⟨hp, fun i r' hi hr' ha => ?_⟩
        cases i with
        | zero =>
          simp only [List.getElem?_cons_zero, Option.some.injEq] at hr'
          subst hr'
          exact h0 ha
        | succ i =>
          rw [List.getElem?_cons_succ] at hr'
          exact hall i r' (by omega) hr' ha
      · intro h j x hx ht hq
        obtain ⟨hp, hall⟩ := h j x hx ht hq
        exact ⟨⟨hp, fun ha => hall 0 r (by omega) rfl ha⟩,
          fun i r' hi hr' ha => hall (i + 1) r' (by omega) (by rwa [List.getElem?_cons_succ]) ha⟩
    cases ht : r.transfer with
    | false =>
      have hf : (trace io d (r :: rs)).filter Call.transfer =
          (trace io (d.exec io r) rs).filter Call.transfer := by
        simp [trace, Call.transfer, ht]
      rw [hf, transferPositions, ht, if_neg (by simp), List.nil_append, hrest]
      constructor
      · intro h j x hx hxt hq
        cases j with
        | zero =>
          simp only [List.getElem?_cons_zero, Option.some.injEq] at hx
          rw [← hx, ht] at hxt
          exact Bool.noConfusion hxt
        | succ j => exact h j x (by rwa [List.getElem?_cons_succ] at hx) hxt hq
      · intro h j x hx hxt hq
        exact h (j + 1) x (by rwa [List.getElem?_cons_succ]) hxt hq
    | true =>
      have hf : (trace io d (r :: rs)).filter Call.transfer =
          ⟨r, d.pos, d.next io⟩ :: (trace io (d.exec io r) rs).filter Call.transfer := by
        simp [trace, Call.transfer, ht]
      rw [hf, transferPositions, ht, if_pos rfl, List.singleton_append, List.forall₂_cons, hrest]
      constructor
      · rintro ⟨h0, h⟩ j x hx hxt hq
        cases j with
        | zero => exact ⟨h0 hq, fun i r' hi => absurd hi (by omega)⟩
        | succ j => exact h j x (by rwa [List.getElem?_cons_succ] at hx) hxt hq
      · intro h
        exact ⟨fun hq => (h 0 r rfl ht hq).1,
          fun j x hx hxt hq => h (j + 1) x (by rwa [List.getElem?_cons_succ]) hxt hq⟩

end PulseImaging
