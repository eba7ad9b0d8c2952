import Mathlib.Data.List.Basic
import Mathlib.Data.List.Nodup
import Mathlib.Data.List.FinRange
import Mathlib.Data.Fintype.Card

/-! A queue of byte runs in a fixed number of slots, linked by their `next` fields.
A slot without data is available, even while it is still linked. -/

namespace PulseImaging

structure Slot (n : Nat) (α : Type) where
  data : List α
  next : Option (Fin n)
  deriving DecidableEq

structure LinkedQueue (n : Nat) (α : Type) where
  slot : Fin n → Slot n α
  first : Option (Fin n)
  last : Option (Fin n)

namespace LinkedQueue

variable {n : Nat} {α : Type}

def empty (n : Nat) (α : Type) : LinkedQueue n α := ⟨fun _ => ⟨[], none⟩, none, none⟩

def getEmpty (q : LinkedQueue n α) : Option (Fin n) :=
  (List.finRange n).find? (fun j => (q.slot j).data.isEmpty)

/-- Length of all data from slot `i` on; `none` if the links do not come to an end. -/
def totalFrom (q : LinkedQueue n α) : Nat → Fin n → Option Nat
  | 0, _ => none
  | fuel + 1, i =>
    match (q.slot i).next with
    | some j => (totalFrom q fuel j).map ((q.slot i).data.length + ·)
    | none => some (q.slot i).data.length

def setSlot (q : LinkedQueue n α) (i : Fin n) (s : Slot n α) : LinkedQueue n α :=
  { q with slot := fun j => if j = i then s else q.slot j }

def push (q : LinkedQueue n α) (i : Fin n) (d : List α) : LinkedQueue n α :=
  let q := match q.last with
    | some j => q.setSlot j { q.slot j with next := some i }
    | none => { q with first := some i }
  { q.setSlot i { q.slot i with data := d } with last := some i }

def pop (q : LinkedQueue n α) (f : Fin n) : LinkedQueue n α where
  slot := fun j => if j = f then ⟨[], none⟩ else q.slot j
  first := (q.slot f).next
  last := if q.last = some f then none else q.last

/-- Takes `m` items off the front: whole slots, then a part of one, whose rest is moved
to its beginning. `none` if the queue runs out. -/
def drain : Nat → LinkedQueue n α → Nat → List α → Option (LinkedQueue n α × List α)
  | 0, q, m, acc => if m = 0 then some (q, acc) else none
  | fuel + 1, q, m, acc =>
    if m = 0 then some (q, acc)
    else
      match q.first with
      | none => none
      | some f =>
        if (q.slot f).data.length ≤ m then
          drain fuel (q.pop f) (m - (q.slot f).data.length) (acc ++ (q.slot f).data)
        else
          some (q.setSlot f { q.slot f with data := (q.slot f).data.drop m }, acc ++ (q.slot f).data.take m)

/-! ### The slots in the order of their links -/

def Linked (slot : Fin n → Slot n α) : List (Fin n) → Prop
  | [] => True
  | i :: l => (slot i).next = l.head? ∧ Linked slot l

/-- The queue consists of the slots `ids`; all others are free. -/
structure Holds (q : LinkedQueue n α) (ids : List (Fin n)) : Prop where
  nodup : ids.Nodup
  linked : Linked q.slot ids
  first_eq : q.first = ids.head?
  last_eq : q.last = ids.getLast?
  free : ∀ j, j ∉ ids → q.slot j = ⟨[], none⟩

def content (q : LinkedQueue n α) (ids : List (Fin n)) : List α := ids.flatMap (fun i => (q.slot i).data)

theorem empty_holds : (empty n α).Holds [] :=
  ⟨List.nodup_nil, trivial, rfl, rfl, fun _ _ => rfl⟩

theorem linked_congr {s t : Fin n → Slot n α} {l : List (Fin n)}
    (h : ∀ i ∈ l, (s i).next = (t i).next) :
    Linked s l ↔ Linked t l := by
  induction l with
  | nil => rfl
  | cons i l ih =>
    rw [Linked, Linked, h i (by simp), ih (fun j hj => h j (by simp [hj]))]

theorem content_congr {q r : LinkedQueue n α} {l : List (Fin n)}
    (h : ∀ i ∈ l, (q.slot i).data = (r.slot i).data) : q.content l = r.content l := by
  rw [content, content, List.flatMap_def, List.flatMap_def, List.map_congr_left h]

theorem totalFrom_eq (q : LinkedQueue n α) {fuel : Nat} {i : Fin n} {l : List (Fin n)}
    (hl : Linked q.slot (i :: l)) (hf : l.length < fuel) :
    q.totalFrom fuel i = some (q.content (i :: l)).length := by
  induction fuel generalizing i l with
  | zero => omega
  | succ fuel ih =>
    cases l with
    | nil =>
      have hn : (q.slot i).next = none := hl.1
      simp [totalFrom, hn, content]
    | cons j l =>
      have hn : (q.slot i).next = some j := hl.1
      simp only [totalFrom, hn]
      rw [ih hl.2 (by simpa using hf)]
      simp [content]

theorem Holds.length_le {q : LinkedQueue n α} {ids : List (Fin n)} (h : q.Holds ids) :
    ids.length ≤ n := by
  have := h.nodup.length_le_card
  rwa [Fintype.card_fin] at this

theorem Holds.total {q : LinkedQueue n α} {ids : List (Fin n)} (h : q.Holds ids) {f : Fin n}
    (hf : q.first = some f) : q.totalFrom n f = some (q.content ids).length := by
  have hle := h.length_le
  cases ids with
  | nil =>
    rw [h.first_eq] at hf
    simp at hf
  | cons i l =>
    rw [h.first_eq, List.head?_cons, Option.some.injEq] at hf
    subst hf
    exact totalFrom_eq q h.linked (by rw [List.length_cons] at hle; omega)

theorem Holds.getEmpty_not_mem {q : LinkedQueue n α} {ids : List (Fin n)}
    (hfull : ∀ i ∈ ids, (q.slot i).data ≠ []) {i : Fin n} (hi : q.getEmpty = some i) : i ∉ ids := by
  intro hm
  have := List.find?_some hi
  exact hfull i hm (by simpa using this)

theorem linked_concat {slot : Fin n → Slot n α} {l : List (Fin n)} {k i : Fin n}
    (hnd : (l ++ [k]).Nodup) (h : Linked slot (l ++ [k])) {s : Slot n α} (hs : s.next = some i)
    {t : Slot n α} (ht : t.next = none) (hi : i ∉ l ++ [k]) :
    Linked (fun j => if j = i then t else if j = k then s else slot j) (l ++ [k] ++ [i]) := by
  have hki : k ≠ i := fun he => hi (by simp [he])
  induction l with
  | nil => simp [Linked, hki, hs, ht]
  | cons a l ih =>
    have hai : a ≠ i := fun he => hi (by simp [he])
    have hak : a ≠ k := by
      rintro rfl
      simp at hnd
    have hhead : (l ++ [k]).head? = (l ++ [k] ++ [i]).head? := by cases l <;> rfl
    refine ⟨?_, ih (List.nodup_cons.mp hnd).2 h.2 (fun hm => hi (by simp at hm ⊢; tauto))⟩
    simp only [hai, hak, if_false]
    exact h.1.trans hhead

theorem push_data (q : LinkedQueue n α) (i : Fin n) (d : List α) (j : Fin n) :
    ((q.push i d).slot j).data = if j = i then d else (q.slot j).data := by
  by_cases hj : j = i
  · simp [LinkedQueue.push, setSlot, hj]
  · cases hl : q.last with
    | none => simp [LinkedQueue.push, setSlot, hj, hl]
    | some k =>
      by_cases hk : j = k
      · subst hk
        simp [LinkedQueue.push, setSlot, hj, hl]
      · simp [LinkedQueue.push, setSlot, hj, hl, hk]

theorem Holds.push {q : LinkedQueue n α} {ids : List (Fin n)} (h : q.Holds ids) {i : Fin n}
    (hi : i ∉ ids) (d : List α) :
    (q.push i d).Holds (ids ++ [i]) ∧ (q.push i d).content (ids ++ [i]) = q.content ids ++ d := by
  have hfree := h.free i hi
  rcases List.eq_nil_or_concat' ids with rfl | ⟨l, k, rfl⟩
  · have hlast : q.last = none := h.last_eq
    have hpush : q.push i d = { q.setSlot i ⟨d, none⟩ with first := some i, last := some i } := by
      simp [LinkedQueue.push, hlast, setSlot, hfree]
    rw [hpush]
    refine ⟨⟨by simp, by simp [Linked, setSlot], rfl, rfl, fun j hj => ?_⟩,
      by simp [content, setSlot]⟩
    have hne : j ≠ i := by simpa using hj
    simpa [setSlot, hne] using h.free j (by simp)
  · have hlast : q.last = some k := by rw [h.last_eq, List.getLast?_concat]
    have hki : k ≠ i := fun he => hi (by simp [he])
    have hnd := h.nodup
    have hslot : (q.push i d).slot =
        fun j => if j = i then ⟨d, none⟩ else if j = k then { q.slot k with next := some i }
        else q.slot j := by
      funext j
      simp only [LinkedQueue.push, hlast, setSlot]
      by_cases hj : j = i
      · simp [hj, Ne.symm hki, hfree]
      · simp [hj]
    have hdata : ∀ j ∈ l ++ [k], ((q.push i d).slot j).data = (q.slot j).data := by
      intro j hj
      have hji : j ≠ i := fun he => hi (he ▸ hj)
      rw [hslot]
      by_cases hjk : j = k <;> simp [hji, hjk, hki]
    refine ⟨⟨?_, ?_, ?_, ?_, fun j hj => ?_⟩, ?_⟩
    · exact List.Nodup.append hnd (by simp) (by simpa using hi)
    · rw [hslot]
      exact linked_concat hnd h.linked rfl rfl hi
    · have hf : (q.push i d).first = q.first := by simp [LinkedQueue.push, hlast, setSlot]
      rw [hf, h.first_eq]
      cases l <;> rfl
    · simp [LinkedQueue.push]
    · have hji : j ≠ i := by
        rintro rfl
        simp at hj
      have hjk : j ≠ k := by
        rintro rfl
        simp at hj
      rw [hslot]
      simpa [hji, hjk] using h.free j (by simp at hj ⊢; tauto)
    · rw [content, List.flatMap_append, ← content, content_congr hdata]
      simp [hslot]

theorem Holds.pop {q : LinkedQueue n α} {f : Fin n} {ids : List (Fin n)} (h : q.Holds (f :: ids)) :
    (q.pop f).Holds ids ∧ (q.pop f).content ids = q.content ids ∧
      ∀ i ∈ ids, (q.pop f).slot i = q.slot i := by
  have hf : f ∉ ids := (List.nodup_cons.mp h.nodup).1
  have hsame : ∀ i ∈ ids, (q.pop f).slot i = q.slot i := by
    intro i hi
    have hne : i ≠ f := fun he => hf (he ▸ hi)
    simp [LinkedQueue.pop, hne]
  refine ⟨⟨(List.nodup_cons.mp h.nodup).2, ?_, h.linked.1, ?_, fun j hj => ?_⟩, ?_, hsame⟩
  · exact (linked_congr (fun i hi => by rw [hsame i hi])).mpr h.linked.2
  · have hl := h.last_eq
    cases ids with
    | nil => simp [LinkedQueue.pop, hl]
    | cons j l =>
      have hne : q.last ≠ some f := by
        rw [hl, List.getLast?_cons_cons]
        intro he
        exact hf (List.mem_of_getLast? he)
      simp only [LinkedQueue.pop, hne, if_false]
      rw [hl, List.getLast?_cons_cons]
  · by_cases hjf : j = f
    · simp [LinkedQueue.pop, hjf]
    · simpa [LinkedQueue.pop, hjf] using h.free j (by simp [hjf, hj])
  · exact content_congr (fun i hi => by rw [hsame i hi])

theorem Holds.shift {q : LinkedQueue n α} {f : Fin n} {ids : List (Fin n)}
    (h : q.Holds (f :: ids)) (d : List α) :
    (q.setSlot f { q.slot f with data := d }).Holds (f :: ids) ∧
      (q.setSlot f { q.slot f with data := d }).content (f :: ids) = d ++ q.content ids ∧
      ∀ i ∈ ids, (q.setSlot f { q.slot f with data := d }).slot i = q.slot i := by
  have hf : f ∉ ids := (List.nodup_cons.mp h.nodup).1
  have hsame : ∀ i ∈ ids, (q.setSlot f { q.slot f with data := d }).slot i = q.slot i := by
    intro i hi
    have hne : i ≠ f := fun he => hf (he ▸ hi)
    simp [setSlot, hne]
  refine ⟨⟨h.nodup, ?_, h.first_eq, h.last_eq, fun j hj => ?_⟩, ?_, hsame⟩
  · refine (linked_congr (fun i _ => ?_)).mpr h.linked
    by_cases hi : i = f <;> simp [setSlot, hi]
  · have hne : j ≠ f := fun he => hj (by simp [he])
    simpa [setSlot, hne] using h.free j hj
  · have hrest : (q.setSlot f { q.slot f with data := d }).content ids = q.content ids :=
      content_congr (fun i hi => by rw [hsame i hi])
    rw [content, List.flatMap_cons, ← content, hrest]
    simp [setSlot]

/-- Draining takes the front of the contents; a slot that stays in the queue keeps data if
it had any. -/
theorem Holds.drain {q : LinkedQueue n α} {ids : List (Fin n)} (h : q.Holds ids) {fuel m : Nat}
    {acc : List α} (hm : m ≤ (q.content ids).length) (hf : ids.length ≤ fuel) :
    ∃ q' ids', LinkedQueue.drain fuel q m acc = some (q', acc ++ (q.content ids).take m) ∧
      q'.Holds ids' ∧
      q'.content ids' = (q.content ids).drop m ∧
      ((∀ i ∈ ids, (q.slot i).data ≠ []) → ∀ i ∈ ids', (q'.slot i).data ≠ []) := by
  induction fuel generalizing q ids m acc with
  | zero =>
    have hnil : ids = [] := List.length_eq_zero_iff.mp (by omega)
    subst hnil
    have hz : m = 0 := by simpa [content] using hm
    subst hz
    exact ⟨q, [], by simp [LinkedQueue.drain], h, rfl, fun _ => by simp⟩
  | succ fuel ih =>
    by_cases hz : m = 0
    · subst hz
      exact ⟨q, ids, by simp [LinkedQueue.drain], h, rfl, fun hne => hne⟩
    · cases ids with
      | nil => exact absurd (by simpa [content] using hm) hz
      | cons f ids =>
        have hfirst : q.first = some f := h.first_eq
        have hcons : q.content (f :: ids) = (q.slot f).data ++ q.content ids := by
          simp [content]
        by_cases hle : (q.slot f).data.length ≤ m
        · obtain ⟨hpop, hcontent, hsame⟩ := h.pop
          rw [hcons, List.length_append] at hm
          obtain ⟨q', ids', hd, hq', hc', hne'⟩ := ih hpop (m := m - (q.slot f).data.length)
            (by rw [hcontent]; omega) (by simpa using hf)
          refine ⟨q', ids', ?_, hq', ?_, fun hne => hne' (fun i hi => ?_)⟩
          · simp only [LinkedQueue.drain, hz, if_false, hfirst, hle, if_true]
            rw [hd, hcontent, hcons, List.take_append, List.take_of_length_le hle, List.append_assoc]
          · rw [hc', hcontent, hcons, List.drop_append, List.drop_of_length_le hle, List.nil_append]
          · rw [hsame i hi]
            exact hne i (by simp [hi])
        · obtain ⟨hshift, hcontent, hsame⟩ := h.shift ((q.slot f).data.drop m)
          refine ⟨_, f :: ids, ?_, hshift, ?_, fun hne i hi => ?_⟩
          · simp only [LinkedQueue.drain, hz, if_false, hfirst, hle]
            rw [hcons, List.take_append_of_le_length (by omega)]
          · rw [hcontent, hcons, List.drop_append_of_le_length (by omega)]
          · rcases List.mem_cons.mp hi with rfl | hi
            · simp only [setSlot, if_true]
              intro hnil
              rw [List.drop_eq_nil_iff] at hnil
              omega
            · rw [hsame i hi]
              exact hne i (by simp [hi])

theorem Holds.full {q : LinkedQueue n α} {ids : List (Fin n)} (h : q.Holds ids)
    (hnone : q.getEmpty = none) :
    n ≤ ids.length := by
  have hall : ∀ j, j ∈ ids := by
    intro j
    by_contra hj
    have hfind := List.find?_eq_none.mp hnone j (List.mem_finRange j)
    rw [h.free j hj] at hfind
    simp at hfind
  have := ((List.nodup_finRange n).subperm (fun j _ => hall j)).length_le
  rwa [List.length_finRange] at this

theorem le_content_length {q : LinkedQueue n α} {ids : List (Fin n)} {b : Nat}
    (h : ∀ i ∈ ids, b ≤ (q.slot i).data.length) : b * ids.length ≤ (q.content ids).length := by
  induction ids with
  | nil => simp
  | cons i ids ih =>
    have hi := h i (by simp)
    have hrest := ih (fun j hj => h j (by simp [hj]))
    rw [content, List.flatMap_cons, List.length_append, ← content, List.length_cons, Nat.mul_succ]
    omega

/-- What is known of all slots but the first is not changed by draining. -/
theorem drain_data {P : List α → Prop} (hnil : P []) {fuel m : Nat} {q q' : LinkedQueue n α}
    {acc x : List α} (h : ∀ j, q.first ≠ some j → P (q.slot j).data)
    (hd : LinkedQueue.drain fuel q m acc = some (q', x)) :
    ∀ j, q'.first ≠ some j → P (q'.slot j).data := by
  induction fuel generalizing q m acc with
  | zero =>
    simp only [LinkedQueue.drain] at hd
    split at hd
    · obtain ⟨rfl, -⟩ := Prod.mk.inj (Option.some.inj hd)
      exact h
    · simp at hd
  | succ fuel ih =>
    simp only [LinkedQueue.drain] at hd
    split at hd
    · obtain ⟨rfl, -⟩ := Prod.mk.inj (Option.some.inj hd)
      exact h
    · split at hd
      · simp at hd
      · rename_i f hf
        split at hd
        · refine ih (fun j hj => ?_) hd
          by_cases hjf : j = f
          · simp [LinkedQueue.pop, hjf, hnil]
          · simp only [LinkedQueue.pop, hjf, if_false]
            exact h j (by rw [hf]; simpa using Ne.symm hjf)
        · obtain ⟨rfl, -⟩ := Prod.mk.inj (Option.some.inj hd)
          intro j hj
          have hjf : j ≠ f := fun he => hj (by rw [he]; exact hf)
          simpa [setSlot, hjf] using h j hj

end LinkedQueue

end PulseImaging
