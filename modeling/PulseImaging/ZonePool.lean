import Mathlib.Data.List.FinRange
import Mathlib.Data.List.Nodup
import Mathlib.Logic.Function.Basic

/-! `zfunc.c`: the memory that the boot loader has for `inflate`, and what a stream does with it. -/

namespace PulseImaging

def MAXALLOCBUFF : Nat := 10

abbrev ZoneFlags := Fin MAXALLOCBUFF → Bool

def zone (i : Fin MAXALLOCBUFF) : Nat := 0x100000 + i.val * 32768

def zcinit : ZoneFlags := fun _ => false

/-- The first zone that is not in use; `none` is the `Calloc error`. -/
def zcalloc (used : ZoneFlags) : Option (Nat × ZoneFlags) :=
  ((List.finRange MAXALLOCBUFF).find? (fun i => !used i)).map (fun i => (zone i, Function.update used i true))

/-- `none` is the `Cfree error`. -/
def zcfree (used : ZoneFlags) (ptr : Nat) : Option ZoneFlags :=
  ((List.finRange MAXALLOCBUFF).find? (fun i => ptr == zone i)).map (fun i => Function.update used i false)

/-- A stream takes a zone, or gives back the one that it holds at place `k`. -/
inductive MemOp where
  | alloc
  | free (k : Nat)

/-- The flags, and the zones handed out and not yet freed. -/
structure ZoneMemory where
  used : ZoneFlags
  held : List Nat

def ZoneMemory.start : ZoneMemory := ⟨zcinit, []⟩

def ZoneMemory.op (m : ZoneMemory) : MemOp → Option ZoneMemory
  | .alloc => (zcalloc m.used).map (fun x => ⟨x.2, m.held ++ [x.1]⟩)
  | .free k => m.held[k]?.bind (fun ptr => (zcfree m.used ptr).map (fun used => ⟨used, m.held.erase ptr⟩))

def ZoneMemory.run : ZoneMemory → List MemOp → Option ZoneMemory
  | m, [] => some m
  | m, op :: ops => (m.op op).bind (fun m => m.run ops)

/-- No operation fails, and the zones handed out are distinct all the time. -/
def ZoneMemory.Safe : ZoneMemory → List MemOp → Prop
  | m, [] => m.held.Nodup
  | m, op :: ops => m.held.Nodup ∧ ∃ m', m.op op = some m' ∧ m'.Safe ops

/-! ### The zones in use -/

/-- The zones in use are those handed out. -/
structure ZoneMemory.Valid (m : ZoneMemory) : Prop where
  nodup : m.held.Nodup
  mem_held : ∀ ptr, ptr ∈ m.held ↔ ∃ i, m.used i = true ∧ zone i = ptr

theorem zone_inj {i j : Fin MAXALLOCBUFF} (h : zone i = zone j) : i = j := by
  simp only [zone] at h
  exact Fin.ext (by omega)

theorem ZoneMemory.start_valid :
    ZoneMemory.start.Valid := ⟨List.nodup_nil, by simp [ZoneMemory.start, zcinit]⟩

theorem ZoneMemory.Valid.used_iff {m : ZoneMemory} (h : m.Valid) (i : Fin MAXALLOCBUFF) :
    m.used i = true ↔ zone i ∈ m.held := by
  rw [h.mem_held]
  exact ⟨fun hi => ⟨i, hi, rfl⟩, fun ⟨j, hj, he⟩ => zone_inj he ▸ hj⟩

theorem ZoneMemory.Valid.unused {m : ZoneMemory} (h : m.Valid) (hheld : m.held = [])
    (i : Fin MAXALLOCBUFF) :
    m.used i = false := by
  rw [← Bool.not_eq_true, h.used_iff, hheld]
  exact List.not_mem_nil

/-- With less than ten zones handed out there is another one. -/
theorem ZoneMemory.Valid.exists_unused {m : ZoneMemory} (h : m.Valid)
    (hlt : m.held.length < MAXALLOCBUFF) :
    ∃ i, m.used i = false := by
  by_contra hall
  push Not at hall
  have hsub : (List.finRange MAXALLOCBUFF).map zone ⊆ m.held := by
    intro ptr hptr
    obtain ⟨i, -, rfl⟩ := List.mem_map.mp hptr
    exact (h.used_iff i).mp (Bool.not_eq_false _ ▸ hall i)
  have hnd : ((List.finRange MAXALLOCBUFF).map zone).Nodup :=
    (List.nodup_finRange _).map (fun _ _ he => zone_inj he)
  have hle := (List.subperm_of_subset hnd hsub).length_le
  rw [List.length_map, List.length_finRange] at hle
  omega

theorem ZoneMemory.Valid.alloc {m : ZoneMemory} (h : m.Valid) (hlt : m.held.length < MAXALLOCBUFF) :
    ∃ m', m.op .alloc = some m' ∧ m'.Valid ∧ m'.held.length = m.held.length + 1 := by
  obtain ⟨j, hj⟩ := h.exists_unused hlt
  obtain ⟨i, hi⟩ := Option.isSome_iff_exists.mp
    (List.find?_isSome.mpr ⟨j, List.mem_finRange j, by simp [hj]⟩ :
      ((List.finRange MAXALLOCBUFF).find? (fun i => !m.used i)).isSome = true)
  have hfree : m.used i = false := by simpa using List.find?_some hi
  have hnew : zone i ∉ m.held := by rw [← h.used_iff, hfree]; exact Bool.false_ne_true
  refine ⟨⟨Function.update m.used i true, m.held ++ [zone i]⟩,
    by rw [ZoneMemory.op, zcalloc, hi]; rfl, ?_, by simp⟩
  refine ⟨List.nodup_append.mpr ⟨h.nodup, List.nodup_singleton _, ?_⟩, fun ptr => ?_⟩
  · intro a ha b hb
    rw [List.mem_singleton.mp hb]
    exact fun he => hnew (he ▸ ha)
  · rw [List.mem_append, List.mem_singleton, h.mem_held]
    constructor
    · rintro (⟨k, hk, rfl⟩ | rfl)
      · have hki : k ≠ i := fun he => Bool.noConfusion (hfree.symm.trans (he ▸ hk))
        exact ⟨k, (Function.update_of_ne hki true m.used).trans hk, rfl⟩
      · exact ⟨i, Function.update_self .., rfl⟩
    · rintro ⟨k, hk, rfl⟩
      by_cases hki : k = i
      · exact Or.inr (by rw [hki])
      · exact Or.inl ⟨k, (Function.update_of_ne hki true m.used).symm.trans hk, rfl⟩

theorem ZoneMemory.Valid.free {m : ZoneMemory} (h : m.Valid) {k : Nat} (hk : k < m.held.length) :
    ∃ m', m.op (.free k) = some m' ∧ m'.Valid ∧ m'.held.length = m.held.length - 1 := by
  obtain ⟨i, hused, hi⟩ := (h.mem_held _).mp (List.getElem_mem hk)
  have hfind : (List.finRange MAXALLOCBUFF).find? (fun j => m.held[k] == zone j) = some i := by
    obtain ⟨j, hj⟩ := Option.isSome_iff_exists.mp
      (List.find?_isSome.mpr ⟨i, List.mem_finRange i, by simp [hi]⟩ :
        ((List.finRange MAXALLOCBUFF).find? (fun j => m.held[k] == zone j)).isSome = true)
    have hzone : m.held[k] = zone j := by simpa using List.find?_some hj
    rw [hj, zone_inj (hi.trans hzone)]
  refine ⟨⟨Function.update m.used i false, m.held.erase m.held[k]⟩, ?_,
    ⟨h.nodup.erase _, fun ptr => ?_⟩, List.length_erase_of_mem (List.getElem_mem hk)⟩
  · rw [ZoneMemory.op, List.getElem?_eq_getElem hk, Option.bind_some, zcfree, hfind]
    rfl
  · rw [h.nodup.mem_erase_iff, h.mem_held, ← hi]
    constructor
    · rintro ⟨hne, j, hj, rfl⟩
      have hji : j ≠ i := fun he => hne (by rw [he])
      exact ⟨j, (Function.update_of_ne hji false m.used).trans hj, rfl⟩
    · rintro ⟨j, hj, rfl⟩
      have hji : j ≠ i := fun he => by
        rw [he] at hj
        exact Bool.noConfusion ((Function.update_self i false m.used).symm.trans hj)
      exact ⟨fun he => hji (zone_inj he), j, (Function.update_of_ne hji false m.used).symm.trans hj,
        rfl⟩

/-! ### Streams -/

/-- The calls that concern the memory of a stream. -/
inductive ZCall where
  | inflateInit
  | inflate
  | inflateEnd
  deriving DecidableEq

/-- How many zones the stream holds after an operation; it needs ten at most and frees only its own. -/
def countOp (n : Nat) : MemOp → Option Nat
  | .alloc => if n < MAXALLOCBUFF then some (n + 1) else none
  | .free k => if k < n then some (n - 1) else none

def countOps : Nat → List MemOp → Option Nat
  | n, [] => some n
  | n, op :: ops => (countOp n op).bind (fun n => countOps n ops)

/-- What is assumed of zlib, with the number of zones of the open stream, if there is one: a stream
starts without zones, and `inflateEnd` frees all that it has. -/
def ZlibFits : Option Nat → List (ZCall × List MemOp) → Prop
  | _, [] => True
  | _, (.inflateInit, ops) :: calls => ∃ n, countOps 0 ops = some n ∧ ZlibFits (some n) calls
  | some n, (.inflate, ops) :: calls => ∃ n', countOps n ops = some n' ∧ ZlibFits (some n') calls
  | some n, (.inflateEnd, ops) :: calls => countOps n ops = some 0 ∧ ZlibFits none calls
  | none, _ :: calls => ZlibFits none calls

/-- Whether a stream is open after the calls; only an open stream is used and closed. -/
def opens : Bool → List ZCall → Option Bool
  | opened, [] => some opened
  | false, .inflateInit :: calls => opens true calls
  | true, .inflate :: calls => opens true calls
  | true, .inflateEnd :: calls => opens false calls
  | _, _ :: _ => none

/-- No zone is in use when a stream is opened, no operation fails and the zones handed out are distinct. -/
def Balanced : ZoneMemory → List (ZCall × List MemOp) → Prop
  | _, [] => True
  | m, (c, ops) :: calls =>
    (c = .inflateInit → ∀ i, m.used i = false) ∧ m.Safe ops ∧ ∃ m', m.run ops = some m' ∧ Balanced m' calls

theorem ZoneMemory.Valid.op {m : ZoneMemory} (h : m.Valid) {op : MemOp} {n : Nat}
    (hn : countOp m.held.length op = some n) :
    ∃ m', m.op op = some m' ∧ m'.Valid ∧ m'.held.length = n := by
  cases op with
  | alloc =>
    obtain ⟨hlt, hn⟩ := Option.ite_none_right_eq_some.mp hn
    rw [← Option.some.inj hn]
    exact h.alloc hlt
  | free k =>
    obtain ⟨hlt, hn⟩ := Option.ite_none_right_eq_some.mp hn
    rw [← Option.some.inj hn]
    exact h.free hlt

theorem ZoneMemory.Valid.run {m : ZoneMemory} (h : m.Valid) {ops : List MemOp} {n : Nat}
    (hn : countOps m.held.length ops = some n) :
    m.Safe ops ∧ ∃ m', m.run ops = some m' ∧ m'.Valid ∧ m'.held.length = n := by
  induction ops generalizing m with
  | nil => exact ⟨h.nodup, m, rfl, h, Option.some.inj hn⟩
  | cons op ops ih =>
    obtain ⟨n₁, h₁, hn⟩ := Option.bind_eq_some_iff.mp hn
    obtain ⟨m₁, hop, hvalid, rfl⟩ := h.op h₁
    obtain ⟨hsafe, m', hrun, hm'⟩ := ih hvalid hn
    exact ⟨⟨h.nodup, m₁, hop, hsafe⟩, m', by rw [ZoneMemory.run, hop, Option.bind_some, hrun], hm'⟩

/-- The open stream holds what is handed out. -/
def Owns (m : ZoneMemory) : Option Nat → Prop
  | none => m.held = []
  | some n => m.held.length = n

/-- If streams are opened and closed in turn, the memory is balanced. -/
theorem balanced_of_opens {calls : List (ZCall × List MemOp)} {m : ZoneMemory} {s : Option Nat}
    (hm : m.Valid) (hown : Owns m s)
    (hopens : (opens s.isSome (calls.map Prod.fst)).isSome = true) (hfits : ZlibFits s calls) :
    Balanced m calls := by
  induction calls generalizing m s with
  | nil => trivial
  | cons call calls ih =>
    obtain ⟨c, ops⟩ := call
    cases s with
    | none =>
      cases c with
      | inflateInit =>
        obtain ⟨n, hn, hfits⟩ := hfits
        rw [← List.length_nil, ← show m.held = [] from hown] at hn
        obtain ⟨hsafe, m', hrun, hvalid, hlen⟩ := hm.run hn
        exact ⟨fun _ => hm.unused hown, hsafe, m', hrun, @ih m' (some n) hvalid hlen hopens hfits⟩
      | inflate => exact Bool.noConfusion hopens
      | inflateEnd => exact Bool.noConfusion hopens
    | some n =>
      obtain rfl : m.held.length = n := hown
      cases c with
      | inflateInit => exact Bool.noConfusion hopens
      | inflate =>
        obtain ⟨n', hn', hfits⟩ := hfits
        obtain ⟨hsafe, m', hrun, hvalid, hlen⟩ := hm.run hn'
        exact ⟨fun h => ZCall.noConfusion h, hsafe, m', hrun,
          @ih m' (some n') hvalid hlen hopens hfits⟩
      | inflateEnd =>
        obtain ⟨hn, hfits⟩ := hfits
        obtain ⟨hsafe, m', hrun, hvalid, hlen⟩ := hm.run hn
        exact ⟨fun h => ZCall.noConfusion h, hsafe, m', hrun,
          @ih m' none hvalid (List.length_eq_zero_iff.mp hlen) hopens hfits⟩

end PulseImaging
