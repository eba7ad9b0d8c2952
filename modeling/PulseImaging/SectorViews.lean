import PulseImaging.SeekDevice

/-! Stores of sectors seen through devices, and steps that copy sectors of a source to their own
places. Such steps may come in any order and may overlap. -/

namespace PulseImaging

variable {δ : Type*}

theorem slice_congr {c c' : Content} {p p' n : Nat} (h : ∀ k < n, c (p + k) = c' (p' + k)) :
    slice c p n = slice c' p' n :=
  List.map_congr_left fun k hk => h k (List.mem_range.mp hk)

/-- The contents of each disk. -/
abbrev Store (δ : Type*) := δ → Content

def sectorAt (disks : Store δ) (q : δ × Nat) : List Byte := slice (disks q.1) (512 * q.2) 512

/-- A device: each of its sectors is one of the store, and none is there twice. -/
structure SectorView (δ : Type*) where
  place : Nat → δ × Nat
  index : δ × Nat → Option Nat
  index_iff : ∀ q i, index q = some i ↔ place i = q

namespace SectorView

def read (v : SectorView δ) (disks : Store δ) : Content := fun j =>
  disks (v.place (j / 512)).1 (512 * (v.place (j / 512)).2 + j % 512)

/-- The store once the device has the contents `c`. -/
def write (v : SectorView δ) (c : Content) (disks : Store δ) : Store δ := fun d j =>
  match v.index (d, j / 512) with
  | some i => c (512 * i + j % 512)
  | none => disks d j

theorem slice_read (v : SectorView δ) (disks : Store δ) (i : Nat) :
    slice (v.read disks) (512 * i) 512 = sectorAt disks (v.place i) := by
  refine slice_congr fun k hlt => ?_
  have hdiv : (512 * i + k) / 512 = i := by omega
  have hmod : (512 * i + k) % 512 = k := by omega
  rw [read, hdiv, hmod]

theorem sectorAt_write (v : SectorView δ) (c : Content) (disks : Store δ) (i : Nat) :
    sectorAt (v.write c disks) (v.place i) = slice c (512 * i) 512 := by
  have hindex : v.index ((v.place i).1, (v.place i).2) = some i := (v.index_iff _ _).mpr rfl
  refine slice_congr fun k hlt => ?_
  have hdiv : (512 * (v.place i).2 + k) / 512 = (v.place i).2 := by omega
  have hmod : (512 * (v.place i).2 + k) % 512 = k := by omega
  rw [write, hdiv, hmod, hindex]

theorem sectorAt_write_of_none (v : SectorView δ) (c : Content) (disks : Store δ) {q : δ × Nat}
    (h : v.index q = none) : sectorAt (v.write c disks) q = sectorAt disks q := by
  refine slice_congr fun k hlt => ?_
  have hdiv : (512 * q.2 + k) / 512 = q.2 := by omega
  rw [write, hdiv, h]

end SectorView

/-- The sectors of `S` are those of the source, and the others as before. -/
structure Copied (source : Store δ) (S : δ × Nat → Prop) (before after : Store δ) : Prop where
  copied : ∀ q, S q → sectorAt after q = sectorAt source q
  kept : ∀ q, ¬ S q → sectorAt after q = sectorAt before q

variable {source : Store δ} {S T : δ × Nat → Prop} {a b c : Store δ}

theorem Copied.refl (h : ∀ q, ¬ S q) : Copied source S a a :=
  ⟨fun q hq => absurd hq (h q), fun _ _ => rfl⟩

theorem Copied.trans (h : Copied source S a b) (h' : Copied source T b c) :
    Copied source (fun q => S q ∨ T q) a c where
  copied q hq := by
    by_cases hT : T q
    · exact h'.copied q hT
    · exact (h'.kept q hT).trans (h.copied q (hq.resolve_right hT))
  kept q hq := by
    obtain ⟨hS, hT⟩ := not_or.mp hq
    exact (h'.kept q hT).trans (h.kept q hS)

theorem Copied.congr (h : Copied source S a b) (hST : ∀ q, S q ↔ T q) : Copied source T a b :=
  ⟨fun q hq => h.copied q ((hST q).mpr hq), fun q hq => h.kept q (mt (hST q).mp hq)⟩

/-- Steps that copy, one after the other. -/
theorem Copied.foldlM {α : Type*} {step : Store δ → α → Option (Store δ)} {S : α → δ × Nat → Prop}
    {xs : List α} (h : ∀ x ∈ xs, ∀ disks, ∃ disks', step disks x = some disks' ∧
      Copied source (S x) disks disks') (disks : Store δ) :
    ∃ disks', xs.foldlM step disks = some disks' ∧
      Copied source (fun q => ∃ x ∈ xs, S x q) disks disks' := by
  induction xs generalizing disks with
  | nil => exact ⟨disks, rfl, .refl fun q ⟨x, hx, _⟩ => absurd hx List.not_mem_nil⟩
  | cons x xs ih =>
    obtain ⟨mid, hstep, hfirst⟩ := h x List.mem_cons_self disks
    obtain ⟨disks', hrun, hrest⟩ := ih (fun y hy => h y (List.mem_cons_of_mem x hy)) mid
    refine ⟨disks', ?_, (hfirst.trans hrest).congr fun q => by simp⟩
    rw [List.foldlM_cons, hstep]
    exact hrun

/-- A step through a device. -/
theorem SectorView.write_copied (v : SectorView δ) {T : Nat → Prop} {new : Content} {disks : Store δ}
    (hnew : ∀ i, T i → slice new (512 * i) 512 = sectorAt source (v.place i))
    (hold : ∀ i, ¬ T i → slice new (512 * i) 512 = slice (v.read disks) (512 * i) 512) :
    Copied source (fun q => ∃ i, T i ∧ v.place i = q) disks (v.write new disks) where
  copied := by
    rintro q ⟨i, hi, rfl⟩
    rw [sectorAt_write, hnew i hi]
  kept q hq := by
    cases hindex : v.index q with
    | none => exact v.sectorAt_write_of_none new disks hindex
    | some i =>
      obtain rfl := (v.index_iff q i).mp hindex
      rw [sectorAt_write, hold i fun hi => hq ⟨i, hi, rfl⟩, slice_read]

/-- Bounds for the members of a list have a common one. -/
theorem exists_common_bound {α : Type*} {P : α → Nat → Prop} {xs : List α}
    (h : ∀ x ∈ xs, ∃ n, ∀ k ≥ n, P x k) : ∃ n, ∀ k ≥ n, ∀ x ∈ xs, P x k := by
  induction xs with
  | nil => exact ⟨0, fun k _ x hx => absurd hx List.not_mem_nil⟩
  | cons x xs ih =>
    obtain ⟨m, hm⟩ := h x List.mem_cons_self
    obtain ⟨n, hn⟩ := ih fun y hy => h y (List.mem_cons_of_mem x hy)
    refine ⟨max m n, fun k hk y hy => ?_⟩
    rcases List.mem_cons.mp hy with rfl | hy
    · exact hm k (le_of_max_le_left hk)
    · exact hn k (le_of_max_le_right hk) y hy

end PulseImaging
