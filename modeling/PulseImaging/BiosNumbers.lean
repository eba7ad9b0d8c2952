import PulseImaging.AutoSave
import Mathlib.Data.List.Nodup

/-! Disk numbers over a whole backup: which sizes find their entry in the `hdmap`
file decides whether a number is given twice. -/

namespace PulseImaging

/-! ### The hdmap file -/

/-- A `%d` conversion of `fscanf`; a lone sign is consumed. -/
def fscanInt (s : List Byte) : Option Int × List Byte :=
  match s.dropWhile isSpace with
  | 45 :: t => ((scanNat t).map (fun p => -(p.1 : Int)), ((scanNat t).map Prod.snd).getD t)
  | 43 :: t => ((scanNat t).map (fun p => (p.1 : Int)), ((scanNat t).map Prod.snd).getD t)
  | t => ((scanNat t).map (fun p => (p.1 : Int)), ((scanNat t).map Prod.snd).getD t)

/-- `fscanf(f, "%d=%d\n", ...)` with the separator `sep`, and the rest of the file. -/
def fscanPair (sep : Byte) (s : List Byte) : Option (Int × Int) × List Byte :=
  match fscanInt s with
  | (none, r) => (none, r)
  | (some _, []) => (none, [])
  | (some a, c :: r) =>
    if c = sep then
      match fscanInt r with
      | (some b, r') => (some (a, b), r'.dropWhile isSpace)
      | (none, r') => (none, r')
    else (none, c :: r)

/-- The loop `while (!feof(f))`. It has no result when a conversion fails without
consuming anything, since it then never ends. -/
def fscanPairs (sep : Byte) : Nat → List Byte → Option (List (Int × Int))
  | 0, _ => none
  | fuel + 1, s =>
    let p := fscanPair sep s
    if p.2 = [] then some p.1.toList else (fscanPairs sep fuel p.2).map (p.1.toList ++ ·)

/-- The bits of an `int` in an `unsigned int`. -/
def asUnsigned (z : Int) : Nat := (storeInt z % 2 ^ 32).toNat

/-- The `hdmap` file; an index beyond the table has no result. -/
def loadhdmap (content : List Byte) : Option (Nat → Nat) :=
  (fscanPairs 61 (content.length + 1) content).bind fun pairs =>
    pairs.foldlM
      (fun hdmap p =>
        if asUnsigned p.1 < 65536 then some (Function.update hdmap (asUnsigned p.1) (asUnsigned p.2)) else none)
      (fun i => if i < 256 then 0xFFFFFFFF else 0)

/-! ### The numbers of a run -/

/-- The numbers that the successive calls of `gethdbios` return. -/
def biosNumbers : BiosState → List Nat → List Int
  | _, [] => []
  | st, s :: sizes => (gethdbios st s).1 :: biosNumbers (gethdbios st s).2 sizes

/-- The entries that the sizes find; a found entry is marked as used. -/
def hdmapFinds (hdmap : Nat → Nat) : List Nat → List (Option Nat)
  | [] => []
  | s :: sizes =>
    let found := (List.range 256).find? (fun i => s == hdmap i || (s + 1) % 2 ^ 32 == hdmap i)
    found :: hdmapFinds (Function.update hdmap (found.getD 256) 0xFFFFFFFF) sizes

/-- Consecutive numbers given one after the other. -/
structure Stretch where
  first : Nat
  count : Nat
  deriving DecidableEq, Repr

def Stretch.numbers (s : Stretch) : List Nat := List.range' s.first s.count

/-- The stretches of a run: one is open, and every entry found starts a new one. -/
def stretches (s : Stretch) : List (Option Nat) → List Stretch
  | [] => [s]
  | none :: finds => stretches ⟨s.first, s.count + 1⟩ finds
  | some i :: finds => s :: stretches ⟨i, 1⟩ finds

theorem biosNumbers_none (last : Int) (sizes : List Nat) :
    biosNumbers ⟨last, none⟩ sizes = (List.range sizes.length).map
      (fun k : Nat => last + 129 + (k : Int)) := by
  induction sizes generalizing last with
  | nil => rfl
  | cons s sizes ih =>
    have hcall : gethdbios ⟨last, none⟩ s = (last + 1 + 128, ⟨last + 1, none⟩) := rfl
    rw [biosNumbers, List.length_cons, List.range_succ_eq_map, List.map_cons, List.map_map, hcall, ih]
    refine List.cons_eq_cons.mpr ⟨by push_cast; omega, List.map_congr_left fun k _ => ?_⟩
    simp only [Function.comp_apply, Nat.succ_eq_add_one]
    omega

/-- The numbers that follow from what is found, counted from zero. -/
def findNumbers (next : Nat) : List (Option Nat) → List Nat
  | [] => []
  | none :: finds => next :: findNumbers (next + 1) finds
  | some i :: finds => i :: findNumbers (i + 1) finds

theorem biosNumbers_some (hdmap : Nat → Nat) (next : Nat) (sizes : List Nat) :
    biosNumbers ⟨(next : Int) - 1, some hdmap⟩ sizes =
      (findNumbers next (hdmapFinds hdmap sizes)).map (fun n : Nat => (n : Int) + 128) := by
  induction sizes generalizing hdmap next with
  | nil => rfl
  | cons size sizes ih =>
    simp only [biosNumbers, hdmapFinds, gethdbios]
    cases (List.range 256).find? (fun i => size == hdmap i || (size + 1) % 2 ^ 32 == hdmap i) with
    | some i =>
      have hi := ih (Function.update hdmap i 0xFFFFFFFF) (i + 1)
      rw [show ((i + 1 : Nat) : Int) - 1 = i by omega] at hi
      simp [findNumbers, hi]
    | none =>
      have hi := ih (Function.update hdmap 256 0xFFFFFFFF) (next + 1)
      rw [show ((next + 1 : Nat) : Int) - 1 = next by omega] at hi
      simp [findNumbers, hi]

/-- A run is its stretches one after the other. -/
theorem stretches_numbers (s : Stretch) (finds : List (Option Nat)) :
    (stretches s finds).flatMap Stretch.numbers = s.numbers ++ findNumbers
      (s.first + s.count) finds := by
  induction finds generalizing s with
  | nil => simp [stretches, findNumbers]
  | cons f finds ih =>
    cases f with
    | none =>
      rw [stretches, ih, findNumbers]
      simp only [Stretch.numbers, List.range'_concat, Nat.one_mul, List.append_assoc,
        List.cons_append, List.nil_append, Nat.add_assoc]
    | some i =>
      rw [stretches, List.flatMap_cons, ih, findNumbers]
      rfl

theorem biosNumbers_concat (st : BiosState) (sizes : List Nat) (s : Nat) :
    biosNumbers st (sizes ++ [s]) =
      biosNumbers st sizes ++
        [(gethdbios (sizes.foldl (fun st s => (gethdbios st s).2) st) s).1] := by
  induction sizes generalizing st with
  | nil => rfl
  | cons t sizes ih => simp only [List.cons_append, biosNumbers, ih, List.foldl_cons]

/-- The run of `save` asks for the numbers of its disks one after the other. -/
theorem save_biosNumbers (m : Machine) (o : SaveOptions) :
    (save m o).disks.map NumberedDisk.dnum =
      biosNumbers ⟨-1, o.hdmap⟩ ((save m o).disks.map NumberedDisk.size) := by
  have hrun : (save m o).disks.map NumberedDisk.dnum =
        biosNumbers ⟨-1, o.hdmap⟩ ((save m o).disks.map NumberedDisk.size) ∧
      (save m o).bios =
        ((save m o).disks.map NumberedDisk.size).foldl
        (fun st s => (gethdbios st s).2) ⟨-1, o.hdmap⟩ := by
    refine save_induction
      (P := fun _ st => st.disks.map NumberedDisk.dnum =
          biosNumbers ⟨-1, o.hdmap⟩ (st.disks.map NumberedDisk.size) ∧
        st.bios = (st.disks.map NumberedDisk.size).foldl
        (fun st s => (gethdbios st s).2) ⟨-1, o.hdmap⟩)
      ⟨rfl, rfl⟩ (fun _ p st ih ht => ?_)
    obtain ⟨hnum, hbios⟩ := ih
    cases hn : m.numbers st.shouldBackupLvm p with
    | none =>
      obtain ⟨hb, -⟩ := ht.other hn
      have hd := ht.disks
      rw [hn] at hd
      simp only [Option.map_none, Option.toList_none, List.append_nil] at hd
      rw [hb, hd]
      exact ⟨hnum, hbios⟩
    | some size =>
      obtain ⟨hb, -⟩ := ht.numbered size hn
      have hd := ht.disks
      rw [hn] at hd
      simp only [Option.map_some, Option.toList_some] at hd
      rw [hb, hd, List.map_append, List.map_append, List.map_singleton, List.map_singleton,
        biosNumbers_concat, List.foldl_concat, ← hbios, ← hnum]
      exact ⟨rfl, rfl⟩
  exact hrun.1

/-! ### What the numbers show in file names -/

/-- The last bytes of the numbers, which the prefixes show. -/
def Stretch.letters (s : Stretch) : List Nat := s.numbers.map (· % 256)

/-- The stretches of a run; without an `hdmap` file there is one. -/
def runStretches (hdmap : Option (Nat → Nat)) (sizes : List Nat) : List Stretch :=
  match hdmap with
  | none => [⟨0, sizes.length⟩]
  | some t => stretches ⟨0, 0⟩ (hdmapFinds t sizes)

theorem biosNumbers_stretches (hdmap : Option (Nat → Nat)) (sizes : List Nat) :
    biosNumbers ⟨-1, hdmap⟩ sizes =
      ((runStretches hdmap sizes).flatMap Stretch.numbers).map fun n : Nat => (n : Int) + 128 := by
  cases hdmap with
  | none =>
    rw [biosNumbers_none, runStretches, List.flatMap_singleton, Stretch.numbers,
      ← List.range_eq_range']
    exact List.map_congr_left fun k _ => by omega
  | some t =>
    have h := biosNumbers_some t 0 sizes
    rw [show ((0 : Nat) : Int) - 1 = -1 from rfl] at h
    rw [h, runStretches, stretches_numbers ⟨0, 0⟩]
    rfl

theorem byte_eq_iff (n : Nat) (c : Byte) :
    UInt8.ofNat ((80 + n : Int) % 256).toNat = c ↔ (80 + n) % 256 = c.toNat := by
  rw [← UInt8.toNat_inj, UInt8.toNat_ofNat']
  omega

theorem dnum2pre_small {n : Nat} (h : n < 512) :
    dnum2pre (n + 128) = if n % 256 = 176 then []
      else [UInt8.ofNat ((80 + n : Int) % 256).toNat] := by
  have hlow : ¬ (0xFFF : Int) ≤ n + 128 := by omega
  have hsub : (n : Int) + 128 - 128 = n := by omega
  have hzero := byte_eq_iff n 0
  rw [dnum2pre, if_neg hlow, charText, hsub]
  split_ifs with hn
  · rw [hzero.mpr (by change (80 + n) % 256 = 0; omega)]
    rfl
  · have hne : UInt8.ofNat ((80 + n : Int) % 256).toNat ≠ 0 := by
      rw [Ne, hzero]
      change ¬ (80 + n) % 256 = 0
      omega
    simp [cstr, hne]

theorem mem_letters_flatMap {ss : List Stretch} {r : Nat} :
    (∃ s ∈ ss, r ∈ s.letters) ↔ ∃ n ∈ ss.flatMap Stretch.numbers, n % 256 = r := by
  constructor
  · rintro ⟨s, hs, hr⟩
    obtain ⟨n, hn, rfl⟩ := List.mem_map.mp hr
    exact ⟨n, List.mem_flatMap.mpr ⟨s, hs, hn⟩, rfl⟩
  · rintro ⟨n, hn, rfl⟩
    obtain ⟨s, hs, hn⟩ := List.mem_flatMap.mp hn
    exact ⟨s, hs, List.mem_map.mpr ⟨n, hn, rfl⟩⟩

end PulseImaging
