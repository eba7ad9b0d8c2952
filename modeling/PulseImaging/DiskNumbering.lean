import PulseImaging.AutoSave

/-! The disk table of autorestore, built from the same list of block devices that
the backup numbers its disks from. -/

namespace PulseImaging

/-! ### Two selections from one list -/

section Selection

variable {α β : Type} (f : α → β) (p q : α → Bool)

/-- One selection begins with another one exactly if it leaves nothing out of it
and takes nothing else before its last element. -/
theorem filter_prefix_filter_iff {l : List α} (hl : (l.map f).Nodup) :
    (l.filter p).map f <+: (l.filter q).map f ↔
      (∀ a ∈ l, p a = true → q a = true) ∧ l.Pairwise (fun a b => p b = true → q a = true →
        p a = true) := by
  induction l with
  | nil => simp
  | cons a l ih =>
    rw [List.map_cons, List.nodup_cons] at hl
    have hi := ih hl.2
    have hsub : ∀ r : α → Bool, f a ∉ (l.filter r).map f := fun r h =>
      hl.1 ((List.filter_sublist.map f).subset h)
    rw [List.forall_mem_cons, List.pairwise_cons]
    cases hp : p a <;> cases hq : q a
    · simp [hp, hq, hi]
    · have hnil : (l.filter p).map f <+: f a :: (l.filter q).map f ↔ ∀ b ∈ l, p b = false := by
        have hfil : l.filter p = [] ↔ ∀ b ∈ l, p b = false := by simp [List.filter_eq_nil_iff]
        rw [← hfil]
        cases h : l.filter p with
        | nil => simp
        | cons b m =>
          simp only [List.map_cons, List.cons_prefix_cons, reduceCtorEq, iff_false, not_and]
          intro hb
          exact absurd (by rw [h]; simp [hb]) (hsub p)
      rw [List.filter_cons_of_neg (by simp [hp]), List.filter_cons_of_pos hq, List.map_cons, hnil]
      constructor
      · intro h
        refine ⟨⟨by simp, fun b hb hpb => by simp [h b hb] at hpb⟩,
          fun b hb hpb => by simp [h b hb] at hpb, ?_⟩
        refine List.pairwise_iff_getElem.mpr fun i j hi hj _ hpb => ?_
        rw [h _ (List.getElem_mem hj)] at hpb
        simp at hpb
      · rintro ⟨-, h, -⟩ b hb
        cases hpb : p b with
        | false => rfl
        | true => simpa using h b hb hpb rfl
    · rw [List.filter_cons_of_pos hp, List.filter_cons_of_neg (by simp [hq]), List.map_cons]
      constructor
      · intro h
        exact absurd (h.subset (List.mem_cons_self)) (hsub q)
      · rintro ⟨⟨h, -⟩, -⟩
        simp at h
    · rw [List.filter_cons_of_pos hp, List.filter_cons_of_pos hq, List.map_cons, List.map_cons,
        List.cons_prefix_cons, hi]
      simp

/-- Repetitions at the end make no longer beginnings without repetitions. -/
theorem prefix_append_iff_of_nodup {s h t : List β} (hs : s.Nodup) (ht : s = [] ∨ ∀ x ∈ t, x ∈ h) :
    s <+: h ++ t ↔ s <+: h := by
  constructor
  · intro hpre
    by_cases hlen : s.length ≤ h.length
    · exact List.prefix_of_prefix_length_le hpre (List.prefix_append h t) hlen
    · obtain ⟨u, rfl⟩ := List.prefix_of_prefix_length_le (List.prefix_append h t) hpre (by omega)
      rcases ht with ht | ht
      · simp [ht] at hlen
      · cases u with
        | nil => simp
        | cons x u =>
          have hx := ht x (((List.prefix_append_right_inj h).mp hpre).subset List.mem_cons_self)
          exact absurd rfl ((List.nodup_append.mp hs).2.2 x hx x List.mem_cons_self)
  · exact fun hpre => hpre.trans (List.prefix_append h t)

end Selection

/-! ### makehdmap -/

def hdmapSize : Nat := 65536

/-- What `makehdmap` finds besides `/proc/partitions`. -/
structure RestoreDir where
  revonospc : Bool
  outdir : Option (List Byte)
  /-- the number in a size file of the image directory, by name -/
  sizeTxt : List Byte → Option Nat
  /-- the line buffer before the first read -/
  junk : List Byte

def sizeName (major minor : Nat) : List Byte :=
  ascii "size" ++ hex2 false major ++ hex2 false minor ++ ascii ".txt"

/-- Whether `checkhdspace` returns; it waits forever for a disk that is too small. -/
def checkhdspace (r : RestoreDir) (major minor sect : Nat) : Bool :=
  r.revonospc ||
  match r.sizeTxt (sizeName major minor) with
  | none => true
  | some orig => decide (orig ≤ sect)

/-- The test for a whole disk, and the major number that it leaves: `major = 253`
in its second part assigns. -/
def hdmapTest (major minor : Nat) : Bool × Nat :=
  if (major == 3 || major == 22 || major == 33 || major == 34) && minor % 64 == 0 then (true, major)
  else if major == 8 || major == 65 || major == 252 then (minor % 16 == 0, major)
  else (minor % 16 == 0, 253)

def hdPath (r : RestoreDir) (name : List Byte) : List Byte :=
  match r.outdir with
  | some dir => dir ++ ascii "/" ++ name
  | none => devPath name

/-- One line. The result is `none` when the program stops or leaves its table. -/
def makehdmapLine (r : RestoreDir) (hdmap : List (List Byte)) (line : List Byte) : Option (List (List Byte)) :=
  match scanLine line with
  | none => some hdmap
  | some q =>
    let minor := storeUnsigned q.minor
    let t := hdmapTest (storeUnsigned q.major) minor
    if t.1 then
      if checkhdspace r t.2 minor (storeUnsigned q.blocks) && decide (hdmap.length < hdmapSize) then
        some (hdmap ++ [hdPath r q.name])
      else none
    else some hdmap

/-- The loop reads until the end-of-file flag is up; a failed read keeps the old line. -/
def makehdmapLoop (r : RestoreDir) : Nat → TextFile → List Byte → List (List Byte) → Option (List (List Byte))
  | 0, _, _, hdmap => some hdmap
  | fuel + 1, f, line, hdmap =>
    if f.eof then some hdmap
    else
      let g := f.fgets 255
      let line := g.1.getD line
      (makehdmapLine r hdmap line).bind (makehdmapLoop r fuel g.2 line)

def makehdmap (r : RestoreDir) (partitions : List Byte) : Option (List (List Byte)) :=
  makehdmapLoop r (partitions.length + 2) (openText partitions) r.junk []

/-- The line that is read twice: the last one, unless the file ends inside it. -/
def repeated (junk : List Byte) (p : List (List Byte) × Bool) : List (List Byte) :=
  if p.2 then [] else [p.1.getLast?.getD junk]

theorem makehdmapLoop_eq (r : RestoreDir) {fuel : Nat} {f : TextFile} (line : List Byte)
    (hdmap : List (List Byte)) (hf : f.Sound) (hfuel : f.rest.length + 2 ≤ fuel) :
    makehdmapLoop r fuel f line hdmap =
      ((readAll 255 f.rest.length f).1 ++ repeated line (readAll 255 f.rest.length f)).foldlM
        (makehdmapLine r) hdmap := by
  induction fuel generalizing f line hdmap with
  | zero => omega
  | succ fuel ih =>
    by_cases he : f.eof = true
    · simp [makehdmapLoop, he, hf he, readAll, repeated]
    · cases hg : f.fgets 255 with
      | mk l f' =>
        cases l with
        | none =>
          have hr : f.rest = [] := fgets_none_iff.mp (by rw [hg])
          have hf' : f'.eof = true := by
            rw [TextFile.fgets, if_pos hr, Prod.mk.injEq] at hg
            rw [← hg.2]
          obtain ⟨n, rfl⟩ := Nat.exists_eq_add_of_le (by omega : 1 ≤ fuel)
          have hstop : ∀ m, makehdmapLoop r (1 + n) f' line m = some m := by
            intro m
            rw [Nat.add_comm, makehdmapLoop, if_pos hf']
          have hread : readAll 255 f.rest.length f = ([], false) := by
            rw [hr]
            simp [readAll, he]
          rw [makehdmapLoop, if_neg he, hread]
          simp only [hg, Option.getD_none, repeated, List.getLast?_nil, List.nil_append,
            Bool.false_eq_true, if_false]
          rw [funext hstop, List.foldlM_cons]
          simp
        | some l =>
          have hlt := fgets_rest_lt (by norm_num) hg
          have hall := readAll_cons (by norm_num) hg
          rw [makehdmapLoop, if_neg he, hall]
          simp only [hg, Option.getD_some, List.cons_append, List.foldlM_cons]
          have hrep : repeated line (l :: (readAll 255 f'.rest.length f').1,
              (readAll 255 f'.rest.length f').2) = repeated l (readAll 255 f'.rest.length f') := by
            simp only [repeated, List.getLast?_cons, Option.getD_some]
          rw [hrep]
          cases makehdmapLine r hdmap l with
          | none => rfl
          | some m => exact ih l m (fgets_sound hf hg) (by omega)

/-- The `(major = 253)` in the test makes it one on the minor number only. -/
theorem hdmapTest_hit (major minor : Nat) : (hdmapTest major minor).1 = (minor % 16 == 0) := by
  simp only [hdmapTest]
  split
  · rename_i h
    have hm : minor % 64 = 0 := by simpa using (Bool.and_eq_true_iff.mp h).2
    simp only [Bool.true_eq, beq_iff_eq]
    omega
  · split <;> rfl

def ProcLine.hit (q : ProcLine) : Bool := storeUnsigned q.minor % 16 == 0

/-- The size check for a line passes. -/
def ProcLine.fits (r : RestoreDir) (q : ProcLine) : Bool :=
  checkhdspace r (hdmapTest (storeUnsigned q.major) (storeUnsigned q.minor)).2 (storeUnsigned q.minor)
    (storeUnsigned q.blocks)

theorem makehdmapLine_eq (r : RestoreDir) (hdmap : List (List Byte)) (line : List Byte) :
    makehdmapLine r hdmap line =
      ((scanLine line).toList.filter ProcLine.hit).foldlM
        (fun h q => if q.fits r && decide (h.length < hdmapSize) then some (h ++ [hdPath r q.name])
          else none) hdmap := by
  cases hq : scanLine line with
  | none => simp [makehdmapLine, hq]
  | some q => cases hh : q.hit <;> simp_all [makehdmapLine, hdmapTest_hit, ProcLine.hit,
      ProcLine.fits]

theorem foldlM_makehdmapLine (r : RestoreDir) (lines : List (List Byte))
    (hdmap : List (List Byte)) :
    lines.foldlM (makehdmapLine r) hdmap =
      ((lines.filterMap scanLine).filter ProcLine.hit).foldlM
        (fun h q => if q.fits r && decide (h.length < hdmapSize) then some (h ++ [hdPath r q.name])
          else none) hdmap := by
  induction lines generalizing hdmap with
  | nil => rfl
  | cons line lines ih =>
    have hcons : (List.filterMap scanLine (line :: lines)) =
        (scanLine line).toList ++ lines.filterMap scanLine := by
      rw [List.filterMap_cons]
      cases scanLine line <;> rfl
    rw [List.foldlM_cons, hcons, List.filter_append, List.foldlM_append, makehdmapLine_eq]
    exact bind_congr fun h => ih h

theorem foldlM_hits (r : RestoreDir) (hits : List ProcLine) (hdmap map : List (List Byte)) :
    hits.foldlM
        (fun h q => if q.fits r && decide (h.length < hdmapSize) then some (h ++ [hdPath r q.name])
          else none) hdmap =
      some map ↔
    (∀ q ∈ hits, q.fits r = true) ∧ (hits = [] ∨ hdmap.length + hits.length ≤ hdmapSize) ∧
      map = hdmap ++ hits.map (fun q => hdPath r q.name) := by
  induction hits generalizing hdmap with
  | nil => simpa using eq_comm
  | cons q hits ih =>
    by_cases hq : (q.fits r && decide (hdmap.length < hdmapSize)) = true
    · rw [List.foldlM_cons, if_pos hq, Option.bind_eq_bind, Option.bind_some, ih]
      obtain ⟨hfit, hlt⟩ := Bool.and_eq_true_iff.mp hq
      have hlt := of_decide_eq_true hlt
      have hmap : hdmap ++ [hdPath r q.name] ++ hits.map (fun q => hdPath r q.name) =
          hdmap ++ (q :: hits).map (fun q => hdPath r q.name) := by
        rw [List.append_assoc, List.singleton_append, List.map_cons]
      have hlen : (hits = [] ∨ (hdmap ++ [hdPath r q.name]).length + hits.length ≤ hdmapSize) ↔
          (q :: hits = [] ∨ hdmap.length + (q :: hits).length ≤ hdmapSize) := by
        rw [List.length_append, List.length_singleton, List.length_cons]
        constructor
        · rintro (rfl | h)
          · exact .inr (by rw [List.length_nil]; omega)
          · exact .inr (by omega)
        · rintro (h | h)
          · simp at h
          · exact .inr (by omega)
      rw [hmap, hlen, List.forall_mem_cons]
      exact and_congr_left fun _ => ⟨fun h => ⟨hfit, h⟩, fun h => h.2⟩
    · rw [List.foldlM_cons, if_neg hq, Option.bind_eq_bind, Option.bind_none]
      simp only [reduceCtorEq, false_iff, List.forall_mem_cons, List.length_cons, false_or]
      rintro ⟨⟨hfit, -⟩, hlen, -⟩
      apply hq
      rw [hfit, Bool.true_and, decide_eq_true_eq]
      omega

/-- The entries that the test hits, the repeated last one included. -/
def hits (junk partitions : List Byte) : List ProcLine :=
  (procLines partitions ++
    (repeated junk (readAll 255 partitions.length (openText partitions))).filterMap scanLine).filter ProcLine.hit

theorem makehdmap_eq_some_iff (r : RestoreDir) (partitions : List Byte) (map : List (List Byte)) :
    makehdmap r partitions = some map ↔
      (∀ q ∈ hits r.junk partitions, q.fits r = true) ∧ (hits r.junk partitions).length ≤ hdmapSize ∧
        map = (hits r.junk partitions).map (fun q => hdPath r q.name) := by
  have hnil : ∀ l : List ProcLine, (l = [] ∨ l.length ≤ hdmapSize) ↔ l.length ≤ hdmapSize := by
    intro l
    constructor
    · rintro (rfl | h)
      · simp
      · exact h
    · exact .inr
  have hloop := makehdmapLoop_eq r r.junk [] (openText_sound partitions) le_rfl
  rw [show (openText partitions).rest = partitions from rfl] at hloop
  rw [makehdmap, hloop, foldlM_makehdmapLine,
    List.filterMap_append, foldlM_hits]
  simp only [List.length_nil, Nat.zero_add, List.nil_append, hnil]
  rfl

/-! ### The numbers of the backup -/

/-- The entries that get a disk number, logical volumes apart. -/
def Machine.isDisk (m : Machine) (p : PartInfo) : Bool := (m.numbers false p).isSome

/-- Device mapper nodes carry one of the dynamic major numbers. -/
def Machine.MapperMajors (m : Machine) : Prop :=
  ∀ p ∈ m.entries, isMapperName p.device = true → 240 ≤ p.major ∧ p.major ≤ 254

theorem wholeDisk_mapper {p : PartInfo} (hm : isMapperName p.device = true)
    (h : 240 ≤ p.major ∧ p.major ≤ 254) : wholeDisk p = false := by
  have hne : ∀ k : Int, k < 240 → (p.major == k) = false := by
    intro k hk
    rw [beq_eq_false_iff_ne]
    omega
  have h1 : decide (p.major ≤ 79) = false := by
    rw [decide_eq_false_iff_not]
    omega
  have h2 : decide (p.major ≤ 111) = false := by
    rw [decide_eq_false_iff_not]
    omega
  simp [wholeDisk, hne, h1, h2, hm]

theorem Machine.numbers_eq {m : Machine} {p : PartInfo}
    (h : isMapperName p.device = true → 240 ≤ p.major ∧ p.major ≤ 254) (lvm : Bool) :
    m.numbers lvm p = m.numbers false p := by
  cases hm : isMapperName p.device with
  | false => simp [Machine.numbers, hm]
  | true =>
    have hw := wholeDisk_mapper hm (h hm)
    cases lvm <;> simp [Machine.numbers, hm, hw]
    split <;> rfl

/-- Without a `hdmap` file the disks are numbered from 128 in the order of their entries. -/
theorem save_disks {m : Machine} {o : SaveOptions} (ho : o.hdmap = none) (hm : m.MapperMajors) :
    (save m o).disks.map (fun d => (d.dnum, d.part)) =
      (m.entries.filter m.isDisk).zipIdx.map (fun x => (128 + (x.2 : Int), x.1)) := by
  have hrun : (∀ p ∈ m.entries, isMapperName p.device = true → 240 ≤ p.major ∧ p.major ≤ 254) →
      (save m o).bios = ⟨((m.entries.filter m.isDisk).length : Int) - 1, none⟩ ∧
      (save m o).disks.map (fun d => (d.dnum, d.part)) =
      (m.entries.filter m.isDisk).zipIdx.map (fun x => (128 + (x.2 : Int), x.1)) := by
    refine save_induction
      (P := fun ps st => (∀ p ∈ ps, isMapperName p.device = true → 240 ≤ p.major ∧ p.major ≤ 254) →
        st.bios = ⟨((ps.filter m.isDisk).length : Int) - 1, none⟩ ∧
        st.disks.map (fun d => (d.dnum, d.part)) =
          (ps.filter m.isDisk).zipIdx.map (fun x => (128 + (x.2 : Int), x.1)))
      (fun _ => by simp [SaveState.start, SaveState.disks, ho]) (fun ps p st ih ht hps => ?_)
    obtain ⟨hb, hd⟩ := ih fun p hp => hps p (List.mem_append_left _ hp)
    have heq := m.numbers_eq (hps p (by simp)) st.shouldBackupLvm
    cases hn : m.numbers false p with
    | none =>
      obtain ⟨hb', -⟩ := ht.other (heq.trans hn)
      have hd' := ht.disks
      rw [heq.trans hn] at hd'
      simp only [Option.map_none, Option.toList_none, List.append_nil] at hd'
      have hp : m.isDisk p = false := by simp [Machine.isDisk, hn]
      rw [hb', hd', List.filter_append, List.filter_singleton, hp]
      simpa using ⟨hb, hd⟩
    | some size =>
      obtain ⟨hb', -⟩ := ht.numbered size (heq.trans hn)
      have hd' := ht.disks
      rw [heq.trans hn] at hd'
      simp only [Option.map_some, Option.toList_some] at hd'
      have hp : m.isDisk p = true := by simp [Machine.isDisk, hn]
      rw [hb', hd', List.filter_append, List.filter_singleton, hp, hb, List.map_append, hd]
      refine ⟨by simp [gethdbios], ?_⟩
      simp [gethdbios, List.zipIdx_append]
      omega
  exact (hrun hm).2

/-! ### Agreement -/

/-- A line of `/proc/partitions` whose device the backup numbers. -/
def Machine.numbered (m : Machine) (q : ProcLine) : Bool := !isDmName q.name && m.isDisk q.info

theorem mapperEntry_isMapperName {src : PartSource} {name : List Byte} {p : PartInfo}
    (h : mapperEntry src name = some p) : isMapperName p.device = true := by
  have hpre : isMapperName ((ascii "mapper/" ++ name).take 254) = true := by
    rw [isMapperName, List.isPrefixOf_iff_prefix, List.take_append]
    exact List.prefix_append _ _
  simp only [mapperEntry] at h
  split at h
  · simp at h
  · split at h
    · simp at h
    · split at h
      · rw [← Option.some.inj h]
        exact hpre
      · simp at h

theorem isDisk_of_mapperName {m : Machine} {p : PartInfo} (h : isMapperName p.device = true) :
    m.isDisk p = false := by
  simp [Machine.isDisk, Machine.numbers, h]

theorem entries_isDisk (m : Machine) :
    m.entries.filter m.isDisk = ((procLines m.partitions).filter m.numbered).map ProcLine.info := by
  have hmap : ((m.mapperDir.getD []).filterMap (mapperEntry m.toPartSource)).filter m.isDisk =
      [] := by
    rw [List.filter_eq_nil_iff]
    intro p hp
    obtain ⟨name, -, hname⟩ := List.mem_filterMap.mp hp
    simp [isDisk_of_mapperName (mapperEntry_isMapperName hname)]
  have hfile : m.entries = fileEntries (openText m.partitions) ++
      (m.mapperDir.getD []).filterMap (mapperEntry m.toPartSource) := rfl
  rw [hfile, List.filter_append, hmap, List.append_nil]
  show List.filter m.isDisk (((procLines m.partitions).filter _).map ProcLine.info) = _
  rw [List.filter_map, List.filter_filter]
  congr 1
  exact List.filter_congr fun q _ => by simp [Machine.numbered, Bool.and_comm]

theorem readAll_fst_eq_nil {content : List Byte}
    (h : (readAll 255 content.length (openText content)).1 = []) : content = [] := by
  cases content with
  | nil => rfl
  | cons c s => simp [readAll, openText, TextFile.fgets] at h

theorem repeated_subset (junk content : List Byte) (h : content ≠ []) :
    ∀ l ∈ repeated junk (readAll 255 content.length (openText content)),
      l ∈ (readAll 255 content.length (openText content)).1 := by
  intro l hl
  have hne := mt readAll_fst_eq_nil h
  rw [repeated] at hl
  split at hl
  · simp at hl
  · rw [List.mem_singleton, List.getLast?_eq_some_getLast hne, Option.getD_some] at hl
    rw [hl]
    exact List.getLast_mem hne

/-- The k-th disk of the backup is the k-th device of the table. -/
def NumberingAgrees (m : Machine) (o : SaveOptions) (r : RestoreDir) : Prop :=
  ∃ map, makehdmap r m.partitions = some map ∧
    ∀ (k : Nat) (d : NumberedDisk), (save m o).disks[k]? = some d →
      d.dnum = 128 + (k : Int) ∧ map[k]? = some (devPath d.part.device)

theorem devPath_injective : Function.Injective devPath := fun _ _ h => List.append_cancel_left h

theorem numberingAgrees_iff_initial {m : Machine} {o : SaveOptions} {r : RestoreDir}
    (ho : o.hdmap = none) (hmapper : m.MapperMajors) :
    NumberingAgrees m o r ↔ ∃ map, makehdmap r m.partitions = some map ∧
      ((procLines m.partitions).filter m.numbered).map (fun q => devPath q.name) <+: map := by
  refine exists_congr fun map => and_congr_right fun _ => ?_
  have hdisks := save_disks ho hmapper
  rw [entries_isDisk] at hdisks
  generalize (procLines m.partitions).filter m.numbered = lines at hdisks
  have hkth : ∀ k : Nat, (save m o).disks[k]?.map (fun d => (d.dnum, d.part)) =
      lines[k]?.map (fun q => (128 + (k : Int), q.info)) := by
    intro k
    have h := congrArg (fun l => l[k]?) hdisks
    simpa [List.getElem?_zipIdx, Function.comp_def] using h
  simp only [List.prefix_iff_getElem?, List.length_map, List.getElem_map]
  constructor
  · intro h k hk
    have hd := hkth k
    rw [List.getElem?_eq_getElem hk, Option.map_some, Option.map_eq_some_iff] at hd
    obtain ⟨d, hd, heq⟩ := hd
    rw [(h k d hd).2, (Prod.mk.inj heq).2]
    rfl
  · intro h k d hd
    have hq := hkth k
    rw [hd, Option.map_some, eq_comm, Option.map_eq_some_iff] at hq
    obtain ⟨q, hq, heq⟩ := hq
    obtain ⟨hk, rfl⟩ := List.getElem?_eq_some_iff.mp hq
    obtain ⟨hnum, hpart⟩ := Prod.mk.inj heq
    exact ⟨hnum.symm, by rw [h k hk, ← hpart]; rfl⟩

/-- The table agrees with the numbers of the backup exactly if no size check stops
the program, and up to the last numbered disk the numbered entries are those whose
minor number is a multiple of 16. -/
theorem disk_numbering_agrees_iff {m : Machine} {o : SaveOptions} {r : RestoreDir} (ho : o.hdmap = none)
    (hr : r.outdir = none) (hmapper : m.MapperMajors) (hnames : ((procLines m.partitions).map ProcLine.name).Nodup) :
    NumberingAgrees m o r ↔
      ((∀ q ∈ hits r.junk m.partitions, q.fits r = true) ∧ (hits r.junk m.partitions).length ≤ hdmapSize) ∧
      (∀ q ∈ procLines m.partitions, m.numbered q = true → q.hit = true) ∧
      (procLines m.partitions).Pairwise
        (fun q q' => m.numbered q' = true → q.hit = true → m.numbered q = true) := by
  have hpath : hdPath r = devPath := by
    funext name
    rw [hdPath, hr]
  have hpaths : ((procLines m.partitions).map (fun q => devPath q.name)).Nodup := by
    have h := hnames.map devPath_injective
    rwa [List.map_map] at h
  rw [numberingAgrees_iff_initial ho hmapper, ← filter_prefix_filter_iff _ _ _ hpaths]
  have hrep : ((procLines m.partitions).filter m.numbered).map (fun q => devPath q.name) <+:
      (hits r.junk m.partitions).map (fun q => devPath q.name) ↔
      ((procLines m.partitions).filter m.numbered).map (fun q => devPath q.name) <+:
      ((procLines m.partitions).filter ProcLine.hit).map (fun q => devPath q.name) := by
    rw [hits, List.filter_append, List.map_append]
    refine prefix_append_iff_of_nodup ((List.filter_sublist.map _).nodup hpaths) ?_
    by_cases hc : m.partitions = []
    · left
      rw [hc]
      rfl
    · right
      intro x hx
      obtain ⟨q, hq, rfl⟩ := List.mem_map.mp hx
      obtain ⟨hq, hhit⟩ := List.mem_filter.mp hq
      obtain ⟨l, hl, hscan⟩ := List.mem_filterMap.mp hq
      have hmem : q ∈ procLines m.partitions :=
        List.mem_filterMap.mpr ⟨l, repeated_subset r.junk m.partitions hc l hl, hscan⟩
      exact List.mem_map_of_mem (List.mem_filter.mpr ⟨hmem, hhit⟩)
  constructor
  · rintro ⟨map, hmap, hpre⟩
    obtain ⟨h1, h2, rfl⟩ := (makehdmap_eq_some_iff r m.partitions map).mp hmap
    rw [hpath] at hpre
    exact ⟨⟨h1, h2⟩, hrep.mp hpre⟩
  · rintro ⟨⟨h1, h2⟩, hpre⟩
    refine ⟨_, (makehdmap_eq_some_iff r m.partitions _).mpr ⟨h1, h2, rfl⟩, ?_⟩
    rw [hpath]
    exact hrep.mpr hpre

/-- The size files of a fresh image directory, default options. -/
def plainRestore : RestoreDir := ⟨false, none, fun _ => none, []⟩

def sdaDev : List Byte → Option BlockDev := fun path =>
  if path = ascii "/dev/sda" then some ⟨some 0, 400000, none⟩
  else if path = ascii "/dev/sda1" then some ⟨some 63, 399937, none⟩
  else if path = ascii "/dev/loop0" then some ⟨none, 131072, none⟩
  else none

/-- A machine whose block devices are the given lines. -/
def diskMachine (lines : List Byte) : Machine where
  partitions := ascii "major minor  #blocks  name\n\n" ++ lines
  mapperDir := none
  lstat := fun _ => none
  openDev := sdaDev
  sfdisk := fun _ _ => 0x83
  probe := fun t _ => t == .e2fs

def sdaLines : List Byte := ascii "   8        0     200000 sda\n   8        1     199968 sda1\n"

def loopLines : List Byte := ascii "   7        0      65536 loop0\n"

theorem disk_numbering_agrees_one_disk :
    NumberingAgrees (diskMachine sdaLines) plainSave plainRestore :=
  (disk_numbering_agrees_iff rfl rfl (by unfold Machine.MapperMajors; decide +kernel)
    (by decide +kernel)).mpr
    ⟨⟨by decide +kernel, by decide +kernel⟩, by decide +kernel, by decide +kernel⟩

/-- A loop device in front of the only disk takes its place in the table. -/
theorem disk_numbering_shifted_by_loop :
    ¬ NumberingAgrees (diskMachine (loopLines ++ sdaLines)) plainSave
      plainRestore := by
  rintro ⟨map, hmap, h⟩
  have htable : makehdmap plainRestore (diskMachine (loopLines ++ sdaLines)).partitions =
      some [ascii "/dev/loop0", ascii "/dev/sda"] := by decide +kernel
  have hdisk : (save (diskMachine (loopLines ++ sdaLines)) plainSave).disks[0]? =
      some ⟨128, ⟨ascii "sda", 8, 0⟩, 400000⟩ := by decide +kernel
  rw [htable, Option.some.injEq] at hmap
  have h0 := (h 0 _ hdisk).2
  rw [← hmap] at h0
  exact absurd h0 (by decide +kernel)

end PulseImaging
