import PulseImaging.ConfText
import PulseImaging.SmbiosTable

/-! The SMBIOS part of the inventory: five getters that share one iterator, and
the text that `init_bios_info` makes of what they return. -/

namespace PulseImaging

structure SmbiosState where
  mem : List Byte
  ptr : Option (Nat × Nat)

/-- The local pointers of `init_bios_info`. -/
structure InfoPointers where
  p1 : Pointer
  p2 : Pointer
  p3 : Pointer
  p4 : Pointer
  p : Pointer

structure MemoryInfo where
  size : Int
  form : Nat
  location : Pointer
  type : Nat
  speed : Nat

def wordAt (mem : List Byte) (a : Nat) : Nat := (byteAt mem a).toNat + 256 * (byteAt mem (a + 1)).toNat

def hexPair (b : Byte) : List Byte := [hexDigit true (b.toNat / 16), hexDigit true (b.toNat % 16)]

section

variable (smbiosVer smbiosLen smbiosNum : Nat)

/-- `smbios_string(ptr, ptr[k])` -/
def stringField (mem : List Byte) (dm k : Nat) : Pointer × List Byte := smbiosString mem dm (byteAt mem (dm + k)).toNat

def smbiosGetBiosinfo (st : SmbiosState) (q : InfoPointers) : InfoPointers × SmbiosState :=
  match smbiosGet st.mem smbiosLen smbiosNum 0 st.ptr with
  | (none, ptr) => (q, ⟨st.mem, ptr⟩)
  | (some dm, ptr) =>
    let r1 := stringField st.mem dm 4
    let r2 := stringField r1.2 dm 5
    let r3 := stringField r2.2 dm 8
    ({ q with p1 := r1.1, p2 := r2.1, p3 := r3.1 }, ⟨r3.2, ptr⟩)

def smbiosGetSysinfo (st : SmbiosState) (q : InfoPointers) : InfoPointers × SmbiosState :=
  match smbiosGet st.mem smbiosLen smbiosNum 1 st.ptr with
  | (none, ptr) => (q, ⟨st.mem, ptr⟩)
  | (some dm, ptr) =>
    let r1 := stringField st.mem dm 4
    let r2 := stringField r1.2 dm 5
    let r3 := stringField r2.2 dm 6
    let r4 := stringField r3.2 dm 7
    (⟨r1.1, r2.1, r3.1, r4.1, .addr (dm + 8)⟩, ⟨r4.2, ptr⟩)

def smbiosGetEnclosure (st : SmbiosState) (q : InfoPointers) : InfoPointers × SmbiosState :=
  match smbiosGet st.mem smbiosLen smbiosNum 3 st.ptr with
  | (none, ptr) => (q, ⟨st.mem, ptr⟩)
  | (some dm, ptr) =>
    let r1 := stringField st.mem dm 4
    ({ q with p1 := r1.1, p2 := .addr (dm + 5) }, ⟨r1.2, ptr⟩)

def smbiosGetMemory (st : SmbiosState) : Option MemoryInfo × SmbiosState :=
  match smbiosGet st.mem smbiosLen smbiosNum 17 st.ptr with
  | (none, ptr) => (none, ⟨st.mem, ptr⟩)
  | (some dm, ptr) =>
    let size := wordAt st.mem (dm + 0xC)
    let r := stringField st.mem dm 0x10
    (some
      { size := if size &&& 0x8000 ≠ 0 then ((size &&& 0x7FFF : Nat) : Int) * -1 else size
        form := (byteAt st.mem (dm + 0xE)).toNat
        location := r.1
        type := (byteAt r.2 (dm + 0x12)).toNat ||| ((byteAt r.2 (dm + 0x14)).toNat <<< 8) |||
          ((byteAt r.2 (dm + 0x13)).toNat <<< 16)
        speed := if 23 ≤ smbiosVer then wordAt r.2 (dm + 0x15) else 0 }, ⟨r.2, ptr⟩)

def numcpuLoop (mem : List Byte) : Nat → Option (Nat × Nat) → Option Nat
  | 0, _ => none
  | fuel + 1, ptr =>
    match smbiosGet mem smbiosLen smbiosNum 4 ptr with
    | (none, _) => some 0
    | (some _, ptr) => (numcpuLoop mem fuel ptr).map (· + 1)

/-- `smbios_get(-1, NULL)` sets the iterator back first. -/
def smbiosGetNumcpu (mem : List Byte) : Option Nat :=
  (numcpuLoop smbiosLen smbiosNum mem (smbiosNum + 1) none).map (fun num => if num = 0 then 1 else num)

/-! ### The text -/

def biosLine (p1 p2 p3 : List Byte) : List Byte :=
  ascii "S0:" ++ p1 ++ ascii "|" ++ p2 ++ ascii "|" ++ p3 ++ newline

def sysLine (p1 p2 p3 p4 : List Byte) : List Byte :=
  ascii "S1:" ++ p1 ++ ascii "|" ++ p2 ++ ascii "|" ++ p3 ++ ascii "|" ++ p4 ++ ascii "|"

def uuidText (p : List Byte) : List Byte :=
  if 20 ≤ smbiosVer then (List.range 16).flatMap (fun i => hexPair (byteAt p i)) else ascii "uuid no"

def enclosureLine (p1 : List Byte) (p2 : Byte) : List Byte :=
  newline ++ ascii "S3:" ++ p1 ++ ascii "|" ++ decimal (p2.toNat &&& 0x7F) ++ newline

def memoryLine (i1 : Int) (i2 : Nat) (p1 : List Byte) (i3 i4 : Nat) : List Byte :=
  ascii "SM:" ++ printInt i1 ++ ascii ":" ++ hexText i2 ++ ascii ":" ++ p1 ++ ascii ":" ++ hexText i3 ++ ascii ":" ++
    decimal i4 ++ newline

def cpuLine (num : Nat) : List Byte := ascii "S4:" ++ decimal num ++ newline

def memoryLoop : Nat → SmbiosState → Option (List Byte × SmbiosState)
  | 0, _ => none
  | fuel + 1, st =>
    match smbiosGetMemory smbiosVer smbiosLen smbiosNum st with
    | (none, st) => some ([], st)
    | (some m, st) =>
      (memoryLoop fuel st).map
        (fun r => (memoryLine m.size m.form (cstr (m.location.deref st.mem)) m.type m.speed ++ r.1, r.2))

/-- The text from the `S0` line to the `S4` line. -/
def smbiosInfos (mem : List Byte) (q : InfoPointers) : Option (List Byte) :=
  let r0 := smbiosGetBiosinfo smbiosLen smbiosNum ⟨mem, none⟩ q
  let s0 := biosLine (cstr (r0.1.p1.deref r0.2.mem)) (cstr (r0.1.p2.deref r0.2.mem)) (cstr (r0.1.p3.deref r0.2.mem))
  let r1 := smbiosGetSysinfo smbiosLen smbiosNum r0.2 r0.1
  let s1 := sysLine (cstr (r1.1.p1.deref r1.2.mem)) (cstr (r1.1.p2.deref r1.2.mem)) (cstr (r1.1.p3.deref r1.2.mem))
    (cstr (r1.1.p4.deref r1.2.mem)) ++ uuidText smbiosVer (r1.1.p.deref r1.2.mem)
  let r3 := smbiosGetEnclosure smbiosLen smbiosNum r1.2 r1.1
  let s3 := enclosureLine (cstr (r3.1.p1.deref r3.2.mem)) (byteAt (r3.1.p2.deref r3.2.mem) 0)
  (memoryLoop smbiosVer smbiosLen smbiosNum (smbiosNum + 1) r3.2).bind (fun m =>
    (smbiosGetNumcpu smbiosLen smbiosNum m.2.mem).map (fun num => s0 ++ s1 ++ s3 ++ m.1 ++ cpuLine num))

end

/-! ### What is seen -/

def SmbiosStruct.field (s : SmbiosStruct) (k : Nat) : Byte := s.fields.getD (k - 4) 0

/-- The number of the string that the field at `k` refers to. -/
def SmbiosStruct.stringNo (s : SmbiosStruct) (k : Nat) : Nat := (s.field k).toNat

def SmbiosStruct.word (s : SmbiosStruct) (k : Nat) : Nat := (s.field k).toNat + 256 * (s.field (k + 1)).toNat

/-- The formatted area has the fields that are read; those of later versions are there from that version on. -/
structure SmbiosStruct.WellFormed (smbiosVer : Nat) (s : SmbiosStruct) : Prop extends s.Formed where
  bios_length : s.type.toNat = 0 → 9 ≤ s.length
  sys_length : s.type.toNat = 1 → 8 ≤ s.length
  sys_uuid : s.type.toNat = 1 → 21 ≤ smbiosVer → 24 ≤ s.length
  enclosure_length : s.type.toNat = 3 → 6 ≤ s.length
  memory_length : s.type.toNat = 17 → 21 ≤ s.length
  memory_speed : s.type.toNat = 17 → 23 ≤ smbiosVer → 23 ≤ s.length

/-- The next structure of the type and those behind it; without one the next search is over the whole table. -/
def search (k : Nat) (T S : List SmbiosStruct) : Option SmbiosStruct × List SmbiosStruct :=
  match S.dropWhile (fun s => s.type.toNat != k) with
  | [] => (none, T)
  | s :: R => (some s, R)

theorem search_cases (k : Nat) (T S : List SmbiosStruct) :
    ((∀ s ∈ S, s.type.toNat ≠ k) ∧ search k T S = (none, T)) ∨
      ∃ Q s R, S = Q ++ s :: R ∧ (∀ q ∈ Q, q.type.toNat ≠ k) ∧ s.type.toNat = k ∧
        search k T S = (some s, R) := by
  have happend := List.takeWhile_append_dropWhile (p := fun s : SmbiosStruct => s.type.toNat != k)
    (l := S)
  cases hd : S.dropWhile (fun s => s.type.toNat != k) with
  | nil =>
    refine Or.inl ⟨fun s hs => ?_, by rw [search, hd]⟩
    simpa using List.dropWhile_eq_nil_iff.mp hd s hs
  | cons s R =>
    rw [hd] at happend
    refine Or.inr ⟨_, s, R, happend.symm, fun q hq => ?_, ?_, by rw [search, hd]⟩
    · simpa using List.mem_takeWhile_imp hq
    · have h := List.head?_dropWhile_not (fun s : SmbiosStruct => s.type.toNat != k) S
      rw [hd] at h
      simpa using h

/-- The bytes at the local pointers. -/
structure Shown where
  p1 : List Byte
  p2 : List Byte
  p3 : List Byte
  p4 : List Byte
  p : List Byte

/-- Pointers to bytes outside the table. -/
def Shown.pointers (g : Shown) : InfoPointers :=
  ⟨.elsewhere g.p1, .elsewhere g.p2, .elsewhere g.p3, .elsewhere g.p4, .elsewhere g.p⟩

def SmbiosStruct.shown (s : SmbiosStruct) (k : Nat) : List Byte := s.text (s.stringNo k) ++ [0]

def Shown.bios (g : Shown) : Option SmbiosStruct → Shown
  | none => g
  | some s => { g with p1 := s.shown 4, p2 := s.shown 5, p3 := s.shown 8 }

/-- The memory from the UUID on, behind it the structures `R`. -/
def uuidBytes (beyond : List Byte) (s : SmbiosStruct) (R : List SmbiosStruct) : List Byte :=
  ((s.dots [s.stringNo 4, s.stringNo 5, s.stringNo 6, s.stringNo 7]).encode ++ (encodeTable R ++ beyond)).drop 8

def Shown.sys (g : Shown) (beyond : List Byte) : Option SmbiosStruct × List SmbiosStruct → Shown
  | (none, _) => g
  | (some s, R) => ⟨s.shown 4, s.shown 5, s.shown 6, s.shown 7, uuidBytes beyond s R⟩

def Shown.enclosure (g : Shown) : Option SmbiosStruct → Shown
  | none => g
  | some s => { g with p1 := s.shown 4, p2 := [s.field 5] }

def SmbiosStruct.size (s : SmbiosStruct) : Int :=
  if s.word 0xC &&& 0x8000 ≠ 0 then ((s.word 0xC &&& 0x7FFF : Nat) : Int) * -1 else s.word 0xC

def SmbiosStruct.memoryText (smbiosVer : Nat) (s : SmbiosStruct) : List Byte :=
  memoryLine s.size (s.field 0xE).toNat (s.text (s.stringNo 0x10))
    ((s.field 0x12).toNat ||| ((s.field 0x14).toNat <<< 8) ||| ((s.field 0x13).toNat <<< 16))
    (if 23 ≤ smbiosVer then s.word 0x15 else 0)

def bioses (T : List SmbiosStruct) : Option SmbiosStruct × List SmbiosStruct := search 0 T T

def systems (T : List SmbiosStruct) : Option SmbiosStruct × List SmbiosStruct := search 1 T (bioses T).2

def enclosures (T : List SmbiosStruct) : Option SmbiosStruct × List SmbiosStruct := search 3 T (systems T).2

def memories (T : List SmbiosStruct) : List SmbiosStruct := (enclosures T).2.filter (fun s => s.type.toNat == 17)

def cpus (T : List SmbiosStruct) : Nat := T.countP (fun s => s.type.toNat == 4)

/-- The text as a function of the table and of what the local pointers show at first. -/
def inventory (smbiosVer : Nat) (beyond : List Byte) (T : List SmbiosStruct) (g : Shown) : List Byte :=
  let g0 := g.bios (bioses T).1
  let g1 := g0.sys beyond (systems T)
  let g3 := g1.enclosure (enclosures T).1
  biosLine (cstr g0.p1) (cstr g0.p2) (cstr g0.p3) ++
    (sysLine (cstr g1.p1) (cstr g1.p2) (cstr g1.p3) (cstr g1.p4) ++ uuidText smbiosVer g1.p) ++
    enclosureLine (cstr g3.p1) (byteAt g3.p2 0) ++ (memories T).flatMap (SmbiosStruct.memoryText smbiosVer) ++
    cpuLine (if cpus T = 0 then 1 else cpus T)

/-! ### Where the iterator stands -/

def Rewritten (s s' : SmbiosStruct) : Prop := ∃ l, s' = s.dots l

theorem Rewritten.refl (s : SmbiosStruct) : Rewritten s s := ⟨[], rfl⟩

theorem Rewritten.type {s s' : SmbiosStruct} (h : Rewritten s s') : s'.type = s.type := by
  obtain ⟨l, rfl⟩ := h
  exact s.dots_type l

theorem encodeTable_length_rewritten {S S' : List SmbiosStruct} (h : List.Forall₂ Rewritten S S') :
    (encodeTable S').length = (encodeTable S).length := by
  induction h with
  | nil => rfl
  | cons hs _ ih =>
    obtain ⟨l, rfl⟩ := hs
    rw [encodeTable_cons, encodeTable_cons, List.length_append, List.length_append,
      SmbiosStruct.dots_encode_length, ih]

theorem rewritten_append {P S X : List SmbiosStruct} (h : List.Forall₂ Rewritten (P ++ S) X) :
    ∃ P' S', X = P' ++ S' ∧ List.Forall₂ Rewritten P P' ∧ List.Forall₂ Rewritten S S' := by
  induction P generalizing X with
  | nil => exact ⟨[], X, rfl, List.Forall₂.nil, h⟩
  | cons p P ih =>
    obtain ⟨x, Y, hx, hY, rfl⟩ := List.forall₂_cons_left_iff.mp h
    obtain ⟨P', S', rfl, hP, hS⟩ := ih hY
    exact ⟨x :: P', S', rfl, List.Forall₂.cons hx hP, hS⟩

theorem rewritten_forall {P P' : List SmbiosStruct} {p : SmbiosStruct → Prop}
    (hp : ∀ s l, p s → p (s.dots l)) (h : List.Forall₂ Rewritten P P') (hP : ∀ s ∈ P, p s) :
    ∀ s ∈ P', p s := by
  induction h with
  | nil => exact fun s hs => nomatch hs
  | cons hs _ ih =>
    obtain ⟨l, rfl⟩ := hs
    exact List.forall_mem_cons.mpr ⟨hp _ l (hP _ List.mem_cons_self),
      ih fun s hs => hP s (List.mem_cons_of_mem _ hs)⟩

/-- The iterator is in front of the structures `S` of the table, which now read `S'`; at NULL in front of all of them. -/
def Positioned (T : List SmbiosStruct) (beyond : List Byte) (st : SmbiosState) (S S' : List SmbiosStruct) : Prop :=
  ∃ P P', T = P ++ S ∧ List.Forall₂ Rewritten P P' ∧ List.Forall₂ Rewritten S S' ∧
    st.mem = encodeTable (P' ++ S') ++ beyond ∧ (st.ptr = place P' S' ∨ P = [] ∧ st.ptr = none)

section

variable {T : List SmbiosStruct} {beyond : List Byte} {st : SmbiosState} {S S' : List SmbiosStruct} {k : Nat}

theorem positioned_start (T : List SmbiosStruct) (beyond : List Byte) :
    Positioned T beyond ⟨encodeTable T ++ beyond, none⟩ T T :=
  ⟨[], [], rfl, List.Forall₂.nil, List.forall₂_same.mpr fun s _ => Rewritten.refl s, rfl,
    Or.inr ⟨rfl, rfl⟩⟩

theorem smbiosGet_positioned {P P' : List SmbiosStruct} (hP : List.Forall₂ Rewritten P P')
    (hS : List.Forall₂ Rewritten S S') (hptr : st.ptr = place P' S' ∨ P = [] ∧ st.ptr = none)
    (mem : List Byte) (k : Nat) :
    smbiosGet mem (encodeTable (P ++ S)).length (P ++ S).length k st.ptr =
      smbiosGetLoop mem (encodeTable (P' ++ S')).length k S'.length (encodeTable P').length := by
  have hlength : (encodeTable (P' ++ S')).length = (encodeTable (P ++ S)).length := by
    rw [encodeTable_append, encodeTable_append, List.length_append, List.length_append,
      encodeTable_length_rewritten hP, encodeTable_length_rewritten hS]
  rw [hlength]
  rcases hptr with hptr | ⟨rfl, hptr⟩
  · rw [hptr]
    rfl
  · rw [hptr, List.forall₂_nil_left_iff.mp hP, smbiosGet, List.nil_append, hS.length_eq]
    rfl

/-- Without a structure of the type the iterator is at NULL afterwards. -/
theorem Positioned.get_none (h : Positioned T beyond st S S') (hT : ∀ s ∈ T, s.Formed)
    (hk : ∀ s ∈ S, s.type.toNat ≠ k) :
    smbiosGet st.mem (encodeTable T).length T.length k st.ptr = (none, none) ∧
      ∃ T', Positioned T beyond ⟨st.mem, none⟩ T T' := by
  obtain ⟨P, P', rfl, hP, hS, hmem, hptr⟩ := h
  have hf : ∀ s ∈ S', s.Formed :=
    rewritten_forall (fun s l hs => hs.dots l) hS fun s hs => hT s (List.mem_append_right _ hs)
  have hk' : ∀ s ∈ S', s.type.toNat ≠ k := rewritten_forall (fun s l hs => by rwa [s.dots_type]) hS hk
  refine ⟨?_, P' ++ S', [], [], rfl, List.Forall₂.nil, List.rel_append hP hS, hmem, Or.inr ⟨rfl, rfl⟩⟩
  rw [smbiosGet_positioned hP hS hptr, hmem, smbiosGetLoop_none hf beyond hk']

/-- The first structure of the type is returned; whatever strings of it are then rewritten, the
iterator is in front of the structures behind it. -/
theorem Positioned.get_some {Q R : List SmbiosStruct} {s : SmbiosStruct}
    (h : Positioned T beyond st (Q ++ s :: R) S') (hT : ∀ s ∈ T, s.Formed)
    (hQ : ∀ q ∈ Q, q.type.toNat ≠ k) (hs : s.type.toNat = k) :
    ∃ A Q' s' R' ptr, S' = Q' ++ s' :: R' ∧ Q'.length = Q.length ∧ Rewritten s s' ∧
      smbiosGet st.mem (encodeTable T).length T.length k st.ptr = (some A.length, ptr) ∧
      st.mem = A ++ (s'.encode ++ (encodeTable R' ++ beyond)) ∧
      ∀ l, Positioned T beyond ⟨A ++ ((s'.dots l).encode ++ (encodeTable R' ++ beyond)),
        ptr⟩ R R' := by
  obtain ⟨P, P', rfl, hP, hS, hmem, hptr⟩ := h
  obtain ⟨Q', X, rfl, hQQ, hX⟩ := rewritten_append hS
  obtain ⟨s', R', hss, hRR, rfl⟩ := List.forall₂_cons_left_iff.mp hX
  have hf : ∀ x ∈ Q' ++ s' :: R', x.Formed :=
    rewritten_forall (fun s l hs => hs.dots l) hS fun s hs => hT s (List.mem_append_right _ hs)
  have hQ' : ∀ q ∈ Q', q.type.toNat ≠ k := rewritten_forall
    (fun s l hs => by rwa [s.dots_type]) hQQ hQ
  have hs' : s'.type.toNat = k := by rw [hss.type, hs]
  refine ⟨encodeTable (P' ++ Q'), Q', s', R', place (P' ++ (Q' ++ [s'])) R', rfl,
    hQQ.length_eq.symm, hss, ?_, ?_, fun l => ?_⟩
  · rw [smbiosGet_positioned hP hS hptr, hmem, smbiosGetLoop_some hf beyond hQ' hs']
  · rw [hmem, ← List.append_assoc P', memory_split]
  · have hsplit : P ++ (Q ++ s :: R) = P ++ (Q ++ [s]) ++ R := by
      simp only [List.append_assoc, List.singleton_append]
    have hlast : Rewritten s (s'.dots l) := by
      obtain ⟨m, rfl⟩ := hss
      exact ⟨m ++ l, s.dots_dots m l⟩
    have hplace : (encodeTable (P' ++ (Q' ++ [s']))).length =
        (encodeTable (P' ++ (Q' ++ [s'.dots l]))).length := by
      simp only [← List.append_assoc, encodeTable_concat, List.length_append,
        SmbiosStruct.dots_encode_length]
    refine ⟨P ++ (Q ++ [s]), P' ++ (Q' ++ [s'.dots l]), hsplit,
      List.rel_append hP (List.rel_append hQQ (List.Forall₂.cons hlast List.Forall₂.nil)), hRR,
      ?_, Or.inl ?_⟩
    · have happend : P' ++ (Q' ++ [s'.dots l]) ++ R' = P' ++ Q' ++ s'.dots l :: R' := by
        simp only [List.append_assoc, List.singleton_append]
      rw [happend, memory_split]
    · rw [place, place, hplace]

/-! ### The getters -/

theorem byteAt_dots (s : SmbiosStruct) (l : List Nat) (A rest : List Byte) {k : Nat} (hk : 4 ≤ k)
    (hlt : k < s.length) :
    byteAt (A ++ ((s.dots l).encode ++ rest)) (A.length + k) = s.field k := by
  rw [byteAt_field hk (by rwa [s.dots_length]), s.dots_fields, SmbiosStruct.field]

theorem wordAt_dots (s : SmbiosStruct) (l : List Nat) (A rest : List Byte) {k : Nat} (hk : 4 ≤ k)
    (hlt : k + 1 < s.length) :
    wordAt (A ++ ((s.dots l).encode ++ rest)) (A.length + k) = s.word k := by
  rw [wordAt, byteAt_dots s l A rest hk (by omega), Nat.add_assoc,
    byteAt_dots s l A rest (by omega) hlt]
  rfl

theorem stringField_dots {s : SmbiosStruct} (hs : s.Formed) (l : List Nat) (A rest : List Byte)
    {k : Nat} (hk : 4 ≤ k) (hlt : k < s.length) :
    stringField (A ++ ((s.dots l).encode ++ rest)) A.length k =
      (s.pointer A.length (s.stringNo k), A ++ ((s.dots (l ++ [s.stringNo k])).encode ++ rest)) := by
  rw [stringField, byteAt_dots s l A rest hk hlt, smbiosString_encode (hs.dots l), s.dots_pointer,
    s.dots_concat]
  rfl

/-- A pointer shows the same as the bytes: as a string and in its first byte. -/
def Looks (mem : List Byte) (p : Pointer) (bytes : List Byte) : Prop :=
  cstr (p.deref mem) = cstr bytes ∧ byteAt (p.deref mem) 0 = byteAt bytes 0

theorem looks_elsewhere (mem bytes : List Byte) : Looks mem (.elsewhere bytes) bytes := ⟨rfl, rfl⟩

theorem looks_shown {s : SmbiosStruct} (hs : s.Formed) {l : List Nat} (A rest : List Byte)
    {k : Nat} (hk : s.stringNo k ∈ l) :
    Looks (A ++ ((s.dots l).encode ++ rest)) (s.pointer A.length (s.stringNo k)) (s.shown k) := by
  obtain ⟨x, hx⟩ := deref_pointer (s.dots l) A rest (s.stringNo k)
  rw [s.dots_pointer, s.dots_raw hk] at hx
  have hzero := raw_zero_free (hs.dots l) (s.stringNo k)
  rw [s.dots_raw hk] at hzero
  rw [Looks, hx, SmbiosStruct.shown, cstr_append_zero hzero, cstr_append_zero hzero]
  refine ⟨rfl, ?_⟩
  cases s.text (s.stringNo k) with
  | nil => rfl
  | cons b t => rfl

structure Shows (mem : List Byte) (q : InfoPointers) (g : Shown) : Prop where
  p1 : Looks mem q.p1 g.p1
  p2 : Looks mem q.p2 g.p2
  p3 : Looks mem q.p3 g.p3
  p4 : Looks mem q.p4 g.p4
  p : q.p.deref mem = g.p

variable {smbiosVer : Nat}

theorem getBiosinfo_shows (hT : ∀ s ∈ T, s.WellFormed smbiosVer) (beyond : List Byte) (g : Shown) :
    let r := smbiosGetBiosinfo (encodeTable T).length T.length ⟨encodeTable T ++ beyond,
      none⟩ g.pointers
    Shows r.2.mem r.1 (g.bios (bioses T).1) ∧ Positioned T beyond r.2 (bioses T).2 (bioses T).2 := by
  have hf : ∀ s ∈ T, s.Formed := fun s hs => (hT s hs).toFormed
  have hstart := positioned_start T beyond
  rcases search_cases 0 T T with ⟨hnone, hsearch⟩ | ⟨Q, s, R, hsplit, hQ, hs, hsearch⟩
  · have hget := (hstart.get_none hf hnone).1
    simp only [bioses, hsearch, smbiosGetBiosinfo, hget, Shown.bios]
    exact ⟨⟨looks_elsewhere _ _, looks_elsewhere _ _, looks_elsewhere _ _, looks_elsewhere _ _,
      rfl⟩, hstart⟩
  · have hstart' : Positioned T beyond ⟨encodeTable T ++ beyond, none⟩ (Q ++ s :: R) T :=
      hsplit ▸ hstart
    obtain ⟨A, Q', s', R', ptr, hsplit', hlength, -, hget, hmem, hafter⟩ := hstart'.get_some hf hQ hs
    obtain ⟨-, hsR⟩ := List.append_inj (hsplit.symm.trans hsplit') hlength.symm
    obtain ⟨rfl, rfl⟩ := List.cons.inj hsR
    have hw := hT s (hsplit ▸ List.mem_append_right _ List.mem_cons_self)
    have hlen := hw.bios_length hs
    have hmem' : encodeTable T ++ beyond = A ++ ((s.dots []).encode ++ (encodeTable R ++ beyond)) :=
      hmem
    simp only [bioses, hsearch, smbiosGetBiosinfo, hget, Shown.bios]
    simp only [hmem', stringField_dots hw.toFormed _ A _ (show 4 ≤ 4 by omega) (by omega),
      stringField_dots hw.toFormed _ A _ (show 4 ≤ 5 by omega) (by omega),
      stringField_dots hw.toFormed _ A _ (show 4 ≤ 8 by omega) (by omega)]
    exact ⟨⟨looks_shown hw.toFormed _ _ (by simp), looks_shown hw.toFormed _ _ (by simp),
      looks_shown hw.toFormed _ _ (by simp), looks_elsewhere _ _, rfl⟩, hafter _⟩

theorem getSysinfo_shows (hT : ∀ s ∈ T, s.WellFormed smbiosVer) {q : InfoPointers} {g : Shown}
    (hg : Shows st.mem q g) (h : Positioned T beyond st S S) :
    let r := smbiosGetSysinfo (encodeTable T).length T.length st q
    Shows r.2.mem r.1 (g.sys beyond (search 1 T S)) ∧
      ∃ S', Positioned T beyond r.2 (search 1 T S).2 S' := by
  have hf : ∀ s ∈ T, s.Formed := fun s hs => (hT s hs).toFormed
  obtain ⟨P, P', hTS, -⟩ := id h
  rcases search_cases 1 T S with ⟨hnone, hsearch⟩ | ⟨Q, s, R, hsplit, hQ, hs, hsearch⟩
  · obtain ⟨hget, hafter⟩ := h.get_none hf hnone
    simp only [hsearch, smbiosGetSysinfo, hget, Shown.sys]
    exact ⟨hg, hafter⟩
  · have h' : Positioned T beyond st (Q ++ s :: R) S := hsplit ▸ h
    obtain ⟨A, Q', s', R', ptr, hsplit', hlength, -, hget, hmem, hafter⟩ := h'.get_some hf hQ hs
    obtain ⟨-, hsR⟩ := List.append_inj (hsplit.symm.trans hsplit') hlength.symm
    obtain ⟨rfl, rfl⟩ := List.cons.inj hsR
    have hw := hT s
      (hTS ▸ List.mem_append_right _ (hsplit ▸ List.mem_append_right _ List.mem_cons_self))
    have hlen := hw.sys_length hs
    have hmem' : st.mem = A ++ ((s.dots []).encode ++ (encodeTable R ++ beyond)) := hmem
    simp only [hsearch, smbiosGetSysinfo, hget, Shown.sys]
    simp only [hmem', stringField_dots hw.toFormed _ A _ (show 4 ≤ 4 by omega) (by omega),
      stringField_dots hw.toFormed _ A _ (show 4 ≤ 5 by omega) (by omega),
      stringField_dots hw.toFormed _ A _ (show 4 ≤ 6 by omega) (by omega),
      stringField_dots hw.toFormed _ A _ (show 4 ≤ 7 by omega) (by omega)]
    exact ⟨⟨looks_shown hw.toFormed _ _ (by simp), looks_shown hw.toFormed _ _ (by simp),
      looks_shown hw.toFormed _ _ (by simp),
      looks_shown hw.toFormed _ _ (by simp), drop_append_length_add A _ 8⟩, R, hafter _⟩

theorem getEnclosure_shows (hT : ∀ s ∈ T, s.WellFormed smbiosVer) {q : InfoPointers} {g : Shown}
    (hg : Shows st.mem q g) (h : Positioned T beyond st S S') :
    let r := smbiosGetEnclosure (encodeTable T).length T.length st q
    Looks r.2.mem r.1.p1 (g.enclosure (search 3 T S).1).p1 ∧
      byteAt (r.1.p2.deref r.2.mem) 0 = byteAt (g.enclosure (search 3 T S).1).p2 0 ∧
      ∃ S', Positioned T beyond r.2 (search 3 T S).2 S' := by
  have hf : ∀ s ∈ T, s.Formed := fun s hs => (hT s hs).toFormed
  obtain ⟨P, P', hTS, -⟩ := id h
  rcases search_cases 3 T S with ⟨hnone, hsearch⟩ | ⟨Q, s, R, hsplit, hQ, hs, hsearch⟩
  · obtain ⟨hget, hafter⟩ := h.get_none hf hnone
    simp only [hsearch, smbiosGetEnclosure, hget, Shown.enclosure]
    exact ⟨hg.p1, hg.p2.2, hafter⟩
  · have h' : Positioned T beyond st (Q ++ s :: R) S' := hsplit ▸ h
    obtain ⟨A, Q', s', R', ptr, -, -, ⟨l, rfl⟩, hget, hmem, hafter⟩ := h'.get_some hf hQ hs
    have hw := hT s
      (hTS ▸ List.mem_append_right _ (hsplit ▸ List.mem_append_right _ List.mem_cons_self))
    have hlen := hw.enclosure_length hs
    have hafter' := hafter [s.stringNo 4]
    rw [SmbiosStruct.dots_dots] at hafter'
    simp only [hsearch, smbiosGetEnclosure, hget, Shown.enclosure]
    simp only [hmem, stringField_dots hw.toFormed _ A _ (show 4 ≤ 4 by omega) (by omega)]
    have hbyte : byteAt ((Pointer.addr (A.length + 5)).deref
        (A ++ ((s.dots (l ++ [s.stringNo 4])).encode ++ (encodeTable R' ++ beyond)))) 0 =
        byteAt [s.field 5] 0 := by
      rw [Pointer.deref, byteAt_drop]
      exact byteAt_dots s _ A _ (by omega) (by omega)
    exact ⟨looks_shown hw.toFormed _ _ (by simp), hbyte, R', hafter'⟩

theorem filter_type_split {Q R : List SmbiosStruct} {s : SmbiosStruct}
    (hQ : ∀ q ∈ Q, q.type.toNat ≠ k) (hs : s.type.toNat = k) :
    (Q ++ s :: R).filter (fun s => s.type.toNat == k) = s :: R.filter
      (fun s => s.type.toNat == k) := by
  rw [List.filter_append, List.filter_eq_nil_iff.mpr fun q hq => by simpa using hQ q hq, List.nil_append,
    List.filter_cons_of_pos (by simpa using hs)]

theorem filter_type_nil (hS : ∀ s ∈ S, s.type.toNat ≠ k) :
    S.filter (fun s => s.type.toNat == k) = [] :=
  List.filter_eq_nil_iff.mpr fun s hs => by simpa using hS s hs

/-- The loop prints what is left of the modules and leaves the iterator at NULL. -/
theorem memoryLoop_eq (hT : ∀ s ∈ T, s.WellFormed smbiosVer) {fuel : Nat}
    (h : Positioned T beyond st S S') (hfuel : S.length < fuel) :
    ∃ st', memoryLoop smbiosVer (encodeTable T).length T.length fuel st =
        some ((S.filter (fun s => s.type.toNat == 17)).flatMap (SmbiosStruct.memoryText smbiosVer),
          st') ∧
      ∃ T', Positioned T beyond ⟨st'.mem, none⟩ T T' := by
  have hf : ∀ s ∈ T, s.Formed := fun s hs => (hT s hs).toFormed
  induction fuel generalizing st S S' with
  | zero => omega
  | succ fuel ih =>
    obtain ⟨P, P', hTS, -⟩ := id h
    rcases search_cases 17 T S with ⟨hnone, -⟩ | ⟨Q, s, R, hsplit, hQ, hs, -⟩
    · obtain ⟨hget, hafter⟩ := h.get_none hf hnone
      refine ⟨⟨st.mem, none⟩, ?_, hafter⟩
      simp only [memoryLoop, smbiosGetMemory, hget, filter_type_nil hnone, List.flatMap_nil]
    · have h' : Positioned T beyond st (Q ++ s :: R) S' := hsplit ▸ h
      obtain ⟨A, Q', s', R', ptr, -, -, ⟨l, rfl⟩, hget, hmem, hafter⟩ := h'.get_some hf hQ hs
      have hw := hT s
        (hTS ▸ List.mem_append_right _ (hsplit ▸ List.mem_append_right _ List.mem_cons_self))
      have hlen := hw.memory_length hs
      have hspeed := hw.memory_speed hs
      have hafter' := hafter [s.stringNo 0x10]
      rw [SmbiosStruct.dots_dots] at hafter'
      have hshort : R.length < fuel := by
        rw [hsplit, List.length_append, List.length_cons] at hfuel
        omega
      obtain ⟨st', hloop, hend⟩ := ih hafter' hshort
      refine ⟨st', ?_, hend⟩
      have hlocation : cstr ((s.pointer A.length (s.stringNo 0x10)).deref
          (A ++ ((s.dots (l ++ [s.stringNo 0x10])).encode ++ (encodeTable R' ++ beyond)))) =
          s.text (s.stringNo 0x10) := by
        have hzero := raw_zero_free (hw.toFormed.dots (l ++ [s.stringNo 0x10])) (s.stringNo 0x10)
        rw [s.dots_raw (by simp)] at hzero
        rw [(looks_shown hw.toFormed A _ (by simp)).1, SmbiosStruct.shown, cstr_append_zero hzero]
      have hword : (if 23 ≤ smbiosVer then
            wordAt (A ++ ((s.dots (l ++ [s.stringNo 0x10])).encode ++ (encodeTable R' ++ beyond)))
            (A.length + 0x15) else 0) = if 23 ≤ smbiosVer then s.word 0x15 else 0 := by
        by_cases hver : 23 ≤ smbiosVer
        · rw [if_pos hver, if_pos hver, wordAt_dots s _ A _ (by omega) (hspeed hver)]
        · rw [if_neg hver, if_neg hver]
      simp only [memoryLoop, smbiosGetMemory, hget]
      simp only [hmem, stringField_dots hw.toFormed l A _ (show 4 ≤ 0x10 by omega) (by omega),
        hlocation, hword,
        wordAt_dots s _ A _ (show 4 ≤ 0xC by omega) (by omega),
        byteAt_dots s _ A _ (show 4 ≤ 0xE by omega) (by omega),
        byteAt_dots s _ A _ (show 4 ≤ 0x12 by omega) (by omega),
        byteAt_dots s _ A _ (show 4 ≤ 0x14 by omega) (by omega),
        byteAt_dots s _ A _ (show 4 ≤ 0x13 by omega) (by omega), hloop]
      rw [hsplit, filter_type_split hQ hs]
      rfl

theorem numcpuLoop_eq (hT : ∀ s ∈ T, s.Formed) {fuel : Nat} (h : Positioned T beyond st S S')
    (hfuel : S.length < fuel) :
    numcpuLoop (encodeTable T).length T.length st.mem fuel st.ptr =
      some (S.countP (fun s => s.type.toNat == 4)) := by
  induction fuel generalizing st S S' with
  | zero => omega
  | succ fuel ih =>
    rcases search_cases 4 T S with ⟨hnone, -⟩ | ⟨Q, s, R, hsplit, hQ, hs, -⟩
    · rw [numcpuLoop, (h.get_none hT hnone).1, List.countP_eq_length_filter, filter_type_nil hnone]
      rfl
    · have h' : Positioned T beyond st (Q ++ s :: R) S' := hsplit ▸ h
      obtain ⟨A, Q', s', R', ptr, -, -, -, hget, hmem, hafter⟩ := h'.get_some hT hQ hs
      have hshort : R.length < fuel := by
        rw [hsplit, List.length_append, List.length_cons] at hfuel
        omega
      have hloop := ih (hafter []) hshort
      have hmem' : A ++ ((s'.dots []).encode ++ (encodeTable R' ++ beyond)) = st.mem := hmem.symm
      simp only [hmem'] at hloop
      simp only [numcpuLoop, hget, hloop]
      rw [hsplit, List.countP_eq_length_filter, List.countP_eq_length_filter, filter_type_split hQ hs]
      rfl

/-- The code and its iterator compute the text of the table. -/
theorem smbiosInfos_eq (hT : ∀ s ∈ T, s.WellFormed smbiosVer) (beyond : List Byte) (g : Shown) :
    smbiosInfos smbiosVer (encodeTable T).length T.length (encodeTable T ++ beyond) g.pointers =
      some (inventory smbiosVer beyond T g) := by
  have hf : ∀ s ∈ T, s.Formed := fun s hs => (hT s hs).toFormed
  obtain ⟨hg0, hpos0⟩ := getBiosinfo_shows hT beyond g
  obtain ⟨hg1, S1, hpos1⟩ := getSysinfo_shows hT hg0 hpos0
  obtain ⟨hp1, hp2, S3, hpos3⟩ := getEnclosure_shows hT hg1 hpos1
  have hfuel : (search 3 T (search 1 T (bioses T).2).2).2.length < T.length + 1 := by
    obtain ⟨P, P', hsplit, -⟩ := hpos3
    have hlength := congrArg List.length hsplit
    rw [List.length_append] at hlength
    omega
  obtain ⟨st, hloop, T', hend⟩ := memoryLoop_eq hT hpos3 hfuel
  have hcpu : smbiosGetNumcpu (encodeTable T).length T.length st.mem =
      some (if cpus T = 0 then 1 else cpus T) := by
    rw [smbiosGetNumcpu, numcpuLoop_eq hf hend (Nat.lt_succ_self _)]
    rfl
  simp only [smbiosInfos, hloop, hcpu, Option.bind_some, Option.map_some, hg0.p1.1, hg0.p2.1,
    hg0.p3.1, hg1.p1.1, hg1.p2.1, hg1.p3.1, hg1.p4.1, hg1.p, hp1.1, hp2]
  rfl

end

end PulseImaging
