import PulseImaging.SmbiosInventory

/-! Two tables with the same structures in different orders. The getters share
their iterator, so that a structure in front of one already read is not seen. -/

namespace PulseImaging

def ofType (k : Nat) (s : SmbiosStruct) : Bool := s.type.toNat == k

/-- A structure of type `k` is in front of the first one of type `l`. -/
def before (k l : Nat) (T : List SmbiosStruct) : Bool :=
  (T.takeWhile (fun s => s.type.toNat != l)).any (ofType k) && T.any (ofType l)

def hidesSysinfo (T : List SmbiosStruct) : Bool := before 1 0 T

def hidesEnclosure (T : List SmbiosStruct) : Bool := !before 1 0 T && before 3 1 T

/-- The memory modules in front of the enclosure that is seen. -/
def skippedMemory (T : List SmbiosStruct) : Nat :=
  if T.any (ofType 3) && !hidesEnclosure T then (T.takeWhile (fun s => s.type.toNat != 3)).countP (ofType 17) else 0

/-- The bytes of the UUID that lie behind the system structure and its strings. -/
def uuidOverrun (beyond : List Byte) (T : List SmbiosStruct) : List Byte :=
  match T.dropWhile (fun s => s.type.toNat != 1) with
  | [] => []
  | s :: R => (List.range (24 - s.encode.length)).map (byteAt (encodeTable R ++ beyond))

/-- The system structure reads the same as the enclosure at the places that the `S3` line prints. -/
def SameEnclosureLine (T : List SmbiosStruct) : Prop :=
  ∃ s ∈ T, ∃ e ∈ T, s.type.toNat = 1 ∧ e.type.toNat = 3 ∧ s.text (s.stringNo 4) = e.text (e.stringNo 4) ∧
    (byteAt (s.text (s.stringNo 5)) 0).toNat &&& 0x7F = (e.field 5).toNat &&& 0x7F

structure Reordered (T T' : List SmbiosStruct) : Prop where
  perm : T.Perm T'
  bios : T.countP (ofType 0) ≤ 1
  sys : T.countP (ofType 1) ≤ 1
  enclosure : T.countP (ofType 3) ≤ 1
  memory : T.filter (ofType 17) = T'.filter (ofType 17)

/-- The two orders hide the same structures. -/
structure SameView (smbiosVer : Nat) (beyond beyond' : List Byte) (T T' : List SmbiosStruct) : Prop where
  sysinfo : hidesSysinfo T = hidesSysinfo T'
  uuid : smbiosVer = 20 → hidesSysinfo T = false → uuidOverrun beyond T = uuidOverrun beyond' T'
  enclosure : hidesEnclosure T = hidesEnclosure T' ∨ SameEnclosureLine T
  memory : skippedMemory T = skippedMemory T'

theorem Reordered.symm {T T' : List SmbiosStruct} (h : Reordered T T') : Reordered T' T where
  perm := h.perm.symm
  bios := h.perm.countP_eq _ ▸ h.bios
  sys := h.perm.countP_eq _ ▸ h.sys
  enclosure := h.perm.countP_eq _ ▸ h.enclosure
  memory := h.memory.symm

section

variable {T P R : List SmbiosStruct} {s : SmbiosStruct} {k : Nat}

/-! ### Which structures are seen -/

theorem ofType_iff : ofType k s = true ↔ s.type.toNat = k := beq_iff_eq

theorem single_split (h : (P ++ s :: R).countP (ofType k) ≤ 1) (hs : s.type.toNat = k) :
    (∀ x ∈ P, x.type.toNat ≠ k) ∧ ∀ x ∈ R, x.type.toNat ≠ k := by
  rw [List.countP_append, List.countP_cons_of_pos (ofType_iff.mpr hs)] at h
  have hP : P.countP (ofType k) = 0 := by omega
  have hR : R.countP (ofType k) = 0 := by omega
  exact ⟨fun x hx hk => List.countP_eq_zero.mp hP x hx (ofType_iff.mpr hk),
    fun x hx hk => List.countP_eq_zero.mp hR x hx (ofType_iff.mpr hk)⟩

theorem single_unique (h : T.countP (ofType k) ≤ 1) {s s' : SmbiosStruct} (hs : s ∈ T) (hs' : s' ∈ T)
    (hk : s.type.toNat = k) (hk' : s'.type.toNat = k) : s = s' := by
  obtain ⟨P, R, rfl⟩ := List.append_of_mem hs
  obtain ⟨hP, hR⟩ := single_split h hk
  rcases List.mem_append.mp hs' with hmem | hmem
  · exact absurd hk' (hP s' hmem)
  · rcases List.mem_cons.mp hmem with rfl | hmem
    · rfl
    · exact absurd hk' (hR s' hmem)

theorem takeWhile_split {l : Nat} (hP : ∀ x ∈ P, x.type.toNat ≠ l) (hs : s.type.toNat = l) :
    (P ++ s :: R).takeWhile (fun s => s.type.toNat != l) = P := by
  rw [List.takeWhile_append_of_pos fun x hx => by simpa using hP x hx, List.takeWhile_cons_of_neg (by simpa using hs),
    List.append_nil]

theorem before_split {l : Nat} (hP : ∀ x ∈ P, x.type.toNat ≠ l) (hs : s.type.toNat = l) :
    before k l (P ++ s :: R) = P.any (ofType k) := by
  have hany : (P ++ s :: R).any (ofType l) = true :=
    List.any_eq_true.mpr ⟨s, List.mem_append_right _ List.mem_cons_self, ofType_iff.mpr hs⟩
  rw [before, takeWhile_split hP hs, hany, Bool.and_true]

theorem before_missing {l : Nat} (hT : ∀ x ∈ T, x.type.toNat ≠ l) : before k l T = false := by
  have hany : T.any (ofType l) = false := List.any_eq_false.mpr fun x hx => fun h => hT x hx
    (ofType_iff.mp h)
  rw [before, hany, Bool.and_false]

theorem search_missing {S : List SmbiosStruct} (hS : ∀ x ∈ S, x.type.toNat ≠ k) :
    search k T S = (none, T) := by
  rw [search, List.dropWhile_eq_nil_iff.mpr fun x hx => by simpa using hS x hx]

/-- A search behind `P` finds the only structure of the type, if it is not in `P`. -/
theorem search_behind {S : List SmbiosStruct} (hone : (P ++ S).countP (ofType k) ≤ 1) :
    (P.any (ofType k) = true ∧ search k T S = (none, T)) ∨
      (P.any (ofType k) = false ∧ search k T S = search k T (P ++ S)) := by
  cases hP : P.any (ofType k) with
  | true =>
    obtain ⟨s, hs, hk⟩ := List.any_eq_true.mp hP
    obtain ⟨Q, R, rfl⟩ := List.append_of_mem hs
    rw [List.append_assoc, List.cons_append] at hone
    have hR := (single_split hone (ofType_iff.mp hk)).2
    exact Or.inl ⟨rfl, search_missing fun x hx => hR x (List.mem_append_right _ hx)⟩
  | false =>
    have hP' : ∀ x ∈ P, x.type.toNat ≠ k := fun x hx hk => List.any_eq_false.mp hP x hx
      (ofType_iff.mpr hk)
    refine Or.inr ⟨rfl, ?_⟩
    rw [search, search, List.dropWhile_append_of_pos fun x hx => by simpa using hP' x hx]

/-- After a search for another type the structure is missed where it comes first. -/
theorem search_after {l : Nat} (hne : l ≠ k) (hone : T.countP (ofType l) ≤ 1) :
    search l T (search k T T).2 = if before l k T then (none, T) else search l T T := by
  rcases search_cases k T T with ⟨hnone, hsearch⟩ | ⟨P, b, R, hsplit, hP, hb, hsearch⟩
  · rw [hsearch, before_missing hnone]
    rfl
  · have hsplit' : T = (P ++ [b]) ++ R := by rw [hsplit, List.append_assoc, List.singleton_append]
    have hbl : ofType l b = false := Bool.eq_false_iff.mpr fun h => hne
      (by rw [← ofType_iff.mp h, hb])
    have hany : (P ++ [b]).any (ofType l) = P.any (ofType l) := by
      rw [List.any_append, List.any_cons, List.any_nil, hbl, Bool.or_false, Bool.or_false]
    have hbefore : before l k T = P.any (ofType l) := by rw [hsplit, before_split hP hb]
    have hbehind := search_behind (T := T) (P := P ++ [b]) (S := R) (k := l) (hsplit' ▸ hone)
    rw [hany, ← hsplit'] at hbehind
    rw [hsearch, hbefore]
    rcases hbehind with ⟨hhides, heq⟩ | ⟨hhides, heq⟩
    · rw [heq, hhides]
      rfl
    · rw [heq, hhides]
      rfl

theorem systems_eq (hone : T.countP (ofType 1) ≤ 1) :
    systems T = if hidesSysinfo T then (none, T) else search 1 T T := search_after (by decide) hone

theorem enclosures_eq (hone : T.countP (ofType 1) ≤ 1) (hthree : T.countP (ofType 3) ≤ 1) :
    enclosures T = if hidesEnclosure T then (none, T) else search 3 T T := by
  rw [enclosures, systems_eq hone, hidesEnclosure, hidesSysinfo]
  cases before 1 0 T with
  | true => rfl
  | false => exact search_after (by decide) hthree

/-- The modules that are printed are the last ones of the table. -/
theorem memories_eq (hone : T.countP (ofType 1) ≤ 1) (hthree : T.countP (ofType 3) ≤ 1) :
    memories T = (T.filter (ofType 17)).drop (skippedMemory T) := by
  have hfilter : memories T = (enclosures T).2.filter (ofType 17) := rfl
  rw [hfilter, enclosures_eq hone hthree, skippedMemory]
  cases hidesEnclosure T with
  | true =>
    rw [Bool.not_true, Bool.and_false]
    rfl
  | false =>
    rw [Bool.not_false, Bool.and_true]
    rcases search_cases 3 T T with ⟨hnone, hsearch⟩ | ⟨P, e, R, hsplit, hP, he, hsearch⟩
    · have hany : T.any (ofType 3) = false := List.any_eq_false.mpr fun x hx h => hnone x hx
        (ofType_iff.mp h)
      rw [hany, if_neg Bool.false_ne_true, if_neg Bool.false_ne_true, hsearch]
      rfl
    · have hany : T.any (ofType 3) = true :=
        List.any_eq_true.mpr ⟨e, hsplit ▸ List.mem_append_right _ List.mem_cons_self,
          ofType_iff.mpr he⟩
      have he17 : ofType 17 e = false :=
        Bool.eq_false_iff.mpr fun h => by rw [ofType_iff, he] at h; cases h
      have htake : T.takeWhile (fun s => s.type.toNat != 3) = P := by
        rw [hsplit, takeWhile_split hP he]
      have hall : T.filter (ofType 17) = P.filter (ofType 17) ++ R.filter (ofType 17) := by
        rw [hsplit, List.filter_append, List.filter_cons_of_neg
          (by rw [he17]; exact Bool.false_ne_true)]
      rw [hany, if_pos rfl, if_neg Bool.false_ne_true, hsearch, htake, hall,
        List.countP_eq_length_filter, List.drop_left]

theorem skippedMemory_le (T : List SmbiosStruct) :
    skippedMemory T ≤ (T.filter (ofType 17)).length := by
  rw [skippedMemory]
  split
  · rw [← List.countP_eq_length_filter]
    exact (List.takeWhile_sublist _).countP_le
  · exact Nat.zero_le _

variable {T' : List SmbiosStruct}

theorem Reordered.search_fst (h : Reordered T T') (hone : T.countP (ofType k) ≤ 1) :
    (search k T T).1 = (search k T' T').1 := by
  rcases search_cases k T T with ⟨hnone, hsearch⟩ | ⟨P, s, R, hsplit, -, hs, hsearch⟩
  · rw [hsearch, search_missing fun x hx => hnone x (h.perm.mem_iff.mpr hx)]
  · rcases search_cases k T' T' with ⟨hnone, -⟩ | ⟨P', s', R', hsplit', -, hs', hsearch'⟩
    · exact absurd hs (hnone s (h.perm.mem_iff.mp
        (hsplit ▸ List.mem_append_right _ List.mem_cons_self)))
    · have hmem : s ∈ T := hsplit ▸ List.mem_append_right _ List.mem_cons_self
      have hmem' : s' ∈ T := h.perm.mem_iff.mpr (hsplit' ▸ List.mem_append_right _ List.mem_cons_self)
      rw [hsearch, hsearch', single_unique hone hmem hmem' hs hs']

theorem Reordered.bioses_fst (h : Reordered T T') :
    (bioses T).1 = (bioses T').1 := h.search_fst h.bios

/-! ### Texts -/

theorem dotted_ne_newline (b : Byte) : dotted b ≠ 10 := by
  rw [dotted]
  split
  · decide
  · intro h
    subst h
    contradiction

theorem text_newline (s : SmbiosStruct) (i : Nat) : (10 : Byte) ∉ s.text i := by
  intro h
  obtain ⟨b, -, hb⟩ := List.mem_map.mp h
  exact dotted_ne_newline b hb

theorem Solid.newline {t : List Byte} (h : Solid t) : (10 : Byte) ∉ t := fun hm => by
  cases (h 10 hm).1

theorem decimal_bar (n : Nat) : (124 : Byte) ∉ decimal n := fun hm => by
  cases decimal_isDigit n 124 hm

theorem memoryText_newlines (smbiosVer : Nat) (s : SmbiosStruct) :
    (s.memoryText smbiosVer).count 10 = 1 := by
  have h1 := List.count_eq_zero.mpr (solid_printInt s.size).newline
  have h2 := List.count_eq_zero.mpr (solid_hexText (s.field 0xE).toNat).newline
  have h3 := List.count_eq_zero.mpr (text_newline s (s.stringNo 0x10))
  have h4 := List.count_eq_zero.mpr
    (solid_hexText ((s.field 0x12).toNat ||| ((s.field 0x14).toNat <<< 8) |||
      ((s.field 0x13).toNat <<< 16))).newline
  have h5 := List.count_eq_zero.mpr (solid_decimal (if 23 ≤ smbiosVer then s.word 0x15
    else 0)).newline
  have hcolon : (ascii ":").count 10 = 0 := by decide
  have hstart : (ascii "SM:").count 10 = 0 := by decide
  have hend : newline.count 10 = 1 := by decide
  simp only [SmbiosStruct.memoryText, memoryLine, List.count_append, h1, h2, h3, h4, h5, hcolon,
    hstart, hend]

theorem memoryTexts_newlines (smbiosVer : Nat) (S : List SmbiosStruct) :
    (S.flatMap (SmbiosStruct.memoryText smbiosVer)).count 10 = S.length := by
  induction S with
  | nil => rfl
  | cons s S ih => rw [List.flatMap_cons, List.count_append, memoryText_newlines, ih,
      List.length_cons, Nat.add_comm]

theorem hexPair_injective {a b : Byte} (h : hexPair a = hexPair b) : a = b := by
  rw [hexPair, hexPair, List.cons.injEq, List.cons.injEq] at h
  have ha := a.toNat_lt
  have hb := b.toNat_lt
  have h1 := hexDigit_injective _ (by omega) _ (by omega) h.1
  have h2 := hexDigit_injective _ (by omega) _ (by omega) h.2.1
  exact UInt8.toNat_inj.mp (by omega)

theorem flatMap_pairs {l : List Nat} {p q : List Byte}
    (h : l.flatMap (fun i => hexPair (byteAt p i)) = l.flatMap (fun i => hexPair (byteAt q i))) :
    ∀ i ∈ l, byteAt p i = byteAt q i := by
  induction l with
  | nil => exact fun i hi => nomatch hi
  | cons i l ih =>
    rw [List.flatMap_cons, List.flatMap_cons] at h
    obtain ⟨hhead, htail⟩ := List.append_inj h rfl
    exact List.forall_mem_cons.mpr ⟨hexPair_injective hhead, ih htail⟩

theorem uuidText_length (p q : List Byte) (smbiosVer : Nat) :
    (uuidText smbiosVer p).length = (uuidText smbiosVer q).length := by
  rw [uuidText, uuidText]
  split
  · rw [List.length_flatMap, List.length_flatMap]
    rfl
  · rfl

theorem split_first {α : Type} {a : α} {s t x y : List α} (hs : a ∉ s) (ht : a ∉ t)
    (h : s ++ a :: x = t ++ a :: y) :
    s = t ∧ x = y := by
  induction s generalizing t with
  | nil =>
    cases t with
    | nil => exact ⟨rfl, (List.cons.inj h).2⟩
    | cons c t => exact absurd ((List.cons.inj h).1 ▸ List.mem_cons_self) ht
  | cons b s ih =>
    cases t with
    | nil => exact absurd ((List.cons.inj h).1 ▸ List.mem_cons_self) hs
    | cons c t =>
      obtain ⟨hhead, htail⟩ := List.cons.inj h
      obtain ⟨rfl, rfl⟩ := ih (fun h => hs (List.mem_cons_of_mem _ h))
        (fun h => ht (List.mem_cons_of_mem _ h)) htail
      exact ⟨by rw [hhead], rfl⟩

theorem split_last {α : Type} {a : α} {s t x y : List α} (hx : a ∉ x) (hy : a ∉ y)
    (h : s ++ a :: x = t ++ a :: y) :
    s = t ∧ x = y := by
  have hreverse : x.reverse ++ a :: s.reverse = y.reverse ++ a :: t.reverse := by
    simpa only [List.reverse_append, List.reverse_cons, List.append_assoc, List.singleton_append]
      using congrArg List.reverse h
  obtain ⟨h1, h2⟩ := split_first (mt List.mem_reverse.mp hx) (mt List.mem_reverse.mp hy) hreverse
  exact ⟨List.reverse_injective h2, List.reverse_injective h1⟩

/-- The line can be read back from the text that it begins. -/
theorem enclosureLine_append {p p' x x' : List Byte} {b b' : Byte} (hp : (10 : Byte) ∉ p)
    (hp' : (10 : Byte) ∉ p') (h : enclosureLine p b ++ x = enclosureLine p' b' ++ x') :
    (p = p' ∧ b.toNat &&& 0x7F = b'.toNat &&& 0x7F) ∧ x = x' := by
  have hform : ∀ q c y, enclosureLine q c ++ y =
      (newline ++ ascii "S3:") ++ ((q ++ 124 :: decimal (c.toNat &&& 0x7F)) ++ 10 :: y) := by
    intro q c y
    simp only [enclosureLine, List.append_assoc]
    rfl
  have hnewline : ∀ q n, (10 : Byte) ∉ q → (10 : Byte) ∉ q ++ 124 :: decimal n := by
    intro q n hq hm
    rcases List.mem_append.mp hm with hm | hm
    · exact hq hm
    · exact (solid_decimal n).newline ((List.mem_cons.mp hm).resolve_left (by decide))
  rw [hform, hform] at h
  obtain ⟨hline, hrest⟩ := split_first (hnewline _ _ hp) (hnewline _ _ hp')
    (List.append_cancel_left h)
  obtain ⟨htext, hnumber⟩ := split_last (decimal_bar _) (decimal_bar _) hline
  exact ⟨⟨htext, decimal_injective hnumber⟩, hrest⟩

/-! ### The UUID -/

variable {smbiosVer : Nat} {beyond beyond' : List Byte} {P' R' : List SmbiosStruct}

theorem uuidOverrun_split (hP : ∀ x ∈ P, x.type.toNat ≠ 1) (hs : s.type.toNat = 1) :
    uuidOverrun beyond (P ++ s :: R) = (List.range (24 - s.encode.length)).map
      (byteAt (encodeTable R ++ beyond)) := by
  rw [uuidOverrun, List.dropWhile_append_of_pos fun x hx => by simpa using hP x hx,
    List.dropWhile_cons_of_neg (by simpa using hs)]

theorem byteAt_uuid (beyond : List Byte) (s : SmbiosStruct) (R : List SmbiosStruct) (i : Nat) :
    byteAt (uuidBytes beyond s R) i =
      if 8 + i < s.encode.length then
        byteAt (s.dots [s.stringNo 4, s.stringNo 5, s.stringNo 6, s.stringNo 7]).encode (8 + i)
      else byteAt (encodeTable R ++ beyond) (8 + i - s.encode.length) := by
  have hlength := s.dots_encode_length [s.stringNo 4, s.stringNo 5, s.stringNo 6, s.stringNo 7]
  rw [uuidBytes, byteAt_drop]
  split
  · rename_i h
    rw [byteAt, List.getD_append _ _ _ _ (hlength.symm ▸ h), byteAt]
  · rename_i h
    rw [byteAt, List.getD_append_right _ _ _ _ (hlength.symm ▸ Nat.le_of_not_lt h), hlength, byteAt]

theorem eight_le_encode (hw : s.WellFormed smbiosVer) (hs : s.type.toNat = 1) :
    8 ≤ s.encode.length := by
  have := hw.sys_length hs
  rw [s.encode_length]
  omega

/-- The UUID of version 2.0 is the same where the bytes behind the structure are. -/
theorem uuidBytes_iff (hw : s.WellFormed smbiosVer) (hs : s.type.toNat = 1) :
    uuidText smbiosVer (uuidBytes beyond s R) = uuidText smbiosVer (uuidBytes beyond' s R') ↔
      (smbiosVer = 20 → (List.range (24 - s.encode.length)).map (byteAt (encodeTable R ++ beyond)) =
        (List.range (24 - s.encode.length)).map (byteAt (encodeTable R' ++ beyond'))) := by
  have hlong := eight_le_encode hw hs
  constructor
  · rintro h rfl
    rw [uuidText, uuidText, if_pos (by decide), if_pos (by decide)] at h
    refine List.map_congr_left fun j hj => ?_
    have hj := List.mem_range.mp hj
    have hbyte := flatMap_pairs h (j + s.encode.length - 8) (List.mem_range.mpr (by omega))
    have hplace : 8 + (j + s.encode.length - 8) = j + s.encode.length := by omega
    rwa [byteAt_uuid, byteAt_uuid, if_neg (by omega), if_neg (by omega), hplace,
      Nat.add_sub_cancel] at hbyte
  · intro h
    rw [uuidText, uuidText]
    split
    · rename_i hver
      refine congrArg List.flatten (List.map_congr_left fun i hi => congrArg hexPair ?_)
      have hi := List.mem_range.mp hi
      rw [byteAt_uuid, byteAt_uuid]
      by_cases hin : 8 + i < s.encode.length
      · rw [if_pos hin, if_pos hin]
      · rw [if_neg hin, if_neg hin]
        have h20 : smbiosVer = 20 := by
          by_contra hne
          have := hw.sys_uuid hs (by omega)
          have := s.encode_length
          omega
        exact List.map_inj_left.mp (h h20) _ (List.mem_range.mpr (by omega))
    · rfl

/-! ### The two texts -/

/-- What the pointers show after the first two getters. -/
def shownSys (beyond : List Byte) (T : List SmbiosStruct) (g : Shown) : Shown := (g.bios (bioses T).1).sys beyond (systems T)

def enclosureText (beyond : List Byte) (T : List SmbiosStruct) (g : Shown) : List Byte :=
  let g3 := (shownSys beyond T g).enclosure (enclosures T).1
  enclosureLine (cstr g3.p1) (byteAt g3.p2 0)

def endText (smbiosVer : Nat) (T : List SmbiosStruct) : List Byte :=
  (memories T).flatMap (SmbiosStruct.memoryText smbiosVer) ++ cpuLine (if cpus T = 0 then 1 else cpus T)

theorem inventory_parts (smbiosVer : Nat) (beyond : List Byte) (T : List SmbiosStruct) (g : Shown) :
    inventory smbiosVer beyond T g =
      (biosLine (cstr (g.bios (bioses T).1).p1) (cstr (g.bios (bioses T).1).p2)
        (cstr (g.bios (bioses T).1).p3) ++
        sysLine (cstr (shownSys beyond T g).p1) (cstr (shownSys beyond T g).p2)
          (cstr (shownSys beyond T g).p3)
          (cstr (shownSys beyond T g).p4)) ++
      (uuidText smbiosVer (shownSys beyond T g).p ++
        (enclosureText beyond T g ++ endText smbiosVer T)) := by
  simp only [inventory, enclosureText, endText, shownSys, List.append_assoc]

theorem cstr_shown {s : SmbiosStruct} (hs : s.Formed) (k : Nat) :
    cstr (s.shown k) = s.text (s.stringNo k) := by
  have hzero := raw_zero_free (hs.dots [s.stringNo k]) (s.stringNo k)
  rw [s.dots_raw List.mem_cons_self] at hzero
  rw [SmbiosStruct.shown, cstr_append_zero hzero]

theorem byteAt_shown (s : SmbiosStruct) (k : Nat) :
    byteAt (s.shown k) 0 = byteAt (s.text (s.stringNo k)) 0 := by
  rw [SmbiosStruct.shown]
  cases s.text (s.stringNo k) <;> rfl

theorem Shown.sys_congr (g : Shown) {r r' : Option SmbiosStruct × List SmbiosStruct}
    (h : r.1 = r'.1) :
    g.sys beyond r = { g.sys beyond' r' with p := (g.sys beyond r).p } := by
  obtain ⟨o, R⟩ := r
  obtain ⟨o', R'⟩ := r'
  obtain rfl : o = o' := h
  cases o <;> rfl

theorem before_exists {l : Nat} (h : before k l T = true) :
    (∃ s ∈ T, s.type.toNat = k) ∧ ∃ s ∈ T, s.type.toNat = l := by
  obtain ⟨hk, hl⟩ := (Bool.and_eq_true_iff).mp h
  obtain ⟨s, hs, hsk⟩ := List.any_eq_true.mp hk
  obtain ⟨b, hb, hbl⟩ := List.any_eq_true.mp hl
  exact ⟨⟨s, (List.takeWhile_sublist _).subset hs, ofType_iff.mp hsk⟩, b, hb, ofType_iff.mp hbl⟩

theorem search_exists (h : ∃ s ∈ T, s.type.toNat = k) :
    ∃ P s R, T = P ++ s :: R ∧ (∀ x ∈ P, x.type.toNat ≠ k) ∧
    s.type.toNat = k ∧ search k T T = (some s, R) := by
  rcases search_cases k T T with ⟨hnone, -⟩ | hsome
  · obtain ⟨s, hs, hk⟩ := h
    exact absurd hk (hnone s hs)
  · exact hsome

theorem enclosureText_hidden (hT : ∀ s ∈ T, s.Formed) (h : Reordered T T')
    (hhides : hidesEnclosure T = true) (beyond : List Byte) (g : Shown) :
    ∃ s ∈ T, s.type.toNat = 1 ∧
      enclosureText beyond T g = enclosureLine (s.text (s.stringNo 4))
        (byteAt (s.text (s.stringNo 5)) 0) := by
  obtain ⟨hsys, hbefore⟩ := (Bool.and_eq_true_iff).mp hhides
  have hsys' : hidesSysinfo T = false := by simpa [hidesSysinfo] using hsys
  obtain ⟨P, s, R, hsplit, -, hs, hsearch⟩ := search_exists (before_exists hbefore).2
  have hmem : s ∈ T := hsplit ▸ List.mem_append_right _ List.mem_cons_self
  have hsystems : systems T = (some s, R) := by
    rw [systems_eq h.sys, hsys', hsearch]
    rfl
  have henclosures : enclosures T = (none, T) := by
    rw [enclosures_eq h.sys h.enclosure, hhides]
    rfl
  refine ⟨s, hmem, hs, ?_⟩
  rw [enclosureText, shownSys, hsystems, henclosures, ← byteAt_shown, ← cstr_shown (hT s hmem)]
  rfl

theorem enclosureText_seen (hT : ∀ s ∈ T, s.Formed) (h : Reordered T T')
    (hsees : hidesEnclosure T = false) {e : SmbiosStruct} (he : e ∈ T) (hk : e.type.toNat = 3)
    (beyond : List Byte) (g : Shown) :
    enclosureText beyond T g = enclosureLine (e.text (e.stringNo 4)) (e.field 5) := by
  obtain ⟨P, e', R, hsplit, -, he', hsearch⟩ := search_exists ⟨e, he, hk⟩
  have hmem : e' ∈ T := hsplit ▸ List.mem_append_right _ List.mem_cons_self
  obtain rfl := single_unique h.enclosure he hmem hk he'
  have henclosures : enclosures T = (some e, R) := by
    rw [enclosures_eq h.sys h.enclosure, hsees, hsearch]
    rfl
  rw [enclosureText, henclosures, ← cstr_shown (hT e he)]
  rfl

theorem Reordered.systems_fst (h : Reordered T T') (hsame : hidesSysinfo T = hidesSysinfo T') :
    (systems T).1 = (systems T').1 := by
  rw [systems_eq h.sys, systems_eq h.symm.sys, ← hsame]
  split
  · rfl
  · exact h.search_fst h.sys

theorem Reordered.enclosures_fst (h : Reordered T T') (hsame : hidesEnclosure T = hidesEnclosure T') :
    (enclosures T).1 = (enclosures T').1 := by
  rw [enclosures_eq h.sys h.enclosure, enclosures_eq h.symm.sys h.symm.enclosure, ← hsame]
  split
  · rfl
  · exact h.search_fst h.enclosure

theorem Reordered.enclosureText_eq (h : Reordered T T') (hsys : hidesSysinfo T = hidesSysinfo T')
    (hsame : hidesEnclosure T = hidesEnclosure T') (beyond beyond' : List Byte) (g : Shown) :
    enclosureText beyond T g = enclosureText beyond' T' g := by
  have hshown : shownSys beyond T g =
      { shownSys beyond' T' g with p := (shownSys beyond T g).p } := by
    rw [shownSys, shownSys, h.bioses_fst]
    exact Shown.sys_congr _ (h.systems_fst hsys)
  rw [enclosureText, enclosureText, h.enclosures_fst hsame, hshown]
  cases (enclosures T').1 <;> rfl

theorem Reordered.cpus_eq (h : Reordered T T') : cpus T = cpus T' := h.perm.countP_eq _

/-- The modules that are printed are the same where as many are skipped. -/
theorem Reordered.endText_iff (h : Reordered T T') (smbiosVer : Nat) :
    endText smbiosVer T = endText smbiosVer T' ↔ skippedMemory T = skippedMemory T' := by
  have hle := skippedMemory_le T
  have hle' := skippedMemory_le T'
  rw [endText, endText, memories_eq h.sys h.enclosure, memories_eq h.symm.sys h.symm.enclosure,
    h.cpus_eq, ← h.memory]
  rw [← h.memory] at hle'
  constructor
  · intro heq
    have hcount := congrArg (List.count 10) (List.append_cancel_right heq)
    rw [memoryTexts_newlines, memoryTexts_newlines, List.length_drop, List.length_drop] at hcount
    omega
  · intro heq
    rw [heq]

theorem Reordered.uuidText_iff (h : Reordered T T') (hT : ∀ s ∈ T, s.WellFormed smbiosVer)
    (hsys : hidesSysinfo T = hidesSysinfo T') (g : Shown) :
    uuidText smbiosVer (shownSys beyond T g).p = uuidText smbiosVer (shownSys beyond' T' g).p ↔
      (smbiosVer = 20 → hidesSysinfo T = false → uuidOverrun beyond T = uuidOverrun beyond' T') := by
  rw [shownSys, shownSys, systems_eq h.sys, systems_eq h.symm.sys, ← hsys, h.bioses_fst]
  cases hidesSysinfo T with
  | true => exact ⟨fun _ _ hf => (nomatch hf), fun _ => rfl⟩
  | false =>
    rw [if_neg Bool.false_ne_true, if_neg Bool.false_ne_true]
    rcases search_cases 1 T T with ⟨hnone, hsearch⟩ | ⟨P, s, R, hsplit, hP, hs, hsearch⟩
    · have hnone' : ∀ x ∈ T', x.type.toNat ≠ 1 := fun x hx => hnone x (h.perm.mem_iff.mpr hx)
      have hover : ∀ (b : List Byte) (S : List SmbiosStruct), (∀ x ∈ S, x.type.toNat ≠ 1) →
          uuidOverrun b S = [] := by
        intro b S hS
        rw [uuidOverrun, List.dropWhile_eq_nil_iff.mpr fun x hx => by simpa using hS x hx]
      rw [hsearch, search_missing hnone']
      exact ⟨fun _ _ _ => by rw [hover _ _ hnone, hover _ _ hnone'], fun _ => rfl⟩
    · have hmem : s ∈ T := hsplit ▸ List.mem_append_right _ List.mem_cons_self
      obtain ⟨P', s', R', hsplit', hP', hs', hsearch'⟩ :=
        search_exists ⟨s, h.perm.mem_iff.mp hmem, hs⟩
      have hmem' : s' ∈ T := h.perm.mem_iff.mpr (hsplit' ▸ List.mem_append_right _ List.mem_cons_self)
      obtain rfl := single_unique h.sys hmem hmem' hs hs'
      have hover : uuidOverrun beyond T = _ := hsplit ▸ uuidOverrun_split hP hs
      have hover' : uuidOverrun beyond' T' = _ := hsplit' ▸ uuidOverrun_split hP' hs
      rw [hsearch, hsearch', hover, hover']
      exact (uuidBytes_iff (hT s hmem) hs).trans ⟨fun h hv _ => h hv, fun h hv => h hv rfl⟩

theorem sameView_inventory (hT : ∀ s ∈ T, s.WellFormed smbiosVer)
    (hT' : ∀ s ∈ T', s.WellFormed smbiosVer) (h : Reordered T T')
    (hview : SameView smbiosVer beyond beyond' T T') (g : Shown) :
    inventory smbiosVer beyond T g = inventory smbiosVer beyond' T' g := by
  have hf : ∀ s ∈ T, s.Formed := fun s hs => (hT s hs).toFormed
  have hf' : ∀ s ∈ T', s.Formed := fun s hs => (hT' s hs).toFormed
  have hshown : shownSys beyond T g =
      { shownSys beyond' T' g with p := (shownSys beyond T g).p } := by
    rw [shownSys, shownSys, h.bioses_fst]
    exact Shown.sys_congr _ (h.systems_fst hview.sysinfo)
  have huuid := (h.uuidText_iff hT hview.sysinfo g).mpr hview.uuid
  have hend := (h.endText_iff smbiosVer).mpr hview.memory
  have hline : enclosureText beyond T g = enclosureText beyond' T' g := by
    rcases hview.enclosure with hsame | ⟨s, hs, e, he, hk, hk', htext, hbyte⟩
    · exact h.enclosureText_eq hview.sysinfo hsame beyond beyond' g
    · by_cases hsame : hidesEnclosure T = hidesEnclosure T'
      · exact h.enclosureText_eq hview.sysinfo hsame beyond beyond' g
      · have hequal : enclosureLine (s.text (s.stringNo 4)) (byteAt (s.text (s.stringNo 5)) 0) =
            enclosureLine (e.text (e.stringNo 4)) (e.field 5) := by
          rw [enclosureLine, enclosureLine, htext, hbyte]
        cases hhides : hidesEnclosure T with
        | true =>
          rw [hhides] at hsame
          obtain ⟨s', hs', hk1, hhidden⟩ := enclosureText_hidden hf h hhides beyond g
          obtain rfl := single_unique h.sys hs hs' hk hk1
          rw [hhidden, hequal, enclosureText_seen hf' h.symm (Bool.eq_false_iff.mpr (Ne.symm hsame))
            (h.perm.mem_iff.mp he) hk']
        | false =>
          rw [hhides] at hsame
          have hhides' : hidesEnclosure T' = true := Bool.eq_true_of_not_eq_false (Ne.symm hsame)
          obtain ⟨s', hs', hk1, hhidden⟩ := enclosureText_hidden hf' h.symm hhides' beyond' g
          obtain rfl := single_unique h.sys hs (h.perm.mem_iff.mpr hs') hk hk1
          rw [hhidden, hequal, enclosureText_seen hf h hhides he hk']
  rw [inventory_parts, inventory_parts, huuid, hend, hline, hshown, h.bioses_fst]

/-- The pointers show nothing at first but the string `x` at `p4`. -/
def onlyP4 (x : List Byte) : Shown := ⟨[], [], [], x, []⟩

theorem inventory_hidden (h : Reordered T T') (hhides : hidesSysinfo T = true) (smbiosVer : Nat) (beyond : List Byte) :
    ∃ pre post, ∀ x, inventory smbiosVer beyond T (onlyP4 x) = pre ++ (cstr x ++ post) := by
  obtain ⟨P, b, R, -, -, -, hsearch⟩ := search_exists (before_exists hhides).2
  have hsystems : systems T = (none, T) := by
    rw [systems_eq h.sys, hhides]
    rfl
  have hbioses : bioses T = (some b, R) := hsearch
  refine ⟨biosLine (cstr (b.shown 4)) (cstr (b.shown 5)) (cstr (b.shown 8)) ++
      (ascii "S1:" ++ cstr (b.shown 4) ++ ascii "|" ++ cstr (b.shown 5) ++ ascii "|" ++ cstr (b.shown 8) ++ ascii "|"),
    ascii "|" ++ (uuidText smbiosVer [] ++ (enclosureText beyond T (onlyP4 []) ++ endText smbiosVer T)), fun x => ?_⟩
  have hshown : ∀ y, shownSys beyond T (onlyP4 y) = { onlyP4 y with p1 := b.shown 4, p2 := b.shown 5, p3 := b.shown 8 } := by
    intro y
    rw [shownSys, hsystems, hbioses]
    rfl
  have hline : enclosureText beyond T (onlyP4 x) = enclosureText beyond T (onlyP4 []) := by
    rw [enclosureText, enclosureText, hshown, hshown]
    cases (enclosures T).1 <;> rfl
  rw [inventory_parts, hline, hshown, hbioses]
  simp only [Shown.bios, sysLine, onlyP4, List.append_assoc]

theorem inventory_seen (h : Reordered T T') (hsees : hidesSysinfo T = false)
    (hbios : ∃ s ∈ T, s.type.toNat = 0) (hsys : ∃ s ∈ T, s.type.toNat = 1) (smbiosVer : Nat)
    (beyond : List Byte) (g g' : Shown) :
    inventory smbiosVer beyond T g = inventory smbiosVer beyond T g' := by
  obtain ⟨P, b, R, -, -, -, hsearch⟩ := search_exists hbios
  obtain ⟨Q, s, S, -, -, -, hsearch'⟩ := search_exists hsys
  have hsystems : systems T = (some s, S) := by
    rw [systems_eq h.sys, hsees, hsearch']
    rfl
  have hbioses : bioses T = (some b, R) := hsearch
  rw [inventory_parts, inventory_parts, enclosureText, enclosureText, shownSys, shownSys,
    hsystems, hbioses]
  cases (enclosures T).1 <;> rfl

/-- An order that hides the system structure prints what the pointers show at first. -/
theorem hidesSysinfo_of_same (h : Reordered T T')
    (hsame : ∀ g, inventory smbiosVer beyond T g = inventory smbiosVer beyond' T' g)
    (hhides : hidesSysinfo T = true) :
    hidesSysinfo T' = true := by
  by_contra hsees
  obtain ⟨⟨s, hs, hk⟩, b, hb, hk0⟩ := before_exists hhides
  obtain ⟨pre, post, htext⟩ := inventory_hidden h hhides smbiosVer beyond
  have heq := inventory_seen h.symm (Bool.eq_false_iff.mpr hsees) ⟨b, h.perm.mem_iff.mp hb, hk0⟩
    ⟨s, h.perm.mem_iff.mp hs, hk⟩ smbiosVer beyond' (onlyP4 []) (onlyP4 [65])
  rw [← hsame, ← hsame, htext, htext] at heq
  have hcancel := List.append_cancel_right (List.append_cancel_left heq)
  cases hcancel

theorem inventory_sameView (hT : ∀ s ∈ T, s.WellFormed smbiosVer)
    (hT' : ∀ s ∈ T', s.WellFormed smbiosVer) (h : Reordered T T')
    (hsame : ∀ g, inventory smbiosVer beyond T g = inventory smbiosVer beyond' T' g) :
    SameView smbiosVer beyond beyond' T T' := by
  have hf : ∀ s ∈ T, s.Formed := fun s hs => (hT s hs).toFormed
  have hf' : ∀ s ∈ T', s.Formed := fun s hs => (hT' s hs).toFormed
  have hsys : hidesSysinfo T = hidesSysinfo T' := Bool.eq_iff_iff.mpr
    ⟨hidesSysinfo_of_same h hsame, hidesSysinfo_of_same h.symm fun g => (hsame g).symm⟩
  have hparts := hsame (onlyP4 [])
  have hshown : shownSys beyond T (onlyP4 []) =
      { shownSys beyond' T' (onlyP4 []) with p := (shownSys beyond T (onlyP4 [])).p } := by
    rw [shownSys, shownSys, h.bioses_fst]
    exact Shown.sys_congr _ (h.systems_fst hsys)
  have hhead : sysLine (cstr (shownSys beyond T (onlyP4 [])).p1)
      (cstr (shownSys beyond T (onlyP4 [])).p2)
      (cstr (shownSys beyond T (onlyP4 [])).p3) (cstr (shownSys beyond T (onlyP4 [])).p4) =
      sysLine (cstr (shownSys beyond' T' (onlyP4 [])).p1) (cstr (shownSys beyond' T' (onlyP4 [])).p2)
        (cstr (shownSys beyond' T' (onlyP4 [])).p3) (cstr (shownSys beyond' T' (onlyP4 [])).p4) := by
    rw [hshown]
  rw [inventory_parts, inventory_parts, hhead, h.bioses_fst] at hparts
  obtain ⟨huuid, hrest⟩ := List.append_inj (List.append_cancel_left hparts) (uuidText_length _ _ _)
  have hend : (hidesEnclosure T = hidesEnclosure T' ∨ SameEnclosureLine T) ∧
      endText smbiosVer T = endText smbiosVer T' := by
    cases hhides : hidesEnclosure T with
    | true =>
      cases hhides' : hidesEnclosure T' with
      | true =>
        rw [h.enclosureText_eq hsys (hhides.trans hhides'.symm) beyond beyond'] at hrest
        exact ⟨Or.inl rfl, List.append_cancel_left hrest⟩
      | false =>
        obtain ⟨s, hs, hk, hhidden⟩ := enclosureText_hidden hf h hhides beyond (onlyP4 [])
        obtain ⟨e, he, hk'⟩ := (before_exists ((Bool.and_eq_true_iff).mp hhides).2).1
        rw [hhidden, enclosureText_seen hf' h.symm hhides' (h.perm.mem_iff.mp he) hk'] at hrest
        obtain ⟨hline, htail⟩ := enclosureLine_append (text_newline _ _) (text_newline _ _) hrest
        exact ⟨Or.inr ⟨s, hs, e, he, hk, hk', hline.1, hline.2⟩, htail⟩
    | false =>
      cases hhides' : hidesEnclosure T' with
      | false =>
        rw [h.enclosureText_eq hsys (hhides.trans hhides'.symm) beyond beyond'] at hrest
        exact ⟨Or.inl rfl, List.append_cancel_left hrest⟩
      | true =>
        obtain ⟨s, hs, hk, hhidden⟩ := enclosureText_hidden hf' h.symm hhides' beyond' (onlyP4 [])
        obtain ⟨e, he, hk'⟩ := (before_exists ((Bool.and_eq_true_iff).mp hhides').2).1
        rw [hhidden, enclosureText_seen hf h hhides (h.perm.mem_iff.mpr he) hk'] at hrest
        obtain ⟨hline, htail⟩ := enclosureLine_append (text_newline _ _) (text_newline _ _) hrest.symm
        exact ⟨Or.inr ⟨s, h.perm.mem_iff.mpr hs, e, h.perm.mem_iff.mpr he, hk, hk', hline.1,
          hline.2⟩, htail.symm⟩
  exact ⟨hsys, (h.uuidText_iff hT hsys (onlyP4 [])).mp huuid, hend.1,
    (h.endText_iff smbiosVer).mp hend.2⟩

theorem Reordered.wellFormed (h : Reordered T T') (hT : ∀ s ∈ T, s.WellFormed smbiosVer) :
    ∀ s ∈ T', s.WellFormed smbiosVer :=
  fun s hs => hT s (h.perm.mem_iff.mpr hs)

/-- The inventory does not depend on the order of the table exactly if the two orders hide the same
structures from the getters. -/
theorem inventory_order (hT : ∀ s ∈ T, s.WellFormed smbiosVer) (h : Reordered T T') (beyond beyond' : List Byte) :
    (∀ g : Shown, smbiosInfos smbiosVer (encodeTable T).length T.length (encodeTable T ++ beyond) g.pointers =
        smbiosInfos smbiosVer (encodeTable T').length T'.length (encodeTable T' ++ beyond') g.pointers) ↔
      SameView smbiosVer beyond beyond' T T' := by
  have hT' := h.wellFormed hT
  have hinfos : ∀ g : Shown, (smbiosInfos smbiosVer (encodeTable T).length T.length
      (encodeTable T ++ beyond) g.pointers =
        smbiosInfos smbiosVer (encodeTable T').length T'.length
        (encodeTable T' ++ beyond') g.pointers) ↔
      inventory smbiosVer beyond T g = inventory smbiosVer beyond' T' g := by
    intro g
    rw [smbiosInfos_eq hT beyond g, smbiosInfos_eq hT' beyond' g, Option.some.injEq]
  rw [forall_congr' hinfos]
  exact ⟨inventory_sameView hT hT' h, sameView_inventory hT hT' h⟩

end

instance (smbiosVer : Nat) (s : SmbiosStruct) : Decidable (s.WellFormed smbiosVer) :=
  decidable_of_iff ((s.length < 256 ∧ (∀ t ∈ s.strings, t ≠ []) ∧ ∀ t ∈ s.strings, (0 : Byte) ∉ t) ∧
      (s.type.toNat = 0 → 9 ≤ s.length) ∧ (s.type.toNat = 1 → 8 ≤ s.length) ∧
      (s.type.toNat = 1 → 21 ≤ smbiosVer → 24 ≤ s.length) ∧ (s.type.toNat = 3 → 6 ≤ s.length) ∧
      (s.type.toNat = 17 → 21 ≤ s.length) ∧ (s.type.toNat = 17 → 23 ≤ smbiosVer → 23 ≤ s.length))
    ⟨fun ⟨⟨h₁, h₂, h₃⟩, h₄, h₅, h₆, h₇, h₈, h₉⟩ => ⟨⟨h₁, h₂, h₃⟩, h₄, h₅, h₆, h₇, h₈, h₉⟩,
      fun ⟨⟨h₁, h₂, h₃⟩, h₄, h₅, h₆, h₇, h₈, h₉⟩ => ⟨⟨h₁, h₂, h₃⟩, h₄, h₅, h₆, h₇, h₈, h₉⟩⟩

def biosStruct : SmbiosStruct := ⟨0, (0, 0), [1, 2, 0, 0xF0, 3], [ascii "Vendor", ascii "1.0", ascii "01/01/2010"]⟩

def systemStruct : SmbiosStruct := ⟨1, (1, 0), [1, 2, 0, 3] ++ List.replicate 16 0xAB, [ascii "Maker", ascii "Model", ascii "S1"]⟩

def enclosureStruct : SmbiosStruct := ⟨3, (3, 0), [1, 3, 0, 2], [ascii "Maker", ascii "S2"]⟩

def processorStruct : SmbiosStruct := ⟨4, (4, 0), [1, 3, 2, 2], [ascii "CPU0", ascii "Maker"]⟩

def memoryStruct : SmbiosStruct := ⟨17, (17, 0), List.replicate 23 0 ++ [1], [ascii "DIMM0"]⟩

/-- The processor and the memory module, which is seen in neither of the two tables, change their places. -/
theorem inventory_order_example :
    SameView 23 [] [] [memoryStruct, biosStruct, systemStruct, processorStruct, enclosureStruct]
      [processorStruct, biosStruct, memoryStruct, systemStruct, enclosureStruct] ∧
    ∀ g : Shown,
      smbiosInfos 23 (encodeTable [memoryStruct, biosStruct, systemStruct, processorStruct, enclosureStruct]).length 5
          (encodeTable [memoryStruct, biosStruct, systemStruct, processorStruct, enclosureStruct] ++ []) g.pointers =
        smbiosInfos 23 (encodeTable [processorStruct, biosStruct, memoryStruct, systemStruct, enclosureStruct]).length 5
          (encodeTable [processorStruct, biosStruct, memoryStruct, systemStruct, enclosureStruct] ++ []) g.pointers := by
  have hview : SameView 23 [] [] [memoryStruct, biosStruct, systemStruct, processorStruct,
      enclosureStruct]
      [processorStruct, biosStruct, memoryStruct, systemStruct, enclosureStruct] :=
    ⟨by decide, fun h => absurd h (by decide), Or.inl (by decide), by decide⟩
  exact ⟨hview, (inventory_order (by decide) ⟨by decide, by decide, by decide, by decide,
    by decide⟩ [] []).mpr hview⟩

theorem example_wellFormed : ∀ s ∈ [biosStruct, systemStruct], s.WellFormed 23 := by decide

theorem reordered_example : Reordered [biosStruct, systemStruct] [systemStruct, biosStruct] :=
  ⟨List.Perm.swap _ _ _, by decide, by decide, by decide, by decide⟩

/-- With the system structure first, the `S1` line repeats the texts of the BIOS. -/
theorem systemFirst_differs :
    ¬ ∀ (smbiosVer : Nat) (T T' : List SmbiosStruct), (∀ s ∈ T, s.WellFormed smbiosVer) → Reordered T T' →
      ∀ g : Shown, smbiosInfos smbiosVer (encodeTable T).length T.length (encodeTable T) g.pointers =
        smbiosInfos smbiosVer (encodeTable T').length T'.length (encodeTable T') g.pointers := by
  intro hall
  have hsame := hall 23 _ _ example_wellFormed reordered_example ⟨[], [], [], [], []⟩
  revert hsame
  decide

end PulseImaging
