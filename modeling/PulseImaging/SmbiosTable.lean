import PulseImaging.CText
import Mathlib.Data.List.GetD

/-! The SMBIOS table in memory. The structures are read one after the other by an
iterator that keeps its place between two calls; a string is found by its number
behind the formatted area of its structure. -/

namespace PulseImaging

/-- A pointer into the memory from `smbios_base` on, or at bytes elsewhere. -/
inductive Pointer where
  | addr (a : Nat)
  | elsewhere (bytes : List Byte)

def Pointer.deref (mem : List Byte) : Pointer → List Byte
  | .addr a => mem.drop a
  | .elsewhere bytes => bytes

def byteAt (mem : List Byte) (a : Nat) : Byte := mem.getD a 0

/-! ### Strings -/

def skipStrings (mem : List Byte) : Nat → Nat → Nat
  | 0, bp => bp
  | s + 1, bp =>
    if byteAt mem bp = 0 then bp else skipStrings mem s (bp + (cstr (mem.drop bp)).length + 1)

/-- A `char` is signed: the bytes from 128 on are below 32 as well. -/
def dotted (b : Byte) : Byte := if b < 32 ∨ 127 ≤ b then 46 else b

/-- The string at the beginning is rewritten in place. -/
def dotString (s : List Byte) : List Byte := (cstr s).map dotted ++ s.dropWhile (· != 0)

def smbiosString (mem : List Byte) (dm s : Nat) : Pointer × List Byte :=
  if s = 0 then (.elsewhere (ascii "-" ++ [0]), mem)
  else
    let bp := skipStrings mem (s - 1) (dm + (byteAt mem (dm + 1)).toNat)
    if byteAt mem bp = 0 then (.elsewhere (ascii "badindex" ++ [0]), mem)
    else (.addr bp, mem.take bp ++ dotString (mem.drop bp))

/-! ### The iterator -/

/-- How far `next` moves before two zeros, or before the end of the table. -/
def skipEnd : Nat → List Byte → Nat
  | 0, _ => 0
  | room + 1, s => if byteAt s 0 ≠ 0 ∨ byteAt s 1 ≠ 0 then skipEnd room (s.drop 1) + 1 else 0

/-- The value returned and `ptr`; with `ptr` the number of structures that are left, `smbios_num - i`. -/
def smbiosGetLoop (mem : List Byte) (smbiosLen rtype : Nat) : Nat → Nat → Option Nat × Option (Nat × Nat)
  | 0, _ => (none, none)
  | left + 1, ptr =>
    let len := (byteAt mem (ptr + 1)).toNat
    let next := ptr + len + skipEnd (smbiosLen - (ptr + len + 1)) (mem.drop (ptr + len)) + 2
    if (byteAt mem ptr).toNat = rtype then (some ptr, some (next, left))
    else smbiosGetLoop mem smbiosLen rtype left next

/-- With `ptr` at NULL the search starts at the first structure. -/
def smbiosGet (mem : List Byte) (smbiosLen smbiosNum rtype : Nat) (ptr : Option (Nat × Nat)) :
    Option Nat × Option (Nat × Nat) :=
  match ptr with
  | none => smbiosGetLoop mem smbiosLen rtype smbiosNum 0
  | some (a, left) => smbiosGetLoop mem smbiosLen rtype left a

/-! ### Well-formed structures -/

structure SmbiosStruct where
  type : Byte
  handle : Byte × Byte
  fields : List Byte
  strings : List (List Byte)
deriving DecidableEq

/-- The strings, each with its terminator, and the zero behind the last one. -/
def stringsBytes : List (List Byte) → List Byte
  | [] => [0]
  | t :: ts => t ++ 0 :: stringsBytes ts

/-- A structure without strings ends with two zeros as well. -/
def stringsPad (ss : List (List Byte)) : List Byte := if ss = [] then [0] else []

def SmbiosStruct.length (s : SmbiosStruct) : Nat := 4 + s.fields.length

def SmbiosStruct.header (s : SmbiosStruct) : List Byte :=
  [s.type, UInt8.ofNat s.length, s.handle.1, s.handle.2] ++ s.fields

def SmbiosStruct.encode (s : SmbiosStruct) : List Byte :=
  s.header ++ (stringsBytes s.strings ++ stringsPad s.strings)

def encodeTable (T : List SmbiosStruct) : List Byte := T.flatMap SmbiosStruct.encode

/-- The formatted area ends before offset 256, and strings are not empty. -/
structure SmbiosStruct.Formed (s : SmbiosStruct) : Prop where
  length_lt : s.length < 256
  string_pos : ∀ t ∈ s.strings, t ≠ []
  string_zero : ∀ t ∈ s.strings, (0 : Byte) ∉ t

section

variable {s : SmbiosStruct} {A rest : List Byte}

theorem byteAt_append (A x : List Byte) (k : Nat) : byteAt (A ++ x) (A.length + k) = byteAt x k := by
  rw [byteAt, byteAt, List.getD_append_right _ _ _ _ (Nat.le_add_right ..), Nat.add_sub_cancel_left]

theorem byteAt_append_zero (A x : List Byte) :
    byteAt (A ++ x) A.length = byteAt x 0 := byteAt_append A x 0

theorem byteAt_drop (mem : List Byte) (a k : Nat) : byteAt (mem.drop a) k = byteAt mem (a + k) := by
  rw [byteAt, byteAt, List.getD_eq_getElem?_getD, List.getElem?_drop, List.getD_eq_getElem?_getD]

theorem drop_append_length_add (A x : List Byte) (k : Nat) :
    (A ++ x).drop (A.length + k) = x.drop k := by
  rw [List.drop_append, List.drop_eq_nil_of_le (Nat.le_add_right ..), Nat.add_sub_cancel_left,
    List.nil_append]

@[simp] theorem SmbiosStruct.header_length (s : SmbiosStruct) : s.header.length = s.length := by
  rw [header, List.length_append, SmbiosStruct.length]
  rfl

theorem SmbiosStruct.encode_length (s : SmbiosStruct) :
    s.encode.length = s.length + ((stringsBytes s.strings).length +
      (stringsPad s.strings).length) := by
  rw [encode, List.length_append, header_length, List.length_append]

theorem byteAt_type (s : SmbiosStruct) (A rest : List Byte) :
    byteAt (A ++ (s.encode ++ rest)) A.length = s.type := by
  rw [byteAt_append_zero]
  rfl

theorem byteAt_length (hs : s.Formed) :
    (byteAt (A ++ (s.encode ++ rest)) (A.length + 1)).toNat = s.length := by
  rw [byteAt_append]
  exact UInt8.toNat_ofNat_of_lt' hs.length_lt

theorem byteAt_field {k : Nat} (hk : 4 ≤ k) (hlt : k < s.length) :
    byteAt (A ++ (s.encode ++ rest)) (A.length + k) = s.fields.getD (k - 4) 0 := by
  have h4 : ([s.type, UInt8.ofNat s.length, s.handle.1, s.handle.2] : List Byte).length ≤ k := hk
  rw [byteAt_append, byteAt, SmbiosStruct.encode, List.append_assoc,
    List.getD_append _ _ _ _ (by rwa [SmbiosStruct.header_length]), SmbiosStruct.header,
    List.getD_append_right _ _ _ _ h4]
  rfl

theorem drop_length_encode (s : SmbiosStruct) (A rest : List Byte) :
    (A ++ (s.encode ++ rest)).drop (A.length + s.length) =
      stringsBytes s.strings ++ (stringsPad s.strings ++ rest) := by
  rw [drop_append_length_add, SmbiosStruct.encode, List.append_assoc, ← SmbiosStruct.header_length,
    List.drop_left, List.append_assoc]

/-! ### The end of a structure -/

theorem skipEnd_string {t x : List Byte} (ht : (0 : Byte) ∉ t) (room : Nat) :
    skipEnd (t.length + room) (t ++ x) = t.length + skipEnd room x := by
  induction t with
  | nil => rw [List.length_nil, Nat.zero_add, List.nil_append, Nat.zero_add]
  | cons b t ih =>
    have hb : byteAt (b :: t ++ x) 0 ≠ 0 := fun h => ht (h ▸ List.mem_cons_self)
    have hroom : (b :: t).length + room = t.length + room + 1 := by rw [List.length_cons]; omega
    rw [hroom, skipEnd, if_pos (Or.inl hb), List.cons_append, List.drop_one, List.tail_cons,
      ih fun h => ht (List.mem_cons_of_mem _ h), List.length_cons]
    omega

theorem stringsBytes_length_pos (ss : List (List Byte)) : 0 < (stringsBytes ss).length := by
  cases ss with
  | nil => decide
  | cons t ts => rw [stringsBytes, List.length_append, List.length_cons]; omega

/-- From the terminator of a string the search runs to the last one. -/
theorem skipEnd_strings {ss : List (List Byte)} (hpos : ∀ t ∈ ss, t ≠ [])
    (hzero : ∀ t ∈ ss, (0 : Byte) ∉ t) {room : Nat} (hroom : (stringsBytes ss).length ≤ room)
    (x : List Byte) :
    skipEnd room (0 :: (stringsBytes ss ++ x)) = (stringsBytes ss).length - 1 := by
  induction ss generalizing room with
  | nil =>
    obtain ⟨r, rfl⟩ := Nat.exists_eq_add_of_le' hroom
    exact if_neg (by simp [byteAt, stringsBytes])
  | cons t ts ih =>
    have hts := stringsBytes_length_pos ts
    have hlength : (stringsBytes (t :: ts)).length = t.length + ((stringsBytes ts).length + 1) := by
      rw [stringsBytes, List.length_append, List.length_cons]
    obtain ⟨r, rfl⟩ : ∃ r, room = t.length + ((stringsBytes ts).length + r) + 1 :=
      ⟨room - (stringsBytes (t :: ts)).length, by omega⟩
    obtain ⟨b, u, hbu⟩ := List.exists_cons_of_ne_nil (hpos t List.mem_cons_self)
    have hb : byteAt (0 :: (stringsBytes (t :: ts) ++ x)) 1 ≠ 0 := by
      rw [stringsBytes, hbu]
      exact fun h => hzero t List.mem_cons_self (hbu ▸ (show b = 0 from h) ▸ List.mem_cons_self)
    rw [skipEnd, if_pos (Or.inr hb), List.drop_one, List.tail_cons, stringsBytes, List.append_assoc,
      skipEnd_string (hzero t List.mem_cons_self), List.cons_append,
      ih (fun u hu => hpos u (List.mem_cons_of_mem _ hu))
      (fun u hu => hzero u (List.mem_cons_of_mem _ hu))
        (Nat.le_add_right ..), List.length_append, List.length_cons]
    omega

theorem skipEnd_encode (hs : s.Formed) {room : Nat}
    (hroom : (stringsBytes s.strings).length + (stringsPad s.strings).length ≤ room + 1) :
    skipEnd room (stringsBytes s.strings ++ (stringsPad s.strings ++ rest)) + 2 =
      (stringsBytes s.strings).length + (stringsPad s.strings).length := by
  cases hss : s.strings with
  | nil =>
    cases room with
    | zero => rfl
    | succ r => exact congrArg (· + 2) (if_neg (by simp [byteAt, stringsBytes, stringsPad]))
  | cons t ts =>
    rw [hss, stringsPad, if_neg (List.cons_ne_nil _ _), List.length_nil, Nat.add_zero] at hroom
    have hts := stringsBytes_length_pos ts
    have hlength : (stringsBytes (t :: ts)).length = t.length + ((stringsBytes ts).length + 1) := by
      rw [stringsBytes, List.length_append, List.length_cons]
    have hmem : ∀ u ∈ t :: ts, u ∈ s.strings := fun u hu => hss ▸ hu
    obtain ⟨r, rfl⟩ : ∃ r, room = t.length + ((stringsBytes ts).length + r) :=
      ⟨room + 1 - (stringsBytes (t :: ts)).length, by omega⟩
    rw [stringsPad, if_neg (List.cons_ne_nil _ _), List.nil_append, stringsBytes, List.append_assoc,
      skipEnd_string (hs.string_zero t (hmem t List.mem_cons_self)), List.cons_append,
      skipEnd_strings (fun u hu => hs.string_pos u (hmem u (List.mem_cons_of_mem _ hu)))
        (fun u hu => hs.string_zero u (hmem u (List.mem_cons_of_mem _ hu))) (Nat.le_add_right ..),
      List.length_append, List.length_cons, List.length_nil]
    omega

/-! ### The iterator on a table -/

theorem encodeTable_append (P S : List SmbiosStruct) :
    encodeTable (P ++ S) = encodeTable P ++ encodeTable S :=
  List.flatMap_append

theorem encodeTable_cons (s : SmbiosStruct) (S : List SmbiosStruct) :
    encodeTable (s :: S) = s.encode ++ encodeTable S :=
  List.flatMap_cons

theorem encodeTable_concat (P : List SmbiosStruct) (s : SmbiosStruct) :
    encodeTable (P ++ [s]) = encodeTable P ++ s.encode := by
  rw [encodeTable_append, encodeTable_cons]
  exact congrArg (encodeTable P ++ ·) (List.append_nil _)

theorem memory_split (P : List SmbiosStruct) (s : SmbiosStruct) (S : List SmbiosStruct)
    (beyond : List Byte) :
    encodeTable (P ++ s :: S) ++ beyond = encodeTable P ++
      (s.encode ++ (encodeTable S ++ beyond)) := by
  rw [encodeTable_append, encodeTable_cons, List.append_assoc, List.append_assoc]

/-- The iterator in front of the structures `S`. -/
def place (P S : List SmbiosStruct) : Option (Nat × Nat) := some ((encodeTable P).length, S.length)

/-- One structure is read: it is returned, or the search goes on behind it. -/
theorem smbiosGetLoop_cons {P S : List SmbiosStruct} (hs : s.Formed) (beyond : List Byte)
    (rtype : Nat) :
    smbiosGetLoop (encodeTable (P ++ s :: S) ++ beyond) (encodeTable (P ++ s :: S)).length rtype
      (S.length + 1)
        (encodeTable P).length =
      if s.type.toNat = rtype then (some (encodeTable P).length, place (P ++ [s]) S)
      else smbiosGetLoop (encodeTable (P ++ s :: S) ++ beyond)
        (encodeTable (P ++ s :: S)).length rtype S.length
        (encodeTable (P ++ [s])).length := by
  have hroom : (encodeTable P).length + s.encode.length ≤ (encodeTable (P ++ s :: S)).length := by
    rw [encodeTable_append, encodeTable_cons, List.length_append, List.length_append]
    omega
  rw [s.encode_length] at hroom
  have hnext : (encodeTable P).length + s.length +
      skipEnd ((encodeTable (P ++ s :: S)).length - ((encodeTable P).length + s.length + 1))
        ((encodeTable (P ++ s :: S) ++ beyond).drop ((encodeTable P).length + s.length)) + 2 =
      (encodeTable (P ++ [s])).length := by
    rw [memory_split, drop_length_encode, Nat.add_assoc, skipEnd_encode hs (by omega),
      encodeTable_concat, List.length_append, s.encode_length]
    omega
  have hlen : (byteAt (encodeTable (P ++ s :: S) ++ beyond) ((encodeTable P).length + 1)).toNat =
      s.length := by
    rw [memory_split, byteAt_length hs]
  have htype : byteAt (encodeTable (P ++ s :: S) ++ beyond) (encodeTable P).length = s.type := by
    rw [memory_split, byteAt_type]
  simp only [smbiosGetLoop, hlen, hnext, htype]
  rfl

theorem smbiosGetLoop_some {P Q S : List SmbiosStruct} (hf : ∀ q ∈ Q ++ s :: S, q.Formed)
    (beyond : List Byte) {rtype : Nat} (hQ : ∀ q ∈ Q, q.type.toNat ≠ rtype)
    (hs : s.type.toNat = rtype) :
    smbiosGetLoop (encodeTable (P ++ (Q ++ s :: S)) ++ beyond)
      (encodeTable (P ++ (Q ++ s :: S))).length rtype
        (Q ++ s :: S).length (encodeTable P).length =
      (some (encodeTable (P ++ Q)).length, place (P ++ (Q ++ [s])) S) := by
  induction Q generalizing P with
  | nil =>
    rw [List.nil_append, List.length_cons, smbiosGetLoop_cons
      (hf s (List.mem_append_right _ List.mem_cons_self)) beyond,
      if_pos hs, List.append_nil, List.nil_append]
  | cons q Q ih =>
    have h := ih (P := P ++ [q]) (fun x hx => hf x (List.mem_cons_of_mem _ hx)) fun x hx => hQ x
      (List.mem_cons_of_mem _ hx)
    simp only [List.append_assoc, List.singleton_append] at h
    rw [List.cons_append, List.length_cons, smbiosGetLoop_cons (hf q List.mem_cons_self) beyond,
      if_neg (hQ q List.mem_cons_self), h, List.cons_append]

theorem smbiosGetLoop_none {P S : List SmbiosStruct} (hf : ∀ s ∈ S, s.Formed) (beyond : List Byte)
    {rtype : Nat} (hS : ∀ s ∈ S, s.type.toNat ≠ rtype) :
    smbiosGetLoop (encodeTable (P ++ S) ++ beyond) (encodeTable (P ++ S)).length rtype S.length
      (encodeTable P).length =
      (none, none) := by
  induction S generalizing P with
  | nil => rfl
  | cons s S ih =>
    have h := ih (P := P ++ [s]) (fun x hx => hf x (List.mem_cons_of_mem _ hx)) fun x hx => hS x
      (List.mem_cons_of_mem _ hx)
    rw [List.append_assoc, List.singleton_append] at h
    rw [List.length_cons, smbiosGetLoop_cons (hf s List.mem_cons_self) beyond,
      if_neg (hS s List.mem_cons_self), h]

/-! ### Strings of a structure -/

def stringsInit (ss : List (List Byte)) (n : Nat) : List Byte := (ss.take n).flatMap (· ++ [0])

theorem stringsBytes_split (ss : List (List Byte)) (n : Nat) :
    stringsBytes ss = stringsInit ss n ++ stringsBytes (ss.drop n) := by
  induction ss generalizing n with
  | nil => rw [stringsInit, List.take_nil, List.drop_nil]; rfl
  | cons t ts ih =>
    cases n with
    | zero => rfl
    | succ n =>
      have h : stringsInit (t :: ts) (n + 1) = t ++ 0 :: stringsInit ts n := by
        rw [stringsInit, List.take_succ_cons, List.flatMap_cons, List.append_assoc]
        rfl
      rw [stringsBytes, ih n, h, List.append_assoc, List.drop_succ_cons]
      rfl

theorem byteAt_stringsBytes {ss : List (List Byte)} (hpos : ∀ t ∈ ss, t ≠ [])
    (hzero : ∀ t ∈ ss, (0 : Byte) ∉ t) (x : List Byte) :
    byteAt (stringsBytes ss ++ x) 0 = 0 ↔ ss = [] := by
  cases ss with
  | nil => exact ⟨fun _ => rfl, fun _ => rfl⟩
  | cons t ts =>
    obtain ⟨b, u, rfl⟩ := List.exists_cons_of_ne_nil (hpos t List.mem_cons_self)
    refine ⟨fun h => absurd ?_ (hzero _ List.mem_cons_self), fun h => absurd h (List.cons_ne_nil _ _)⟩
    exact (show b = 0 from h) ▸ List.mem_cons_self

theorem skipStrings_eq {ss : List (List Byte)} (hpos : ∀ t ∈ ss, t ≠ [])
    (hzero : ∀ t ∈ ss, (0 : Byte) ∉ t) (A x : List Byte) (n : Nat) :
    skipStrings (A ++ (stringsBytes ss ++ x)) n A.length = A.length + (stringsInit ss n).length := by
  induction n generalizing ss A with
  | zero => rfl
  | succ n ih =>
    rw [skipStrings, byteAt_append_zero]
    cases ss with
    | nil => exact if_pos rfl
    | cons t ts =>
      have htext : (cstr ((A ++ (stringsBytes (t :: ts) ++ x)).drop A.length)).length = t.length := by
        rw [List.drop_left, stringsBytes, List.append_assoc, List.cons_append,
          cstr_append_zero (hzero t List.mem_cons_self)]
      have hmem : A ++ (stringsBytes (t :: ts) ++ x) =
          (A ++ (t ++ [0])) ++ (stringsBytes ts ++ x) := by
        simp only [stringsBytes, List.append_assoc, List.cons_append, List.nil_append]
      have hlength : A.length + t.length + 1 = (A ++ (t ++ [0])).length := by
        rw [List.length_append, List.length_append, List.length_singleton]
        omega
      have hinit : (stringsInit (t :: ts) (n + 1)).length =
          (t ++ [0]).length + (stringsInit ts n).length := by
        rw [stringsInit, List.take_succ_cons, List.flatMap_cons, List.length_append]
        rfl
      rw [if_neg (mt (byteAt_stringsBytes hpos hzero x).mp (List.cons_ne_nil _ _)), htext,
        hmem, hlength,
        ih (fun u hu => hpos u (List.mem_cons_of_mem _ hu))
        (fun u hu => hzero u (List.mem_cons_of_mem _ hu)), hinit, List.length_append]
      omega

theorem dotted_ne_zero {b : Byte} (h : b ≠ 0) : dotted b ≠ 0 := by
  rw [dotted]
  split
  · decide
  · exact h

theorem dotString_append {t : List Byte} (ht : (0 : Byte) ∉ t) (x : List Byte) :
    dotString (t ++ 0 :: x) = t.map dotted ++ 0 :: x := by
  have hdrop : (t ++ 0 :: x).dropWhile (· != 0) = 0 :: x := by
    rw [List.dropWhile_append_of_pos fun b hb => by simpa using fun h : b = 0 => ht (h ▸ hb)]
    rfl
  rw [dotString, cstr_append_zero ht, hdrop]

/-- What string number `i` of the structure reads. -/
def SmbiosStruct.raw (s : SmbiosStruct) (i : Nat) : List Byte :=
  if i = 0 then ascii "-" else (s.strings[i - 1]?).getD (ascii "badindex")

def SmbiosStruct.text (s : SmbiosStruct) (i : Nat) : List Byte := (s.raw i).map dotted

def SmbiosStruct.pointer (s : SmbiosStruct) (dm i : Nat) : Pointer :=
  if i = 0 then .elsewhere (ascii "-" ++ [0])
  else if i - 1 < s.strings.length then .addr (dm + s.length + (stringsInit s.strings (i - 1)).length)
  else .elsewhere (ascii "badindex" ++ [0])

/-- String number `i` has been rewritten. -/
def SmbiosStruct.dot (s : SmbiosStruct) (i : Nat) : SmbiosStruct :=
  if i = 0 then s else { s with strings := s.strings.modify (i - 1) (·.map dotted) }

@[simp] theorem SmbiosStruct.dot_type (s : SmbiosStruct) (i : Nat) : (s.dot i).type = s.type := by
  rw [dot]
  split <;> rfl

@[simp] theorem SmbiosStruct.dot_fields (s : SmbiosStruct) (i : Nat) :
    (s.dot i).fields = s.fields := by
  rw [dot]
  split <;> rfl

@[simp] theorem SmbiosStruct.dot_length (s : SmbiosStruct) (i : Nat) :
    (s.dot i).length = s.length := by
  rw [length, dot_fields, length]

theorem SmbiosStruct.dot_header (s : SmbiosStruct) (i : Nat) : (s.dot i).header = s.header := by
  rw [dot]
  split <;> rfl

theorem SmbiosStruct.dot_strings (s : SmbiosStruct) (i j : Nat) :
    (s.dot i).strings[j]? = (s.strings[j]?).map (fun t => if i = j + 1 then t.map dotted else t) := by
  by_cases h : i = 0
  · have hne : ¬ i = j + 1 := by omega
    simp only [dot, h, if_true, h ▸ hne, if_false, Option.map_id_fun', id]
  · have hcond : i - 1 = j ↔ i = j + 1 := by omega
    rw [dot, if_neg h, List.getElem?_modify]
    simp only [hcond]
    rfl

theorem mem_dot_strings {i : Nat} {t : List Byte} (ht : t ∈ (s.dot i).strings) :
    ∃ u ∈ s.strings, t = u ∨ t = u.map dotted := by
  obtain ⟨j, hj⟩ := List.mem_iff_getElem?.mp ht
  rw [SmbiosStruct.dot_strings] at hj
  obtain ⟨u, hu, rfl⟩ := Option.map_eq_some_iff.mp hj
  refine ⟨u, List.mem_of_getElem? hu, ?_⟩
  split
  · exact Or.inr rfl
  · exact Or.inl rfl

theorem SmbiosStruct.Formed.dot (hs : s.Formed) (i : Nat) : (s.dot i).Formed where
  length_lt := (s.dot_length i).symm ▸ hs.length_lt
  string_pos t ht := by
    obtain ⟨u, hu, rfl | rfl⟩ := mem_dot_strings ht
    · exact hs.string_pos t hu
    · exact fun h => hs.string_pos u hu (List.map_eq_nil_iff.mp h)
  string_zero t ht := by
    obtain ⟨u, hu, rfl | rfl⟩ := mem_dot_strings ht
    · exact hs.string_zero t hu
    · intro h0
      obtain ⟨b, hb, h⟩ := List.mem_map.mp h0
      exact dotted_ne_zero (fun hb0 => hs.string_zero u hu (hb0 ▸ hb)) h

theorem map_dotted_ascii {t : String} (h : (ascii t).all (fun b => dotted b == b) = true) :
    (ascii t).map dotted = ascii t :=
  (List.map_congr_left fun b hb => by simpa using List.all_eq_true.mp h b hb).trans (List.map_id _)

/-- The texts that stand for a missing string have no byte to rewrite. -/
theorem SmbiosStruct.dot_raw (s : SmbiosStruct) (i j : Nat) :
    (s.dot i).raw j = if i = j then s.text j else s.raw j := by
  by_cases hj : j = 0
  · rw [raw, text, raw, if_pos hj, if_pos hj, map_dotted_ascii (by decide), ite_self]
  · rw [raw, text, raw, if_neg hj, if_neg hj, dot_strings, Nat.sub_add_cancel (by omega)]
    cases s.strings[j - 1]? with
    | none =>
      rw [Option.map_none, Option.getD_none, map_dotted_ascii (by decide), ite_self]
    | some t => rfl

theorem dotted_dotted (b : Byte) : dotted (dotted b) = dotted b := by
  by_cases h : b < 32 ∨ 127 ≤ b
  · rw [dotted, dotted, if_pos h]
    decide
  · have hb : dotted b = b := if_neg h
    rw [hb, hb]

theorem SmbiosStruct.dot_text (s : SmbiosStruct) (i j : Nat) : (s.dot i).text j = s.text j := by
  rw [text, dot_raw]
  split
  · rw [text, List.map_map]
    exact List.map_congr_left fun b _ => dotted_dotted b
  · rfl

theorem SmbiosStruct.dot_pointer (s : SmbiosStruct) (dm i j : Nat) :
    (s.dot i).pointer dm j = s.pointer dm j := by
  by_cases hi : i = 0
  · rw [dot, if_pos hi]
  · have hinit : ∀ (ss : List (List Byte)) (k n : Nat),
        (stringsInit (ss.modify k (·.map dotted)) n).length = (stringsInit ss n).length := by
      intro ss
      induction ss with
      | nil => intro k n; rw [List.modify_nil]
      | cons t ts ih =>
        intro k n
        cases n with
        | zero => rfl
        | succ n =>
          have hcons : ∀ u us, (stringsInit (u :: us) (n + 1)).length =
              u.length + 1 + (stringsInit us n).length := by
            intro u us
            rw [stringsInit, List.take_succ_cons, List.flatMap_cons, List.length_append,
              List.length_append]
            rfl
          cases k with
          | zero => rw [List.modify_zero_cons, hcons, hcons, List.length_map]
          | succ k => rw [List.modify_succ_cons, hcons, hcons, ih]
    simp only [pointer, dot_length]
    simp only [dot, if_neg hi, List.length_modify, hinit]

theorem stringsPad_modify (ss : List (List Byte)) (k : Nat) (f : List Byte → List Byte) :
    stringsPad (ss.modify k f) = stringsPad ss := by
  simp only [stringsPad, List.modify_eq_nil_iff]

/-- The pointer and the memory after the rewriting of the string. -/
theorem smbiosString_encode (hs : s.Formed) (A rest : List Byte) (i : Nat) :
    smbiosString (A ++ (s.encode ++ rest)) A.length i =
      (s.pointer A.length i, A ++ ((s.dot i).encode ++ rest)) := by
  by_cases hi : i = 0
  · rw [smbiosString, if_pos hi, SmbiosStruct.pointer, if_pos hi, SmbiosStruct.dot, if_pos hi]
  · have hstart : A.length + s.length = (A ++ s.header).length := by
      rw [List.length_append, SmbiosStruct.header_length]
    have hmem : A ++ (s.encode ++ rest) = (A ++ s.header) ++
        (stringsBytes s.strings ++ (stringsPad s.strings ++ rest)) := by
      simp only [SmbiosStruct.encode, List.append_assoc]
    have hbp : skipStrings (A ++ (s.encode ++ rest)) (i - 1) (A.length + s.length) =
        A.length + s.length + (stringsInit s.strings (i - 1)).length := by
      rw [hmem, hstart, skipStrings_eq hs.string_pos hs.string_zero]
    have hsplit : A ++ (s.encode ++ rest) = ((A ++ s.header) ++ stringsInit s.strings (i - 1)) ++
        (stringsBytes (s.strings.drop (i - 1)) ++ (stringsPad s.strings ++ rest)) := by
      rw [hmem, stringsBytes_split s.strings (i - 1)]
      simp only [List.append_assoc]
    have hlength : A.length + s.length + (stringsInit s.strings (i - 1)).length =
        ((A ++ s.header) ++ stringsInit s.strings (i - 1)).length := by
      rw [hstart, ← List.length_append]
    have hzero : byteAt (A ++ (s.encode ++ rest))
        (A.length + s.length + (stringsInit s.strings (i - 1)).length) = 0 ↔
        s.strings.length ≤ i - 1 := by
      rw [hsplit, hlength, byteAt_append_zero, byteAt_stringsBytes
        (fun t ht => hs.string_pos t (List.mem_of_mem_drop ht))
        (fun t ht => hs.string_zero t (List.mem_of_mem_drop ht)), List.drop_eq_nil_iff]
    simp only [smbiosString, if_neg hi, byteAt_length hs, hbp, SmbiosStruct.pointer]
    by_cases hlt : i - 1 < s.strings.length
    · rw [if_neg (mt hzero.mp (by omega)), if_pos hlt]
      refine Prod.ext rfl ?_
      have ht0 := hs.string_zero _ (List.getElem_mem hlt)
      have hmodify : stringsBytes (s.strings.modify (i - 1) (·.map dotted)) =
          stringsInit s.strings (i - 1) ++
          ((s.strings[i - 1]).map dotted ++ 0 :: stringsBytes (s.strings.drop (i - 1 + 1))) := by
        rw [stringsBytes_split _ (i - 1), List.modify_eq_take_cons_drop hlt]
        have htake : (s.strings.take (i - 1)).length = i - 1 := List.length_take_of_le (by omega)
        rw [stringsInit, List.take_append_of_le_length htake.ge, List.take_of_length_le htake.le,
          List.drop_left' htake]
        rfl
      have hdrop : stringsBytes (s.strings.drop (i - 1)) ++ (stringsPad s.strings ++ rest) =
          s.strings[i - 1] ++ 0 :: (stringsBytes (s.strings.drop (i - 1 + 1)) ++
          (stringsPad s.strings ++ rest)) := by
        rw [List.drop_eq_getElem_cons hlt, stringsBytes, List.append_assoc]
        rfl
      rw [hsplit, hlength, List.take_left, List.drop_left, hdrop, dotString_append ht0]
      have hdot : s.dot i = { s with strings := s.strings.modify (i - 1) (·.map dotted) } := if_neg hi
      rw [SmbiosStruct.encode, SmbiosStruct.dot_header, hdot, hmodify, stringsPad_modify]
      simp only [List.append_assoc, List.cons_append]
    · have hsame : s.dot i = s := by rw [SmbiosStruct.dot, if_neg hi, List.modify_eq_self (by omega)]
      rw [if_pos (hzero.mpr (by omega)), if_neg hlt, hsame]

theorem deref_pointer (s : SmbiosStruct) (A rest : List Byte) (i : Nat) :
    ∃ x, (s.pointer A.length i).deref (A ++ (s.encode ++ rest)) = s.raw i ++ 0 :: x := by
  rw [SmbiosStruct.pointer, SmbiosStruct.raw]
  by_cases hi : i = 0
  · rw [if_pos hi, if_pos hi]
    exact ⟨[], rfl⟩
  · rw [if_neg hi, if_neg hi]
    by_cases hlt : i - 1 < s.strings.length
    · rw [if_pos hlt, List.getElem?_eq_getElem hlt]
      refine ⟨stringsBytes (s.strings.drop (i - 1 + 1)) ++ (stringsPad s.strings ++ rest), ?_⟩
      have hlength : A.length + s.length + (stringsInit s.strings (i - 1)).length =
          (A ++ s.header ++ stringsInit s.strings (i - 1)).length := by
        rw [List.length_append, List.length_append, SmbiosStruct.header_length]
      have hmem : A ++ (s.encode ++ rest) = (A ++ s.header ++ stringsInit s.strings (i - 1)) ++
          (stringsBytes (s.strings.drop (i - 1)) ++ (stringsPad s.strings ++ rest)) := by
        rw [SmbiosStruct.encode, stringsBytes_split s.strings (i - 1)]
        simp only [List.append_assoc]
      rw [Pointer.deref, hlength, hmem, List.drop_left, List.drop_eq_getElem_cons hlt, stringsBytes,
        List.append_assoc]
      rfl
    · rw [if_neg hlt, List.getElem?_eq_none (by omega)]
      exact ⟨[], rfl⟩

theorem raw_zero_free (hs : s.Formed) (i : Nat) : (0 : Byte) ∉ s.raw i := by
  rw [SmbiosStruct.raw]
  split
  · decide
  · cases h : s.strings[i - 1]? with
    | none => decide
    | some t => exact hs.string_zero t (List.mem_of_getElem? h)

/-- The strings of `l` have been rewritten. -/
def SmbiosStruct.dots (s : SmbiosStruct) (l : List Nat) : SmbiosStruct := l.foldl SmbiosStruct.dot s

theorem SmbiosStruct.dots_concat (s : SmbiosStruct) (l : List Nat) (i : Nat) :
    (s.dots l).dot i = s.dots (l ++ [i]) := by
  rw [dots, dots, List.foldl_append]
  rfl

theorem SmbiosStruct.dots_dots (s : SmbiosStruct) (l m : List Nat) :
    (s.dots l).dots m = s.dots (l ++ m) :=
  List.foldl_append.symm

theorem SmbiosStruct.Formed.dots (hs : s.Formed) (l : List Nat) : (s.dots l).Formed := by
  induction l generalizing s with
  | nil => exact hs
  | cons i l ih => exact ih (hs.dot i)

/-- What rewriting one string leaves alone, rewriting several does. -/
theorem SmbiosStruct.dots_keeps {α : Type} (f : SmbiosStruct → α) (hf : ∀ s i, f (s.dot i) = f s)
    (s : SmbiosStruct) (l : List Nat) : f (s.dots l) = f s := by
  induction l generalizing s with
  | nil => rfl
  | cons i l ih => exact (ih (s.dot i)).trans (hf s i)

@[simp] theorem SmbiosStruct.dots_type (s : SmbiosStruct) (l : List Nat) : (s.dots l).type = s.type :=
  dots_keeps _ dot_type s l

@[simp] theorem SmbiosStruct.dots_fields (s : SmbiosStruct) (l : List Nat) :
    (s.dots l).fields = s.fields :=
  dots_keeps _ dot_fields s l

@[simp] theorem SmbiosStruct.dots_length (s : SmbiosStruct) (l : List Nat) :
    (s.dots l).length = s.length :=
  dots_keeps _ dot_length s l

@[simp] theorem SmbiosStruct.dots_text (s : SmbiosStruct) (l : List Nat) (j : Nat) :
    (s.dots l).text j = s.text j :=
  dots_keeps (·.text j) (fun s i => s.dot_text i j) s l

theorem SmbiosStruct.dots_pointer (s : SmbiosStruct) (dm : Nat) (l : List Nat) (j : Nat) :
    (s.dots l).pointer dm j = s.pointer dm j :=
  dots_keeps (·.pointer dm j) (fun s i => s.dot_pointer dm i j) s l

theorem SmbiosStruct.dot_encode_length (s : SmbiosStruct) (i : Nat) :
    (s.dot i).encode.length = s.encode.length := by
  by_cases hi : i = 0
  · rw [dot, if_pos hi]
  · have hbytes : ∀ (ss : List (List Byte)) (k : Nat),
        (stringsBytes (ss.modify k (·.map dotted))).length = (stringsBytes ss).length := by
      intro ss
      induction ss with
      | nil => intro k; rw [List.modify_nil]
      | cons t ts ih =>
        intro k
        cases k with
        | zero => rw [List.modify_zero_cons, stringsBytes, stringsBytes, List.length_append,
            List.length_map, ← List.length_append]
        | succ k =>
          rw [List.modify_succ_cons, stringsBytes, stringsBytes, List.length_append,
            List.length_cons, ih, ← List.length_cons, ← List.length_append]
    rw [encode_length, encode_length, dot_length, dot, if_neg hi]
    simp only [hbytes, stringsPad_modify]

theorem SmbiosStruct.dots_encode_length (s : SmbiosStruct) (l : List Nat) :
    (s.dots l).encode.length = s.encode.length :=
  dots_keeps (·.encode.length) dot_encode_length s l

/-- A string of the list reads as its rewritten text. -/
theorem SmbiosStruct.dots_raw (s : SmbiosStruct) {l : List Nat} {j : Nat} (hj : j ∈ l) :
    (s.dots l).raw j = s.text j := by
  induction l using List.reverseRecOn with
  | nil => cases hj
  | append_singleton l i ih =>
    rw [← dots_concat, dot_raw]
    split
    · rw [dots_text]
    · rename_i hne
      refine ih ((List.mem_append.mp hj).resolve_right fun h => hne ?_)
      exact (List.mem_singleton.mp h).symm

end

end PulseImaging
