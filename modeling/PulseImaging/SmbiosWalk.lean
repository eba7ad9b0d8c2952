import PulseImaging.SmbiosInventory

/-! Repeated calls of `smbios_get` with one type, and between them any calls of `smbios_string`. -/

namespace PulseImaging

/-- `smbios_get(-1, ...)`. -/
def smbiosReset (st : SmbiosState) : SmbiosState := { st with ptr := none }

def addressOf (T : List SmbiosStruct) (i : Nat) : Nat := (encodeTable (T.take i)).length

/-- The texts that are read, each by the structure and the number of the string less one, and the memory after it. -/
def readStrings (T : List SmbiosStruct) : List (Fin T.length × Nat) → List Byte → List (List Byte) × List Byte
  | [], mem => ([], mem)
  | (i, k) :: calls, mem =>
    let r := smbiosString mem (addressOf T i) (k + 1)
    let x := readStrings T calls r.2
    (cstr (r.1.deref r.2) :: x.1, x.2)

/-- A call for the type `t` for each element of the script, and behind it the calls for strings. -/
def enumerate (T : List SmbiosStruct) (t : Nat) :
    List (List (Fin T.length × Nat)) → SmbiosState → List (Option Nat × List (List Byte))
  | [], _ => []
  | calls :: script, st =>
    let r := smbiosGet st.mem (encodeTable T).length T.length t st.ptr
    let x := readStrings T calls st.mem
    (r.1, x.1) :: enumerate T t script ⟨x.2, r.2⟩

/-- The addresses of the structures of a type, of a table at `a`. -/
def addressesFrom (t : Nat) : Nat → List SmbiosStruct → List Nat
  | _, [] => []
  | a, s :: S =>
    if s.type.toNat = t then a :: addressesFrom t (a + s.encode.length) S else addressesFrom t (a + s.encode.length) S

def SmbiosStruct.stringText (s : SmbiosStruct) (k : Nat) : List Byte :=
  ((s.strings[k]?).map (fun u => u.map dotted)).getD (ascii "badindex")

/-! ### Where the iterator stands -/

/-- The table has had strings rewritten, and the iterator is in front of the structures `S`. -/
def Walks (T : List SmbiosStruct) (beyond : List Byte) (st : SmbiosState) (S : List SmbiosStruct) : Prop :=
  ∃ T' P, List.Forall₂ Rewritten T T' ∧ st.mem = encodeTable T' ++ beyond ∧ T = P ++ S ∧
    (st.ptr = place P S ∨ P = [] ∧ st.ptr = none)

section

variable {T : List SmbiosStruct} {beyond : List Byte} {st : SmbiosState} {S : List SmbiosStruct} {t : Nat}

theorem place_rewritten {P P' S S' : List SmbiosStruct} (hP : List.Forall₂ Rewritten P P')
    (hS : List.Forall₂ Rewritten S S') : place P' S' = place P S := by
  rw [place, place, encodeTable_length_rewritten hP, hS.length_eq]

theorem walks_iff_positioned : Walks T beyond st S ↔ ∃ S', Positioned T beyond st S S' := by
  constructor
  · rintro ⟨T', P, hT, hmem, rfl, hptr⟩
    obtain ⟨P', S', rfl, hP, hS⟩ := rewritten_append hT
    exact ⟨S', P, P', rfl, hP, hS, hmem, place_rewritten hP hS ▸ hptr⟩
  · rintro ⟨S', P, P', rfl, hP, hS, hmem, hptr⟩
    exact ⟨P' ++ S', P, List.rel_append hP hS, hmem, rfl, place_rewritten hP hS ▸ hptr⟩

theorem walks_reset (T : List SmbiosStruct) (beyond : List Byte) (ptr : Option (Nat × Nat)) :
    Walks T beyond (smbiosReset ⟨encodeTable T ++ beyond, ptr⟩) T :=
  walks_iff_positioned.mpr ⟨T, positioned_start T beyond⟩

theorem Walks.mem_length (h : Walks T beyond st S) :
    st.mem.length = (encodeTable T).length + beyond.length := by
  obtain ⟨T', P, hT, hmem, -, -⟩ := h
  rw [hmem, List.length_append, encodeTable_length_rewritten hT]

theorem addressesFrom_append (t a : Nat) (Q R : List SmbiosStruct) :
    addressesFrom t a (Q ++ R) = addressesFrom t a Q ++ addressesFrom t
      (a + (encodeTable Q).length) R := by
  induction Q generalizing a with
  | nil => rfl
  | cons q Q ih =>
    have hlen : a + (encodeTable (q :: Q)).length = a + q.encode.length + (encodeTable Q).length := by
      rw [encodeTable_cons, List.length_append, Nat.add_assoc]
    rw [List.cons_append, addressesFrom, addressesFrom, ih, hlen]
    split <;> rfl

theorem addressesFrom_eq_nil {a : Nat} {Q : List SmbiosStruct} (h : ∀ q ∈ Q, q.type.toNat ≠ t) :
    addressesFrom t a Q = [] := by
  induction Q generalizing a with
  | nil => rfl
  | cons q Q ih =>
    rw [addressesFrom, if_neg (h q List.mem_cons_self),
      ih (fun x hx => h x (List.mem_cons_of_mem _ hx))]

/-- The first structure of a type, if there is one. -/
theorem first_of_type (t : Nat) (S : List SmbiosStruct) :
    (∀ s ∈ S, s.type.toNat ≠ t) ∨
      ∃ Q s R, S = Q ++ s :: R ∧ (∀ q ∈ Q, q.type.toNat ≠ t) ∧ s.type.toNat = t := by
  induction S with
  | nil => exact .inl (fun s hs => absurd hs List.not_mem_nil)
  | cons s S ih =>
    by_cases hs : s.type.toNat = t
    · exact .inr ⟨[], s, S, rfl, fun q hq => absurd hq List.not_mem_nil, hs⟩
    · rcases ih with hnone | ⟨Q, r, R, rfl, hQ, hr⟩
      · exact .inl (List.forall_mem_cons.mpr ⟨hs, hnone⟩)
      · exact .inr ⟨s :: Q, r, R, rfl, List.forall_mem_cons.mpr ⟨hs, hQ⟩, hr⟩

/-- What is left of the addresses in front of `S`. -/
def leftOf (t : Nat) (T S : List SmbiosStruct) : List Nat :=
  addressesFrom t ((encodeTable T).length - (encodeTable S).length) S

/-- A call returns the first of the addresses that are left; when there is none it starts again. -/
theorem Walks.get (h : Walks T beyond st S) (hT : ∀ s ∈ T, s.Formed) (t : Nat) :
    (smbiosGet st.mem (encodeTable T).length T.length t st.ptr).1 = (leftOf t T S).head? ∧
      ∃ R, Walks T beyond ⟨st.mem, (smbiosGet st.mem (encodeTable T).length T.length t st.ptr).2⟩ R ∧
        leftOf t T R = if leftOf t T S = [] then addressesFrom t 0 T else (leftOf t T S).tail := by
  obtain ⟨S', hpos⟩ := walks_iff_positioned.mp h
  obtain ⟨P, hsplit⟩ : ∃ P, T = P ++ S := by
    obtain ⟨-, P, -, -, hP, -⟩ := h
    exact ⟨P, hP⟩
  rcases first_of_type t S with hnone | ⟨Q, s, R, rfl, hQ, hs⟩
  · obtain ⟨hget, T', hnull⟩ := hpos.get_none hT hnone
    have hleft : leftOf t T S = [] := addressesFrom_eq_nil hnone
    rw [hget, hleft]
    refine ⟨rfl, T, walks_iff_positioned.mpr ⟨T', hnull⟩, ?_⟩
    rw [if_pos rfl, leftOf, Nat.sub_self]
  · obtain ⟨A, Q', s', R', ptr, -, -, hss, hget, hmem, hnext⟩ := hpos.get_some hT hQ hs
    have hwalks : Walks T beyond ⟨st.mem, ptr⟩ R := walks_iff_positioned.mpr ⟨R', hmem ▸ hnext []⟩
    have hencode : s'.encode.length = s.encode.length := by
      obtain ⟨l, rfl⟩ := hss
      exact s.dots_encode_length l
    have hR : (encodeTable R').length = (encodeTable R).length := by
      obtain ⟨-, -, -, -, hRR, -, -⟩ := hnext []
      exact encodeTable_length_rewritten hRR
    have hlen := h.mem_length
    have htable : (encodeTable T).length = (encodeTable P).length + ((encodeTable Q).length +
        (s.encode.length + (encodeTable R).length)) := by
      rw [hsplit, encodeTable_append, encodeTable_append, encodeTable_cons, List.length_append,
        List.length_append, List.length_append]
    have hlist : (encodeTable (Q ++ s :: R)).length = (encodeTable Q).length +
        (s.encode.length + (encodeTable R).length) := by
      rw [encodeTable_append, encodeTable_cons, List.length_append, List.length_append]
    rw [hmem, List.length_append, List.length_append, List.length_append, hencode, hR] at hlen
    have hA : A.length = (encodeTable P).length + (encodeTable Q).length := by omega
    have hleft : leftOf t T (Q ++ s :: R) = A.length :: leftOf t T R := by
      rw [leftOf, leftOf, addressesFrom_append, addressesFrom_eq_nil hQ, List.nil_append,
        addressesFrom, if_pos hs]
      congr 2
      · omega
      · omega
    rw [hget, hleft]
    exact ⟨rfl, R, hwalks, rfl⟩

/-! ### Strings in between -/

theorem SmbiosStruct.stringText_eq (s : SmbiosStruct) (k : Nat) :
    s.stringText k = s.text (k + 1) := by
  rw [stringText, text, raw, if_neg (Nat.succ_ne_zero k), Nat.add_sub_cancel]
  cases s.strings[k]? with
  | none => exact (map_dotted_ascii (by decide)).symm
  | some u => rfl

theorem Walks.string (h : Walks T beyond st S) (hT : ∀ s ∈ T, s.Formed) (i : Fin T.length)
    (k : Nat) :
    cstr ((smbiosString st.mem (addressOf T i) (k + 1)).1.deref
      (smbiosString st.mem (addressOf T i) (k + 1)).2) =
        T[i].stringText k ∧
      Walks T beyond ⟨(smbiosString st.mem (addressOf T i) (k + 1)).2, st.ptr⟩ S := by
  obtain ⟨T', P, hrew, hmem, hP, hptr⟩ := h
  have hsplit : T = T.take i ++ T[i] :: T.drop (i + 1) := by
    calc T
      _ = T.take i ++ T.drop i := (List.take_append_drop i.1 T).symm
      _ = T.take i ++ T[i] :: T.drop (i + 1) := congrArg (T.take i ++ ·)
        (List.drop_eq_getElem_cons i.2)
  obtain ⟨U', X, rfl, hU, hX⟩ := rewritten_append (hsplit ▸ hrew)
  obtain ⟨s', V', ⟨l, rfl⟩, hV, rfl⟩ := List.forall₂_cons_left_iff.mp hX
  have hs : (T[i].dots l).Formed := (hT _ (List.getElem_mem i.2)).dots l
  have haddr : addressOf T i = (encodeTable U').length := (encodeTable_length_rewritten hU).symm
  have hcall := smbiosString_encode hs (encodeTable U') (encodeTable V' ++ beyond) (k + 1)
  rw [← memory_split, ← memory_split, ← hmem, ← haddr] at hcall
  obtain ⟨x, hderef⟩ := deref_pointer ((T[i].dots l).dot (k + 1)) (encodeTable U')
    (encodeTable V' ++ beyond) (k + 1)
  rw [SmbiosStruct.dot_pointer, ← memory_split, ← haddr] at hderef
  rw [hcall]
  refine ⟨?_, U' ++ (T[i].dots l).dot (k + 1) :: V', P, ?_, rfl, hP, hptr⟩
  · rw [hderef, cstr_append_zero (raw_zero_free (hs.dot (k + 1)) (k + 1)), SmbiosStruct.dot_raw,
      if_pos rfl, SmbiosStruct.dots_text, SmbiosStruct.stringText_eq]
  · have hone : List.Forall₂ Rewritten (T.take i ++ T[i] :: T.drop (i + 1))
        (U' ++ (T[i].dots l).dot (k + 1) :: V') :=
      List.rel_append hU (.cons ⟨l ++ [k + 1], T[i].dots_concat l (k + 1)⟩ hV)
    rwa [← hsplit] at hone

theorem Walks.strings (h : Walks T beyond st S) (hT : ∀ s ∈ T, s.Formed)
    (calls : List (Fin T.length × Nat)) :
    (readStrings T calls st.mem).1 = calls.map (fun c => T[c.1].stringText c.2) ∧
      Walks T beyond ⟨(readStrings T calls st.mem).2, st.ptr⟩ S := by
  induction calls generalizing st with
  | nil => exact ⟨rfl, h⟩
  | cons c calls ih =>
    obtain ⟨htext, hwalks⟩ := h.string hT c.1 c.2
    obtain ⟨hrest, hend⟩ := ih hwalks
    exact ⟨congrArg₂ List.cons htext hrest, hend⟩

/-- With `c` of the addresses passed the calls go round through those of the type, with NULL behind the last. -/
theorem Walks.enumerate (hT : ∀ s ∈ T, s.Formed) (t : Nat)
    (script : List (List (Fin T.length × Nat))) {c : Nat} (h : Walks T beyond st S)
    (hc : c ≤ (addressesFrom t 0 T).length) (hleft : leftOf t T S = (addressesFrom t 0 T).drop c) :
    PulseImaging.enumerate T t script st = script.mapIdx (fun j calls =>
      ((addressesFrom t 0 T)[(c + j) % ((addressesFrom t 0 T).length + 1)]?,
        calls.map (fun call => T[call.1].stringText call.2))) := by
  obtain ⟨full, hfull⟩ : ∃ full, full = addressesFrom t 0 T := ⟨_, rfl⟩
  rw [← hfull] at hc hleft ⊢
  induction script generalizing st S c with
  | nil => rfl
  | cons calls script ih =>
    obtain ⟨hget, R, hwalks, hnext⟩ := h.get hT t
    obtain ⟨htexts, -⟩ := h.strings hT calls
    have hlater : Walks T beyond ⟨(readStrings T calls st.mem).2,
        (smbiosGet st.mem
        (encodeTable T).length T.length t st.ptr).2⟩ R := (hwalks.strings hT calls).2
    have hfirst : (smbiosGet st.mem (encodeTable T).length T.length t st.ptr).1 =
        full[c % (full.length + 1)]? := by
      rw [hget, hleft, List.head?_drop, Nat.mod_eq_of_lt (Nat.lt_succ_of_le hc)]
    obtain ⟨c', hc', hdrop, hmod⟩ : ∃ c', c' ≤ full.length ∧ leftOf t T R = full.drop c' ∧
        ∀ j, (c' + j) % (full.length + 1) = (c + (j + 1)) % (full.length + 1) := by
      rw [hnext, hleft, ← hfull]
      by_cases hlt : c < full.length
      · refine ⟨c + 1, hlt, ?_, fun j => by rw [Nat.add_assoc, Nat.add_comm 1 j]⟩
        rw [if_neg (by rw [List.drop_eq_nil_iff]; omega), List.tail_drop]
      · obtain rfl : c = full.length := Nat.le_antisymm hc (Nat.le_of_not_lt hlt)
        refine ⟨0, Nat.zero_le _, ?_, fun j => ?_⟩
        · rw [if_pos (List.drop_length), List.drop_zero]
        · rw [show full.length + (j + 1) = 0 + j + (full.length + 1) by omega, Nat.add_mod_right]
    have hrest := ih hlater hdrop hc'
    rw [PulseImaging.enumerate, List.mapIdx_cons, hrest, hfirst, htexts]
    simp only [hmod, Nat.add_zero]

end

/-- After a reset the calls for a type return the addresses of its structures in turn, then NULL, and so on from the
first; whatever strings are read in between, the texts are those of the table. -/
theorem smbios_enumeration {T : List SmbiosStruct} (hT : ∀ s ∈ T, s.Formed) (beyond : List Byte)
    (ptr : Option (Nat × Nat)) (t : Nat) (script : List (List (Fin T.length × Nat))) :
    enumerate T t script (smbiosReset ⟨encodeTable T ++ beyond, ptr⟩) = script.mapIdx (fun j calls =>
      ((addressesFrom t 0 T)[j % ((addressesFrom t 0 T).length + 1)]?,
        calls.map (fun call => T[call.1].stringText call.2))) := by
  have hleft : leftOf t T T = (addressesFrom t 0 T).drop 0 := by
    rw [leftOf, Nat.sub_self, List.drop_zero]
  have h := (walks_reset T beyond ptr).enumerate hT t script (Nat.zero_le _) hleft
  simpa only [Nat.zero_add] using h

/-- A memory device with a string that has a tab in it, and one without strings. -/
def twoDevices : List SmbiosStruct := [⟨17, (1, 0), [1], [[65, 9]]⟩, ⟨17, (2, 0), [0], []⟩]

instance : NeZero twoDevices.length := ⟨two_ne_zero⟩

theorem twoDevices_formed : ∀ s ∈ twoDevices, s.Formed := by
  intro s hs
  rcases List.mem_cons.mp hs with rfl | hs
  · exact ⟨by decide, by decide, by decide⟩
  · obtain rfl := List.mem_singleton.mp hs
    exact ⟨by decide, by decide, by decide⟩

theorem two_devices_enumerated :
    enumerate twoDevices 17 [[(0, 0), (0, 0)], [(1, 0)], [], []] (smbiosReset ⟨encodeTable twoDevices ++ [7], none⟩) =
      [(some 0, [[65, 46], [65, 46]]), (some 9, [ascii "badindex"]), (none, []), (some 0, [])] := by
  have h := smbios_enumeration twoDevices_formed [7] none 17 [[(0, 0), (0, 0)], [(1, 0)], [], []]
  exact h.trans (by decide)

end PulseImaging
