import PulseImaging.ConfText
import PulseImaging.LvmOffset

/-! The lines of a text that fit the buffer of `lvm_check`, and what it finds in a line as it is written. -/

namespace PulseImaging

/-! ### Lines of a text -/

def ShortLine (l : List Byte) : Prop := IsLine l ∧ l.length ≤ 126

theorem readLine_isLine {n : Nat} {l rest : List Byte} (h : IsLine l) (hn : l.length ≤ n) :
    readLine n (l ++ rest) = (l, rest) := by
  obtain ⟨body, rfl, hnl, -⟩ := h
  induction body generalizing n with
  | nil =>
    obtain ⟨n, rfl⟩ : ∃ k, n = k + 1 := ⟨n - 1, by simp [newline] at hn; omega⟩
    simp [readLine, newline]
  | cons c body ih =>
    obtain ⟨n, rfl⟩ : ∃ k, n = k + 1 := ⟨n - 1, by simp at hn; omega⟩
    have hc : c ≠ 10 := fun hc => hnl (by simp [hc])
    rw [List.cons_append, List.cons_append, readLine, if_neg hc,
      ih (by simpa using hn) (fun h => hnl (List.mem_cons_of_mem _ h))]

theorem lvmLine_cons {l rest : List Byte} (h : ShortLine l) (b : List Byte) :
    lvmLine b (l ++ rest) = (l, rest) := by
  have hne : l ++ rest ≠ [] := by
    obtain ⟨body, rfl, -, -⟩ := h.1
    simp [newline]
  rw [lvmLine, TextFile.fgets, if_neg hne, readLine_isLine h.1 h.2]

theorem lvmRead_getElem {ls : List (List Byte)} (h : ∀ l ∈ ls, ShortLine l) (old : List Byte)
    {i : Nat} (hi : i < ls.length) :
    lvmRead old ls.flatten i = (ls[i], (ls.drop (i + 1)).flatten) := by
  induction i with
  | zero =>
    obtain ⟨l, ls, rfl⟩ := List.exists_cons_of_ne_nil (List.ne_nil_of_length_pos hi)
    exact lvmLine_cons (h l List.mem_cons_self) old
  | succ i ih =>
    rw [lvmRead, ih (by omega), List.drop_eq_getElem_cons hi, List.flatten_cons]
    exact lvmLine_cons (h _ (List.getElem_mem hi)) _

theorem lineAt_getElem {ls : List (List Byte)} (h : ∀ l ∈ ls, ShortLine l) (old : List Byte) {i : Nat}
    (hi : i < ls.length) : lineAt old ls.flatten i = ls[i] := by
  rw [lineAt, lvmRead_getElem h old hi]
  exact (h _ (List.getElem_mem hi)).1.cstr_eq

/-- Behind the text its last line comes again. -/
theorem lineAt_mem {ls : List (List Byte)} (h : ∀ l ∈ ls, ShortLine l) (old : List Byte)
    {k i : Nat} (hk : k < ls.length) (hi : k ≤ i) : lineAt old ls.flatten i ∈ ls.drop k := by
  by_cases hlt : i < ls.length
  · rw [lineAt_getElem h old hlt, List.mem_drop_iff_getElem]
    exact ⟨i - k, by omega, by simp [show k + (i - k) = i by omega]⟩
  · have hlast (d : Nat) : lvmRead old ls.flatten (ls.length - 1 + d) = (ls[ls.length - 1], []) := by
      induction d with
      | zero =>
        have hread := lvmRead_getElem h old (show ls.length - 1 < ls.length by omega)
        rwa [List.drop_eq_nil_of_le (by omega)] at hread
      | succ d ih =>
        rw [← Nat.add_assoc, lvmRead, ih]
        rfl
    have hread := hlast (i - (ls.length - 1))
    rw [show ls.length - 1 + (i - (ls.length - 1)) = i by omega] at hread
    have hmem : ls[ls.length - 1] ∈ ls := List.getElem_mem _
    rw [lineAt, hread, (h _ hmem).1.cstr_eq, List.mem_drop_iff_getElem]
    exact ⟨ls.length - 1 - k, by omega, by simp [show k + (ls.length - 1 - k) =
      ls.length - 1 by omega]⟩

theorem firstFrom_lines {P : List Byte → Prop} {ls pre post : List (List Byte)} {x : List Byte}
    (h : ∀ l ∈ ls, ShortLine l) (old : List Byte) (hls : ls = pre ++ x :: post) (hx : P x)
    {k : Nat} (hk : k ≤ pre.length) (hnone : ∀ l ∈ pre.drop k, ¬ P l) :
    FirstFrom (fun i => P (lineAt old ls.flatten i)) k pre.length := by
  have hlength : pre.length < ls.length := by simp [hls]
  refine ⟨hk, ?_, fun j hj hj' => ?_⟩
  · have hget : ls[pre.length] = x := by simp [hls]
    rwa [lineAt_getElem h old hlength, hget]
  · have hlt : j < ls.length := by omega
    have hget : ls[j] = pre[j] := by simp [hls, hj']
    rw [lineAt_getElem h old hlt, hget]
    refine hnone _ (List.mem_drop_iff_getElem.mpr ⟨j - k, by omega, ?_⟩)
    simp [show k + (j - k) = j by omega]

theorem levelAt_lines {ls : List (List Byte)} (h : ∀ l ∈ ls, ShortLine l) (old : List Byte)
    {i : Nat} (hi : i < ls.length) :
    levelAt (lineAt old ls.flatten) i = ((ls.take (i + 1)).map lineLevel).sum := by
  induction i with
  | zero =>
    obtain ⟨l, ls, rfl⟩ := List.exists_cons_of_ne_nil (List.ne_nil_of_length_pos hi)
    rw [levelAt, lineAt_getElem h old hi]
    simp
  | succ i ih =>
    rw [levelAt, ih (by omega), lineAt_getElem h old hi, List.take_succ_eq_append_getElem hi,
      List.map_append, List.sum_append]
    simp

/-! ### Written lines -/

/-- A line that stands in a block and is none. -/
structure FieldLine (l : List Byte) : Prop where
  short : ShortLine l
  opening : 123 ∉ l
  closing : 125 ∉ l

def idLine (id : List Byte) : List Byte := ascii "id = \"" ++ (id ++ ascii "\"\n")

def peStartLine (n : Nat) : List Byte := ascii "pe_start = " ++ (decimal n ++ ascii "\n")

def openLine (name : List Byte) : List Byte := name ++ ascii " \x7b\n"

def closeLine : List Byte := ascii "\x7d\n"

theorem hasText_opening (l : List Byte) : hasText "\x7b" l = true ↔ 123 ∈ l := by
  have hkey : strstr (ascii "\x7b") l = none ↔ ¬ [123] <:+: l := strstr_eq_none_iff (by decide)
  rw [List.singleton_infix_iff] at hkey
  rw [hasText, Option.isSome_iff_ne_none, Ne, hkey, not_not]

theorem hasText_closing (l : List Byte) : hasText "\x7d" l = true ↔ 125 ∈ l := by
  have hkey : strstr (ascii "\x7d") l = none ↔ ¬ [125] <:+: l := strstr_eq_none_iff (by decide)
  rw [List.singleton_infix_iff] at hkey
  rw [hasText, Option.isSome_iff_ne_none, Ne, hkey, not_not]

theorem lineLevel_field {l : List Byte} (h : FieldLine l) : lineLevel l = 0 := by
  rw [lineLevel, if_neg (mt (hasText_opening l).mp h.opening),
    if_neg (mt (hasText_closing l).mp h.closing)]
  rfl

theorem mem_of_mem_unquoted {quoted : Bool} {l : List Byte} {c : Byte} (h : c ∈ unquoted quoted l) :
    c ∈ l := by
  induction l generalizing quoted with
  | nil => exact h
  | cons d l ih =>
    rw [unquoted] at h
    split at h
    · exact List.mem_cons_of_mem _ (ih h)
    · split at h
      · exact List.mem_cons_of_mem _ (ih h)
      · rcases List.mem_cons.mp h with rfl | h
        · exact List.mem_cons_self
        · exact List.mem_cons_of_mem _ (ih h)

theorem unquoted_eq_self {l : List Byte} (h : 34 ∉ l) : unquoted false l = l := by
  induction l with
  | nil => rfl
  | cons c l ih =>
    have hc : c ≠ 34 := fun hc => h (by simp [hc])
    rw [unquoted, if_neg hc, ih (fun hl => h (List.mem_cons_of_mem _ hl))]
    rfl

theorem braceNet_field {l : List Byte} (h : FieldLine l) : braceNet l = 0 := by
  rw [braceNet, List.count_eq_zero.mpr (fun hc => h.opening (mem_of_mem_unquoted hc)),
    List.count_eq_zero.mpr (fun hc => h.closing (mem_of_mem_unquoted hc))]
  rfl

theorem opensSection_field {l : List Byte} (h : FieldLine l) (name : String) :
    opensSection name l = false := by
  rw [opensSection, beq_eq_false_iff_ne]
  intro he
  have hmem : (123 : Byte) ∈ (unquoted false l).filter (fun b => !isSpace b) := by simp [he]
  exact h.opening (mem_of_mem_unquoted (List.mem_filter.mp hmem).1)

/-- A name in front of a block. -/
structure BlockName (name : List Byte) : Prop where
  short : ShortLine (openLine name)
  plain : 34 ∉ name ∧ 123 ∉ name ∧ 125 ∉ name
  noId : lineValue "id" (openLine name) = none

theorem BlockName.braceNet_eq {name : List Byte} (h : BlockName name) :
    braceNet (openLine name) = 1 := by
  obtain ⟨hquote, hopening, hclosing⟩ := h.plain
  have hself : 34 ∉ openLine name := by
    rw [openLine, List.mem_append, not_or]
    exact ⟨hquote, by decide⟩
  have hrest : (ascii " \x7b\n").count 123 = 1 ∧ (ascii " \x7b\n").count 125 = 0 := by decide
  rw [braceNet, unquoted_eq_self hself, openLine, List.count_append, List.count_append, hrest.1,
    hrest.2, List.count_eq_zero.mpr hopening, List.count_eq_zero.mpr hclosing]
  rfl

theorem BlockName.lineLevel_eq {name : List Byte} (h : BlockName name) :
    lineLevel (openLine name) = 1 := by
  have hopening : hasText "\x7b" (openLine name) = true := by
    rw [hasText_opening, openLine]
    exact List.mem_append_right _ (by decide)
  have hclosing : ¬ hasText "\x7d" (openLine name) = true := by
    rw [hasText_closing, openLine, List.mem_append, not_or]
    exact ⟨h.plain.2.2, by decide⟩
  rw [lineLevel, if_pos hopening, if_neg hclosing]
  rfl

theorem closeLine_levels : braceNet closeLine = -1 ∧ lineLevel closeLine = -1 := by decide

/-! ### Values -/

theorem scanAssign_of_lineValue {name : String} {l : List Byte}
    (hname : ∀ b ∈ (ascii name).head?, isSpace b = false) (h : lineValue name l = none)
    (hne : ascii name ≠ []) : scanAssign (ascii name) l = none := by
  by_contra hsome
  have hprefix : ascii name <+: l := by
    by_contra hno
    exact hsome (by rw [scanAssign, if_neg hno])
  obtain ⟨b, t, hb⟩ := List.exists_cons_of_ne_nil hne
  obtain ⟨r, rfl⟩ := hprefix
  have hspace : isSpace b = false := hname b (by simp [hb])
  have hdrop : (ascii name ++ r).dropWhile isSpace = ascii name ++ r := by
    rw [hb, List.cons_append, List.dropWhile_cons_of_neg (by simp [hspace])]
  rw [lineValue, hdrop] at h
  exact hsome h

theorem matchesUuid_of_no_id {pvuuid l : List Byte} (h : lineValue "id" l = none) : matchesUuid pvuuid l = false := by
  have hnone : scanAssign (ascii "id") l = none :=
    scanAssign_of_lineValue (head?_forall (by decide : isSpace 105 = false)) h (by decide)
  rw [matchesUuid, scanUuid, hnone]
  rfl

theorem scanPeStart_of_none {l : List Byte} (h : lineValue "pe_start" l = none) : scanPeStart l = none := by
  have hnone : scanAssign (ascii "pe_start") l = none :=
    scanAssign_of_lineValue (head?_forall (by decide : isSpace 112 = false)) h (by decide)
  rw [scanPeStart, scanNumber, hnone]
  rfl

theorem lineValue_peStart (n : Nat) : lineValue "pe_start" (peStartLine n) = some (decimal n ++ ascii "\n") := by
  obtain ⟨d, ds, hds⟩ := List.exists_cons_of_ne_nil (decimal_ne_nil n)
  have hd : isSpace d = false := isSpace_of_isDigit (decimal_isDigit n d (by simp [hds]))
  rw [lineValue, peStartLine, hds]
  have hdrop : (d :: ds ++ ascii "\n").dropWhile isSpace = d :: ds ++ ascii "\n" := by
    rw [List.cons_append, List.dropWhile_cons_of_neg (by simp [hd])]
  have hscan : scanAssign (ascii "pe_start") ((ascii "pe_start = " ++ (d :: ds ++ ascii "\n")).dropWhile isSpace) =
      some ((d :: ds ++ ascii "\n").dropWhile isSpace) := rfl
  rw [hscan, hdrop]

theorem scanInt_peStart (n : Nat) : scanInt (decimal n ++ ascii "\n") = some ((n : Int), ascii "\n") :=
  scanInt_decimal n (head?_forall (by decide : isDigit 10 = false))

theorem scanPeStart_line {n : Nat} (hn : n < 2 ^ 63) :
    scanPeStart (peStartLine n) = some (n : Int) := by
  have hvalue : scanAssign (ascii "pe_start") (peStartLine n) = some (decimal n ++ ascii "\n") := lineValue_peStart n
  have hclamp : clampInt 64 (n : Int) = n := by
    rw [clampInt]
    norm_num
    omega
  rw [scanPeStart, scanNumber, hvalue, Option.bind_some, scanInt_peStart]
  simp [hclamp]

/-- What the id of a volume is made of: 32 letters, and dashes between them. -/
structure VolumeId (id : List Byte) : Prop where
  word : ∀ b ∈ id, isSpace b = false
  plain : 34 ∉ id
  short : id.length ≤ 38
  dashes : id.IsChain (fun a b => ¬ (a = 45 ∧ b = 45))
  letters : (id.filter (· != 45)).length = 32

theorem uuidCompare_iff (s₁ : List Byte) {s₂ : List Byte}
    (hdashes : s₂.IsChain (fun a b => ¬ (a = 45 ∧ b = 45)))
    (hlength : s₁.length ≤ (s₂.filter (· != 45)).length) :
    uuidCompare s₁.length s₁ s₂ = true ↔ (s₂.filter (· != 45)).take s₁.length = s₁ := by
  induction s₁ generalizing s₂ with
  | nil => simp [uuidCompare]
  | cons a s₁ ih =>
    obtain ⟨t, ht⟩ : ∃ t, t = if s₂.head? = some 45 then s₂.tail else s₂ := ⟨_, rfl⟩
    have hfilter : s₂.filter (· != 45) = t.filter (· != 45) := by
      cases s₂ with
      | nil => simp [ht]
      | cons c s₂ =>
        by_cases hc : c = 45
        · simp [ht, hc]
        · simp [ht, hc]
    have hhead : t.head? ≠ some 45 := by
      cases s₂ with
      | nil => simp [ht]
      | cons c s₂ =>
        by_cases hc : c = 45
        · subst hc
          cases s₂ with
          | nil => simp [ht]
          | cons d s₂ =>
            have hd : ¬ ((45 : Byte) = 45 ∧ d = 45) := (List.isChain_cons_cons.mp hdashes).1
            simpa [ht] using hd
        · simp [ht, hc]
    have hchain : t.IsChain (fun a b => ¬ (a = 45 ∧ b = 45)) := by
      rw [ht]
      split
      · exact hdashes.tail
      · exact hdashes
    rw [hfilter] at hlength ⊢
    cases t with
    | nil => simp at hlength
    | cons b t =>
      have hb : b ≠ 45 := fun hb => hhead (by rw [hb, List.head?_cons])
      have hkeep : (b :: t).filter (· != 45) = b :: t.filter (· != 45) := by simp [hb]
      rw [hkeep] at hlength ⊢
      have hi := @ih t hchain.tail (by simpa using hlength)
      simp only [List.length_cons, uuidCompare, ← ht]
      by_cases hab : a = b
      · subst hab
        simp [hi]
      · simp [hab, Ne.symm hab]

theorem scanUuid_idLine {id : List Byte} (h : VolumeId id) :
    scanUuid (idLine id) = some ((id ++ [34]).take 38) := by
  have hword : IsWord (id ++ [34]) :=
    ⟨by simp, fun b hb => by
      rcases List.mem_append.mp hb with hb | hb
      · exact h.word b hb
      · rw [List.mem_singleton.mp hb]
        decide⟩
  have hassign : scanAssign (ascii "id") (idLine id) = some (34 :: (id ++ ascii "\"\n")) := rfl
  have hrest : id ++ ascii "\"\n" = (id ++ [34]) ++ ascii "\n" := by
    rw [List.append_assoc]
    rfl
  rw [scanUuid, hassign]
  show (scanToken (id ++ ascii "\"\n")).map _ = _
  have hend : EndsWord (ascii "\n") := head?_forall (by decide : isSpace 10 = true)
  rw [hrest, scanToken_word hword hend]
  rfl

theorem matchesUuid_idLine {id pvuuid : List Byte} (h : VolumeId id) (huuid : pvuuid.length = 32) :
    matchesUuid pvuuid (idLine id) = true ↔ id.filter (· != 45) = pvuuid := by
  obtain ⟨q, hq, htake⟩ : ∃ q, (q = [] ∨ q = [34]) ∧ (id ++ [34]).take 38 = id ++ q := by
    have hshort := h.short
    by_cases hfull : id.length = 38
    · exact ⟨[], .inl rfl, by rw [List.append_nil, ← hfull, List.take_left]⟩
    · exact ⟨[34], .inr rfl, List.take_of_length_le (by simp; omega)⟩
  have hchain : (id ++ q).IsChain (fun a b => ¬ (a = 45 ∧ b = 45)) := by
    rcases hq with rfl | rfl
    · simpa using h.dashes
    · rw [List.isChain_append]
      refine ⟨h.dashes, List.IsChain.singleton _, fun a _ b hb => ?_⟩
      rintro ⟨-, rfl⟩
      simp at hb
  have hfilter : ((id ++ q).filter (· != 45)).take 32 = id.filter (· != 45) := by
    rw [List.filter_append, ← h.letters, List.take_left]
  have hlength : pvuuid.length ≤ ((id ++ q).filter (· != 45)).length := by
    rw [huuid, List.filter_append, List.length_append, h.letters]
    omega
  have hcompare := uuidCompare_iff pvuuid hchain hlength
  rw [huuid, hfilter] at hcompare
  rw [matchesUuid, scanUuid_idLine h, htake, Option.any_some, hcompare]

theorem lineId_idLine {id : List Byte} (h : VolumeId id) : lineId (idLine id) = some id := by
  have hvalue : lineValue "id" (idLine id) = some (34 :: (id ++ ascii "\"\n")) := rfl
  have hall : ∀ b ∈ id, (b != 34) = true := fun b hb => by
    rw [bne_iff_ne]
    rintro rfl
    exact h.plain hb
  rw [lineId, hvalue]
  show some ((id ++ ascii "\"\n").takeWhile _) = _
  rw [List.takeWhile_append_of_pos hall]
  simp [ascii]

end PulseImaging
