import PulseImaging.TextFile
import PulseImaging.StreamDecoder

/-! The byte format shared by the image writer and the image readers: a block
of `TOTALLG` bytes made of a text header and an allocation bitmap, followed by
the allocated sectors. -/

namespace PulseImaging

def HEADERLG : Nat := 2048
def TOTALLG : Nat := 24064
def ALLOCLG : Nat := 22016

theorem TOTALLG_eq : TOTALLG = HEADERLG + ALLOCLG := rfl

theorem TOTALLG_sectors : TOTALLG = 512 * 47 := rfl

theorem TOTALLG_pos : 0 < TOTALLG := by decide

def blocksKey : List Byte := ascii "BLOCKS="
def alloctablelgKey : List Byte := ascii "ALLOCTABLELG="

/-- The number of image files of a bitmap of `bitmaplg` bytes. -/
def blockCount (bitmaplg : Nat) : Nat := (bitmaplg + ALLOCLG - 1) / ALLOCLG

/-- The `PARAMS` an image tool hands to `compress_volume`. The bounds are those
of the C types: `nb_sect` is an `unsigned long long` and the number of image
files an `int`. -/
structure PARAMS where
  bitmap : List Byte
  nb_sect : Nat
  nb_sect_lt : nb_sect < 2 ^ 64
  nb_lt : blockCount bitmap.length < 2 ^ 31

/-- The `info` strings of the image tools. -/
def imagerInfos : List (List Byte) :=
  [ascii "E2FS=1|TYPE=131", ascii "FAT32=1", ascii "FAT32=0", ascii "", ascii "LVM",
    ascii "RFS3", ascii "NTFS=1", ascii "SWAP=1", ascii "XFS"]

/-- Some tools give an empty `info`. -/
theorem nil_mem_imagerInfos : [] ∈ imagerInfos := by decide

def firststring (nb_sect nb : Nat) (info : List Byte) : List Byte :=
  ascii "SECTORS=" ++ decimal nb_sect ++ ascii "|BLOCKS=" ++ decimal nb ++ ascii "|" ++ info

/-- `%03d` -/
def pad3 (n : Nat) : List Byte :=
  List.replicate (3 - (decimal n).length) (digitByte 0) ++ decimal n

def numline (i : Nat) : List Byte := ascii "L" ++ pad3 i ++ ascii ":"

/-- Scan of the `options` file for the line of block `i`; every line loses its
last character to a `|`. -/
def optionsLoop (i : Nat) : Nat → TextFile → List Byte
  | 0, _ => []
  | fuel + 1, f =>
    match f.fgets 400 with
    | (none, _) => []
    | (some l, f') =>
      let line := (cstr l).dropLast ++ ascii "|"
      if (strstr (numline i) line).isSome then line.drop 5 else optionsLoop i fuel f'

def filestring (options : Option (List Byte)) (i : Nat) : List Byte :=
  match options with
  | none => []
  | some content => optionsLoop i content.length ⟨content, false⟩

def headerText (first file : List Byte) (lg : Nat) : List Byte :=
  first ++ file ++ (alloctablelgKey ++ (decimal lg ++ ascii "\n"))

def zeroPad (n : Nat) (l : List Byte) : List Byte := l ++ List.replicate (n - l.length) 0

/-- The `IMAGE_HEADER` of one file, `TOTALLG` bytes. -/
def imageHeader (text bitmap : List Byte) : List Byte := zeroPad HEADERLG text ++ zeroPad ALLOCLG bitmap

/-- `sscanf(strstr(BUFFER, key) + strlen(key), "%d", ...)` -/
def headerField (key buffer : List Byte) : Option Int :=
  ((strstr key (cstr buffer)).bind (fun t => scanInt (t.drop key.length))).map Prod.fst

theorem zeroPad_length {n : Nat} {l : List Byte} (h : l.length ≤ n) : (zeroPad n l).length = n := by
  simp [zeroPad]
  omega

theorem imageHeader_length {text bitmap : List Byte} (ht : text.length ≤ HEADERLG)
    (hb : bitmap.length ≤ ALLOCLG) : (imageHeader text bitmap).length = TOTALLG := by
  simp [imageHeader, zeroPad_length ht, zeroPad_length hb, TOTALLG_eq]

theorem bits_zeroPad (n : Nat) (l : List Byte) :
    bits (zeroPad n l) = bits l ++ List.replicate (8 * (n - l.length)) false := by
  have hz (k : Nat) : bits (List.replicate k 0) = List.replicate (8 * k) false := by
    induction k with
    | zero => rfl
    | succ k ih =>
      have hb : byteBits 0 = List.replicate 8 false := by decide
      rw [List.replicate_succ, bits_cons, ih, hb, ← List.replicate_add]
      congr 1
      omega
  rw [zeroPad, bits_append, hz]

/-- Padding a bitmap adds no set bit. -/
theorem setBits_zeroPad (n : Nat) (l : List Byte) : setBits (zeroPad n l) = setBits l := by
  rw [setBits, bits_zeroPad, indexes_append, indexes_replicate_false, List.append_nil, setBits]

/-! ### Reading the header back -/

theorem decimal_length_le {n k : Nat} (hk : 0 < k) (h : n < 10 ^ k) : (decimal n).length ≤ k := by
  induction k generalizing n with
  | zero => omega
  | succ k ih =>
    by_cases hn : n < 10
    · simp [decimal_lt_ten hn]
    · rw [decimal_ge_ten (by omega), List.length_append, List.length_singleton]
      have hk0 : 0 < k := by
        rcases Nat.eq_zero_or_pos k with rfl | hk
        · simp at h; omega
        · exact hk
      have := ih hk0 (n := n / 10) (by rw [Nat.pow_succ] at h; omega)
      omega

theorem optionsLoop_zero_not_mem (i fuel : Nat) (f : TextFile) : 0 ∉ optionsLoop i fuel f := by
  induction fuel generalizing f with
  | zero => simp [optionsLoop]
  | succ fuel ih =>
    rw [optionsLoop]
    rcases hg : f.fgets 400 with ⟨l, f'⟩
    cases l with
    | none => simp
    | some l =>
      dsimp only
      split
      · intro h
        have hm := List.mem_of_mem_drop h
        rcases List.mem_append.mp hm with hm | hm
        · have hz := List.mem_takeWhile_imp (List.mem_of_mem_dropLast hm)
          simp at hz
        · simp [ascii] at hm
      · exact ih f'

theorem optionsLoop_length_le (i fuel : Nat) (f : TextFile) :
    (optionsLoop i fuel f).length ≤ 400 := by
  induction fuel generalizing f with
  | zero => simp [optionsLoop]
  | succ fuel ih =>
    rw [optionsLoop]
    rcases hg : f.fgets 400 with ⟨l, f'⟩
    cases l with
    | none => simp
    | some l =>
      dsimp only
      split
      · have hl : l.length ≤ 399 := by
          simp only [TextFile.fgets] at hg
          split at hg
          · simp at hg
          · simp only [Prod.mk.injEq, Option.some.injEq] at hg
            rw [← hg.1]
            exact readLine_length_le _ _
        have hc : (cstr l).length ≤ l.length := (List.takeWhile_sublist _).length_le
        simp [ascii]
        omega
      · exact ih f'

theorem filestring_zero_not_mem (options : Option (List Byte)) (i : Nat) :
    0 ∉ filestring options i := by
  cases options with
  | none => simp [filestring]
  | some content => exact optionsLoop_zero_not_mem i _ _

theorem filestring_length_le (options : Option (List Byte)) (i : Nat) :
    (filestring options i).length ≤ 400 := by
  cases options with
  | none => simp [filestring]
  | some content => exact optionsLoop_length_le i _ _

theorem not_mem_decimal {b : Byte} (hb : isDigit b = false) (n : Nat) : b ∉ decimal n := by
  intro h
  rw [decimal_isDigit n b h] at hb
  exact Bool.noConfusion hb

theorem headerText_zero_not_mem {first file : List Byte} (hf : 0 ∉ first) (hs : 0 ∉ file) (lg : Nat) :
    0 ∉ headerText first file lg := by
  have hd := not_mem_decimal (show isDigit 0 = false by decide) lg
  have hk : 0 ∉ alloctablelgKey := by decide
  have hn : 0 ∉ ascii "\n" := by decide
  simp [headerText, hf, hs, hd, hk, hn]

theorem firststring_zero_not_mem {info : List Byte} (hi : info ∈ imagerInfos) (nb_sect nb : Nat) :
    0 ∉ firststring nb_sect nb info := by
  have hd := not_mem_decimal (show isDigit 0 = false by decide)
  have hinfo : ∀ t ∈ imagerInfos, 0 ∉ t := by decide
  have h1 : 0 ∉ ascii "SECTORS=" := by decide
  have h2 : 0 ∉ ascii "|BLOCKS=" := by decide
  have h3 : 0 ∉ ascii "|" := by decide
  simp [firststring, hd, hinfo info hi, h1, h2, h3]

theorem firststring_length_le {info : List Byte} (hi : info ∈ imagerInfos) {nb_sect nb : Nat}
    (hs : nb_sect < 2 ^ 64) (hn : nb < 2 ^ 31) : (firststring nb_sect nb info).length ≤ 100 := by
  have hinfo : ∀ t ∈ imagerInfos, t.length ≤ 15 := by decide
  have h1 := hinfo info hi
  have h2 := decimal_length_le (n := nb_sect) (k := 20) (by decide) (by omega)
  have h3 := decimal_length_le (n := nb) (k := 10) (by decide) (by omega)
  have e1 : (ascii "SECTORS=").length = 8 := rfl
  have e2 : (ascii "|BLOCKS=").length = 8 := rfl
  have e3 : (ascii "|").length = 1 := rfl
  simp only [firststring, List.length_append, e1, e2, e3]
  omega

theorem headerText_length_lt {first file : List Byte} {lg : Nat} (hf : first.length ≤ 100)
    (hs : file.length ≤ 400) (hlg : lg ≤ ALLOCLG) : (headerText first file lg).length < HEADERLG := by
  have h1 := decimal_length_le (n := lg) (k := 5) (by decide) (by simp only [ALLOCLG] at hlg; omega)
  have e1 : alloctablelgKey.length = 13 := rfl
  have e2 : (ascii "\n").length = 1 := rfl
  simp only [headerText, List.length_append, e1, e2, HEADERLG]
  omega

theorem cstr_imageHeader {text : List Byte} (h0 : 0 ∉ text) (hlt : text.length < HEADERLG)
    (bitmap : List Byte) : cstr (imageHeader text bitmap) = text := by
  obtain ⟨k, hk⟩ : ∃ k, HEADERLG - text.length = k + 1 := ⟨HEADERLG - text.length - 1, by omega⟩
  simp only [imageHeader, zeroPad, hk, List.replicate_succ, List.append_assoc, List.cons_append]
  exact cstr_append_zero h0 _

/-- No `a` of the list is followed by a `b` or by the end. -/
def noPair (a b : Byte) : List Byte → Bool
  | [] => true
  | [c] => c != a
  | c :: d :: t => (c != a || d != b) && noPair a b (d :: t)

theorem noPair_append {a b : Byte} {x y : List Byte} (hx : a ∉ x) (hy : noPair a b y = true) :
    noPair a b (x ++ y) = true := by
  induction x with
  | nil => exact hy
  | cons c x ih =>
    have hc : c ≠ a := fun h => hx (by simp [h])
    have hi := ih (fun h => hx (by simp [h]))
    cases hxy : x ++ y with
    | nil => simp [hxy, noPair, hc]
    | cons d t =>
      rw [hxy] at hi
      simp [hxy, noPair, hc, hi]

theorem not_infix_append_of_noPair {a b : Byte} {k x y : List Byte} (hx : noPair a b x = true)
    (hy : ¬ (a :: b :: k) <:+: y) : ¬ (a :: b :: k) <:+: x ++ y := by
  induction x with
  | nil => exact hy
  | cons c x ih =>
    rw [List.cons_append, List.infix_cons_iff]
    rintro (hp | hi)
    · rw [List.cons_prefix_cons] at hp
      cases x with
      | nil => simp [noPair, hp.1] at hx
      | cons d t =>
        rw [List.cons_append, List.cons_prefix_cons] at hp
        simp [noPair, hp.1, hp.2.1] at hx
    · refine ih ?_ hi
      cases x with
      | nil => rfl
      | cons d t => exact (Bool.and_eq_true_iff.mp hx).2

theorem not_infix_append_of_head {k x y : List Byte} (hx : ¬ k <:+: x) (hy : ¬ k <:+: y)
    (hhead : ∀ b ∈ y.head?, b ∉ k) : ¬ k <:+: x ++ y := by
  induction x with
  | nil => exact hy
  | cons c x ih =>
    rw [List.cons_append, List.infix_cons_iff]
    rintro (hp | hi)
    · rw [← List.cons_append] at hp
      by_cases hlen : k.length ≤ (c :: x).length
      · exact hx (List.prefix_of_prefix_length_le hp (List.prefix_append _ _) hlen).isInfix
      · have hget := List.prefix_iff_getElem?.mp hp (c :: x).length (by omega)
        rw [List.getElem?_append_right (Nat.le_refl _), Nat.sub_self,
          ← List.head?_eq_getElem?] at hget
        exact hhead _ hget (List.getElem_mem _)
    · exact ih (fun h => hx (h.trans (List.suffix_cons c x).isInfix)) hi

theorem alloctablelgKey_absent {info file : List Byte} (hi : info ∈ imagerInfos)
    (hfile : ¬ alloctablelgKey <:+: file) (nb_sect nb : Nat) :
    ¬ alloctablelgKey <:+: firststring nb_sect nb info ++ file := by
  have hinfo : ∀ t ∈ imagerInfos, noPair 65 76 t = true := by decide
  have hd := not_mem_decimal (show isDigit 65 = false by decide)
  refine not_infix_append_of_noPair (a := 65) (b := 76) ?_ hfile
  refine noPair_append ?_ (hinfo info hi)
  have h1 : 65 ∉ ascii "SECTORS=" := by decide
  have h2 : 65 ∉ ascii "|BLOCKS=" := by decide
  have h3 : 65 ∉ ascii "|" := by decide
  simp [hd, h1, h2, h3]

theorem strstr_alloctablelg {first file : List Byte} {lg : Nat}
    (hk : ¬ alloctablelgKey <:+: first ++ file) (h0 : 0 ∉ headerText first file lg)
    (hlt : (headerText first file lg).length < HEADERLG) (bitmap : List Byte) :
    strstr alloctablelgKey (cstr (imageHeader (headerText first file lg) bitmap)) =
      some (alloctablelgKey ++ (decimal lg ++ ascii "\n")) := by
  have hkey : alloctablelgKey = ascii "ALLOCTABLELG" ++ [61] := rfl
  rw [hkey] at hk
  rw [cstr_imageHeader h0 hlt, headerText, hkey]
  exact strstr_append (by decide) hk

theorem headerField_alloctablelg {first file : List Byte} {lg : Nat}
    (hk : ¬ alloctablelgKey <:+: first ++ file) (h0 : 0 ∉ headerText first file lg)
    (hlt : (headerText first file lg).length < HEADERLG) (bitmap : List Byte) :
    headerField alloctablelgKey (imageHeader (headerText first file lg) bitmap) =
      some (lg : Int) := by
  rw [headerField, strstr_alloctablelg hk h0 hlt]
  have hline : ∀ b ∈ (ascii "\n").head?, isDigit b = false := by simp [ascii, isDigit]
  simp [scanInt_decimal lg hline]

theorem strstr_blocks_first {info file : List Byte} {nb_sect nb lg : Nat}
    (h0 : 0 ∉ headerText (firststring nb_sect nb info) file lg)
    (hlt : (headerText (firststring nb_sect nb info) file lg).length < HEADERLG) (bitmap : List Byte) :
    strstr blocksKey (cstr (imageHeader (headerText (firststring nb_sect nb info) file lg) bitmap)) =
      some (blocksKey ++ (decimal nb ++ (ascii "|" ++ (info ++ (file ++ (alloctablelgKey ++
        (decimal lg ++ ascii "\n"))))))) := by
  have hkey : blocksKey = ascii "BLOCKS" ++ [61] := rfl
  have hsplit : headerText (firststring nb_sect nb info) file lg =
      (ascii "SECTORS=" ++ decimal nb_sect ++ ascii "|") ++ (blocksKey ++ (decimal nb ++
        (ascii "|" ++ (info ++ (file ++ (alloctablelgKey ++ (decimal lg ++ ascii "\n"))))))) := by
    have he : ascii "|BLOCKS=" = ascii "|" ++ blocksKey := rfl
    simp only [headerText, firststring, he, List.append_assoc]
  have hpre : ¬ (ascii "BLOCKS" ++ [61]) <:+: ascii "SECTORS=" ++ decimal nb_sect ++ ascii "|" := by
    intro h
    have hm : (66 : Byte) ∈ ascii "SECTORS=" ++ decimal nb_sect ++ ascii "|" := h.subset (by decide)
    have hd := not_mem_decimal (show isDigit 66 = false by decide) nb_sect
    have h1 : 66 ∉ ascii "SECTORS=" := by decide
    have h2 : 66 ∉ ascii "|" := by decide
    simp [hd, h1, h2] at hm
  rw [cstr_imageHeader h0 hlt, hsplit, hkey]
  exact strstr_append (by decide) hpre

theorem headerField_blocks_first {info file : List Byte} {nb_sect nb lg : Nat}
    (h0 : 0 ∉ headerText (firststring nb_sect nb info) file lg)
    (hlt : (headerText (firststring nb_sect nb info) file lg).length < HEADERLG)
    (bitmap : List Byte) :
    headerField blocksKey (imageHeader (headerText (firststring nb_sect nb info) file lg) bitmap) =
      some (nb : Int) := by
  rw [headerField, strstr_blocks_first h0 hlt]
  simp only [Option.bind_some, List.drop_left]
  rw [scanInt_decimal nb (by simp [ascii, isDigit])]
  rfl

theorem strstr_blocks_later {file : List Byte} {lg : Nat} (hfile : ¬ blocksKey <:+: file)
    (h0 : 0 ∉ headerText [] file lg) (hlt : (headerText [] file lg).length < HEADERLG)
    (bitmap : List Byte) :
    strstr blocksKey (cstr (imageHeader (headerText [] file lg) bitmap)) = none := by
  have hkey : ¬ blocksKey <:+: alloctablelgKey := by decide
  have htail : ¬ blocksKey <:+: decimal lg ++ ascii "\n" := by
    intro h
    have hm : (66 : Byte) ∈ decimal lg ++ ascii "\n" := h.subset (by decide)
    have hd := not_mem_decimal (show isDigit 66 = false by decide) lg
    have h1 : 66 ∉ ascii "\n" := by decide
    simp [hd, h1] at hm
  have hdigit : ∀ b ∈ (decimal lg ++ ascii "\n").head?, b ∉ blocksKey := by
    intro b hb hm
    obtain ⟨d, ds, hds⟩ := List.exists_cons_of_ne_nil (decimal_ne_nil lg)
    have hbd : isDigit b = true := by
      rw [hds] at hb
      simp only [List.cons_append, List.head?_cons, Option.mem_some_iff] at hb
      exact decimal_isDigit lg b (by simp [hds, hb])
    have hall : ∀ x ∈ blocksKey, isDigit x = false := by simp [blocksKey, ascii, isDigit]
    rw [hall b hm] at hbd
    exact Bool.noConfusion hbd
  have hnot : ¬ blocksKey <:+: headerText [] file lg := by
    rw [headerText, List.nil_append]
    refine not_infix_append_of_head hfile (not_infix_append_of_head hkey htail hdigit) ?_
    simp [alloctablelgKey, blocksKey, ascii]
  rw [cstr_imageHeader h0 hlt, (strstr_eq_none_iff (by decide)).mpr hnot]

theorem headerField_blocks_later {file : List Byte} {lg : Nat} (hfile : ¬ blocksKey <:+: file)
    (h0 : 0 ∉ headerText [] file lg) (hlt : (headerText [] file lg).length < HEADERLG)
    (bitmap : List Byte) :
    headerField blocksKey (imageHeader (headerText [] file lg) bitmap) = none := by
  rw [headerField, strstr_blocks_later hfile h0 hlt]
  rfl

end PulseImaging
