import PulseImaging.BiosNumbers
import PulseImaging.ImageNames
import PulseImaging.RestoreConf
import PulseImaging.SavedVolumes

/-! The `conf.txt` of a backup, and what the restore makes of it. -/

namespace PulseImaging

/-! ### Writing -/

/-- `%x` -/
def hexText (n : Nat) : List Byte :=
  if n = 0 then [hexDigit false 0] else ((Nat.digits 16 n).reverse).map (hexDigit false)

/-- The `int` that a 32-bit word is printed as. -/
def asSigned (n : Nat) : Int := if n < 2 ^ 31 then n else n - 2 ^ 32

def newline : List Byte := [10]

def ptabsLine (dnum : Int) : List Byte :=
  ascii "ptabs (hd" ++ printInt (dnum - 128) ++ ascii ") (nd)PATH/" ++ dnum2pre dnum ++ ascii "TABS" ++ newline

/-- ` (hd%d,%d) %u` in the lines of a volume -/
def volumeText (v : Volume) : List Byte :=
  ascii "(hd" ++ printInt (v.dnum - 128) ++ ascii "," ++ printInt (v.poff - 1 : Int) ++ ascii ") " ++ decimal v.tmin

def volumeComment (v : Volume) : List Byte :=
  ascii " # " ++ volumeText v ++ ascii " " ++ decimal v.tmax ++ ascii " " ++ printInt (asSigned v.ttype) ++ newline

def partcopyLine (v : Volume) : List Byte :=
  ascii " partcopy " ++ volumeText v ++ ascii " PATH/" ++ dnum2pre v.dnum ++
    (if v.isdm then ascii " " ++ v.part.device else decimal v.poff) ++ newline

def errorLine (v : Volume) : List Byte :=
  ascii "# ERROR: Unsupported or corrupted FS...(disk " ++ printInt v.dnum ++ ascii ", part " ++ decimal v.poff ++
    ascii ", type " ++ hexText v.ttype ++ ascii ")" ++ newline

def eventLines : SaveEvent → List (List Byte)
  | .disk dnum _ _ => [ascii "# Comment next line to remove PTABS reconstruction\n", ptabsLine dnum]
  | .partcopy v => [volumeComment v, partcopyLine v]
  | .unsupported v => [errorLine v]
  | .saveRaw _ _ _ _ => []
  | .image _ _ => []

/-- The lines that `saveimage` and `save` write. -/
def conftxtLines (hostname date : List Byte) (trace : List SaveEvent) : List (List Byte) :=
  [ascii "title Image " ++ hostname ++ newline, ascii "desc (" ++ date ++ ascii ")" ++ newline,
    ascii "# Partcopy commands...\n"] ++
  trace.flatMap eventLines ++
  [ascii "# Boot on 1st disk 0\n", ascii " root (hd0)\n", ascii " chainloader +1\n", newline]

def conftxt (hostname date : List Byte) (trace : List SaveEvent) : List Byte :=
  (conftxtLines hostname date trace).flatten

/-- The restore that a line is written for. -/
def SaveEvent.meant : SaveEvent → Option RestoreAction
  | .disk dnum _ _ => some (.restoreRaw (dnum - 128).toNat (dnum2pre dnum ++ ascii "TABS"))
  | .partcopy v =>
    some (if v.isdm then .restoreLvm (devPath v.part.device) 0 (dnum2pre v.dnum)
      else .restore (v.dnum - 128).toNat v.tmin (dnum2pre v.dnum ++ decimal v.poff))
  | _ => none

/-! ### Lines as texts -/

/-- A line with its newline at its end and no other, and no end of string. -/
def IsLine (l : List Byte) : Prop := ∃ body, l = body ++ newline ∧ 10 ∉ body ∧ 0 ∉ body

theorem textLines_append {l rest : List Byte} (h : IsLine l) :
    textLines (l ++ rest) = l :: textLines rest := by
  obtain ⟨body, rfl, hnl, -⟩ := h
  induction body with
  | nil => rfl
  | cons c body ih =>
    have hc : c ≠ 10 := fun hc => hnl (by simp [hc])
    have hi := ih (fun h => hnl (List.mem_cons_of_mem _ h))
    rw [List.cons_append, List.cons_append, textLines, if_neg hc, hi]

theorem textLines_flatten {ls : List (List Byte)} (h : ∀ l ∈ ls, IsLine l) :
    textLines ls.flatten = ls := by
  induction ls with
  | nil => rfl
  | cons l ls ih =>
    rw [List.flatten_cons, textLines_append (h l (by simp)), ih (fun l' hl' => h l' (by simp [hl']))]

theorem cstr_of_not_mem {t : List Byte} (h : 0 ∉ t) : cstr t = t := by
  rw [cstr, List.takeWhile_eq_self_iff]
  intro b hb
  have hne : b ≠ 0 := fun h0 => h (h0 ▸ hb)
  simpa using hne

theorem IsLine.cstr_eq {l : List Byte} (h : IsLine l) : cstr l = l := by
  obtain ⟨body, rfl, -, h0⟩ := h
  exact cstr_of_not_mem (by simp [h0, newline])

theorem confLines_flatten {ls : List (List Byte)} (h : ∀ l ∈ ls, IsLine l) :
    confLines ls.flatten = ls := by
  rw [confLines, textLines_flatten h]
  conv_rhs => rw [← List.map_id ls]
  exact List.map_congr_left fun l hl => (h l hl).cstr_eq

/-! ### What the fields are made of -/

/-- Text without white space and without an end of string. -/
def Solid (t : List Byte) : Prop := ∀ b ∈ t, isSpace b = false ∧ b ≠ 0

theorem Solid.append {s t : List Byte} (hs : Solid s) (ht : Solid t) : Solid (s ++ t) := fun b hb =>
  (List.mem_append.mp hb).elim (hs b) (ht b)

theorem Solid.isWord {t : List Byte} (h : Solid t) (hne : t ≠ []) :
    IsWord t := ⟨hne, fun b hb => (h b hb).1⟩

theorem solid_ascii {s : String} (h : (ascii s).all (fun b => !isSpace b && b != 0) = true) :
    Solid (ascii s) :=
  fun b hb => by simpa using List.all_eq_true.mp h b hb

theorem isWord_ascii {s : String} (hne : ascii s ≠ [])
    (h : (ascii s).all (fun b => !isSpace b) = true) :
    IsWord (ascii s) :=
  ⟨hne, fun b hb => by simpa using List.all_eq_true.mp h b hb⟩

theorem solid_of_digits {t : List Byte} (h : ∀ b ∈ t, isDigit b = true) : Solid t := by
  intro b hb
  refine ⟨isSpace_of_isDigit (h b hb), ?_⟩
  rintro rfl
  exact absurd (h 0 hb) (by decide)

theorem solid_decimal (n : Nat) : Solid (decimal n) := solid_of_digits (decimal_isDigit n)

theorem solid_printInt (z : Int) : Solid (printInt z) := by
  rw [printInt]
  split
  · exact Solid.append (solid_ascii (by decide)) (solid_decimal _)
  · exact solid_decimal _

theorem solid_hexDigit (upper : Bool) {d : Nat} (h : d < 16) :
    isSpace (hexDigit upper d) = false ∧ hexDigit upper d ≠ 0 := by
  have hall : ∀ u : Bool, ∀ d < 16, isSpace (hexDigit u d) = false ∧ hexDigit u d ≠ 0 := by decide
  exact hall upper d h

theorem solid_hexText (n : Nat) : Solid (hexText n) := by
  intro b hb
  rw [hexText] at hb
  split at hb
  · rw [List.mem_singleton.mp hb]
    exact solid_hexDigit false (by norm_num)
  · obtain ⟨d, hd, rfl⟩ := List.mem_map.mp hb
    exact solid_hexDigit false (Nat.digits_lt_base (by norm_num) (List.mem_reverse.mp hd))

theorem solid_dnum2pre_dm {dnum : Int} (h : 0xFFF ≤ dnum) :
    Solid (dnum2pre dnum) ∧ dnum2pre dnum ≠ [] := by
  rw [dnum2pre, if_pos h, hex2_eq (by omega)]
  refine ⟨Solid.append (solid_ascii (by decide)) fun b hb => ?_, by simp⟩
  rcases List.mem_cons.mp hb with rfl | hb
  · exact solid_hexDigit true (by omega)
  · rw [List.mem_singleton.mp hb]
    exact solid_hexDigit true (by omega)

/-- Pieces of a line. -/
def Clean (t : List Byte) : Prop := 10 ∉ t ∧ 0 ∉ t

theorem Clean.append {s t : List Byte} (hs : Clean s) (ht : Clean t) : Clean (s ++ t) :=
  ⟨by simp [hs.1, ht.1], by simp [hs.2, ht.2]⟩

theorem Solid.clean {t : List Byte} (h : Solid t) : Clean t :=
  ⟨fun h10 => absurd (h 10 h10).1 (by decide), fun h0 => (h 0 h0).2 rfl⟩

theorem Clean.isLine {t : List Byte} (h : Clean t) : IsLine (t ++ newline) := ⟨t, rfl, h.1, h.2⟩

theorem scanWord_word {w rest : List Byte} (hw : IsWord w) (hr : EndsWord rest) :
    scanWord (w ++ rest) = some w := by
  obtain ⟨b, t, rfl⟩ := List.exists_cons_of_ne_nil hw.ne_nil
  have hb := hw.noSpace b (by simp)
  have hdrop : ((b :: t) ++ rest).dropWhile isSpace = (b :: t) ++ rest := by simp [hb]
  simp only [scanWord, hdrop, (takeWhile_word hw.noSpace hr).1]
  simp

theorem scanWord_blank (s : List Byte) : scanWord (32 :: s) = scanWord s := rfl

theorem isCommandLine_of_word {s w : List Byte} (h : scanWord s = some w)
    (hw : isCommandLine w = false) (hsolid : IsWord w) : isCommandLine s = false := by
  have hself : scanWord w = some w := by simpa using scanWord_word hsolid (show EndsWord [] by simp [EndsWord])
  simpa [isCommandLine, h, hself] using hw

theorem lineAction_eq_none {s : List Byte} (h : isCommandLine s = false) : lineAction s = none := by
  by_contra hne
  rw [lineAction_isCommandLine hne] at h
  simp at h

/-! ### The lines of disks and volumes -/

/-- The characters of a format that stand for themselves. -/
def lits (s : String) : List Directive := (ascii s).map .lit

theorem ptabsFormat_eq : ptabsFormat = .ws :: (lits "ptabs" ++ (.ws :: (lits "(hd" ++ (.num true ::
    (lits ")" ++ (.ws :: (lits "(nd)PATH/" ++ [.word true]))))))) := rfl

theorem partcopyFormat_eq : partcopyFormat = .ws :: (lits "partcopy" ++ (.ws :: (lits "(hd" ++ (.num true ::
    (lits "," ++ (.num true :: (lits ")" ++ (.ws :: (.num true :: (.ws ::
      (lits "PATH/" ++ [.word true]))))))))))) := rfl

theorem lvmFormat_eq : lvmFormat = .ws :: (lits "partcopy" ++ (.ws :: (lits "(hd" ++ (.num false ::
    (lits "," ++ (.num false :: (lits ")" ++ (.ws :: (.num false :: (.ws ::
      (lits "PATH/" ++ [.word false, .ws, .word true]))))))))))) := rfl

theorem sscanf_ascii (s : String) (ds : List Directive) (rest : List Byte) :
    sscanf (lits s ++ ds) (ascii s ++ rest) = sscanf ds rest :=
  sscanf_lits _ _ _

theorem storeUnsigned_of_lt {z : Int} (h0 : 0 ≤ z) (h : z < 2 ^ 32) : storeUnsigned z = z.toNat := by
  rw [storeUnsigned, if_pos (by omega), Int.emod_eq_of_lt h0 h]

theorem sscanf_ptabsLine {dnum : Int} (hs : Solid (dnum2pre dnum)) :
    sscanf ptabsFormat (ptabsLine dnum) = [.num (dnum - 128), .word (dnum2pre dnum ++ ascii "TABS")] := by
  have hw : IsWord (dnum2pre dnum ++ ascii "TABS") :=
    (hs.append (solid_ascii (by decide))).isWord (by simp [ascii])
  have hline : ptabsLine dnum = ascii "ptabs" ++ (32 :: (ascii "(hd" ++ (printInt (dnum - 128) ++
      (ascii ")" ++ (32 :: (ascii "(nd)PATH/" ++ ((dnum2pre dnum ++ ascii "TABS") ++ newline))))))) := by
    simp only [ptabsLine, List.append_assoc]
    rfl
  rw [hline, ptabsFormat_eq, sscanf_ws _ (by simp [ascii, isSpace]), sscanf_ascii,
    sscanf_blank _ (by simp [ascii, isSpace]),
    sscanf_ascii, sscanf_num true _ _ (by simp [EndsNumber, ascii, isDigit]), sscanf_ascii,
    sscanf_blank _ (by simp [ascii, isSpace]), sscanf_ascii,
    sscanf_word true _ hw (by simp [EndsWord, newline, isSpace])]
  rfl

/-- A blank and a text in parentheses, as the two formats read them. -/
theorem sscanf_volumeText (keep : Bool) (ds : List Directive) (v : Volume) {rest : List Byte} (hrest : EndsNumber rest) :
    sscanf (.ws :: (lits "(hd" ++ (.num keep :: (lits "," ++ (.num keep :: (lits ")" ++
        (.ws :: (.num keep :: ds)))))))) (32 :: (volumeText v ++ rest)) =
      (if keep then [.num (v.dnum - 128), .num (v.poff - 1), .num v.tmin] else []) ++ sscanf ds rest := by
  have htext : volumeText v ++ rest = ascii "(hd" ++ (printInt (v.dnum - 128) ++ (ascii "," ++
      (printInt (v.poff - 1 : Int) ++ (ascii ")" ++ (32 :: (printInt v.tmin ++ rest)))))) := by
    rw [printInt_natCast]
    simp only [volumeText, List.append_assoc]
    rfl
  have hdigit : ∀ b ∈ (printInt (v.tmin : Int) ++ rest).head?, isSpace b = false := by
    intro b hb
    rw [printInt_natCast, List.head?_append_of_ne_nil _ (decimal_ne_nil _)] at hb
    exact (solid_decimal _ b (List.mem_of_mem_head? hb)).1
  rw [htext, sscanf_blank _ (by simp [ascii, isSpace]), sscanf_ascii,
    sscanf_num keep _ _ (by simp [EndsNumber, ascii, isDigit]), sscanf_ascii,
    sscanf_num keep _ _ (by simp [EndsNumber, ascii, isDigit]), sscanf_ascii, sscanf_blank _ hdigit,
    sscanf_num keep _ _ hrest]
  cases keep <;> rfl

/-- The word after `PATH/` and what follows it in the line of a volume. -/
theorem partcopyLine_eq (v : Volume) : partcopyLine v = 32 :: (ascii "partcopy" ++ (32 :: (volumeText v ++
    (32 :: (ascii "PATH/" ++ (dnum2pre v.dnum ++ (if v.isdm then ascii " " ++ v.part.device else decimal v.poff) ++
      newline)))))) := by
  simp only [partcopyLine, List.append_assoc]
  rfl

theorem sscanf_partcopyLine {v : Volume} {w rest : List Byte} (hw : IsWord w) (hr : EndsWord rest)
    (hpath : dnum2pre v.dnum ++ (if v.isdm then ascii " " ++ v.part.device else decimal v.poff) ++ newline = w ++ rest) :
    sscanf partcopyFormat (partcopyLine v) =
      [.num (v.dnum - 128), .num (v.poff - 1), .num v.tmin, .word w] ∧
    sscanf lvmFormat (partcopyLine v) = sscanf [.ws, .word true] rest := by
  have hblank : ∀ t : List Byte, EndsNumber (32 :: t) := fun t => by simp [EndsNumber, isDigit]
  rw [partcopyLine_eq, hpath, partcopyFormat_eq, lvmFormat_eq]
  constructor
  · rw [sscanf_blank _ (by simp [ascii, isSpace]), sscanf_ascii,
      sscanf_volumeText true _ v (hblank _),
      sscanf_blank _ (by simp [ascii, isSpace]), sscanf_ascii, sscanf_word true _ hw hr]
    rfl
  · rw [sscanf_blank _ (by simp [ascii, isSpace]), sscanf_ascii,
      sscanf_volumeText false _ v (hblank _),
      sscanf_blank _ (by simp [ascii, isSpace]), sscanf_ascii, sscanf_word false _ hw hr]
    rfl

theorem lineAction_ptabsLine {dnum : Int} (h : 128 ≤ dnum ∧ dnum < 0xFFF) (hs : Solid (dnum2pre dnum)) :
    lineAction (ptabsLine dnum) = some (.restoreRaw (dnum - 128).toNat (dnum2pre dnum ++ ascii "TABS")) := by
  have hkey : scanWord (ptabsLine dnum) = some (ascii "ptabs") := by
    simp only [ptabsLine, List.append_assoc]
    exact @scanWord_word (ascii "ptabs") (32 :: _) (isWord_ascii (by decide) (by decide)) (by simp [EndsWord, isSpace])
  rw [lineAction, hkey]
  simp only [if_true, sscanf_ptabsLine hs, storeUnsigned_of_lt
    (show 0 ≤ dnum - 128 by omega) (by omega)]

theorem scanWord_partcopyLine (v : Volume) : scanWord (partcopyLine v) = some (ascii "partcopy") := by
  rw [partcopyLine_eq, scanWord_blank]
  exact scanWord_word (isWord_ascii (by decide) (by decide)) (by simp [EndsWord, isSpace])

theorem lineAction_partcopyLine_disk {v : Volume} (hv : v.FromEntry) (hd : v.isdm = false)
    (h : 128 ≤ v.dnum ∧ v.dnum < 0xFFF) (hs : Solid (dnum2pre v.dnum)) :
    lineAction (partcopyLine v) =
      some (.restore (v.dnum - 128).toNat v.tmin (dnum2pre v.dnum ++ decimal v.poff)) := by
  have hw : IsWord (dnum2pre v.dnum ++ decimal v.poff) :=
    (hs.append (solid_decimal _)).isWord (by simp [decimal_ne_nil])
  have hscan := (@sscanf_partcopyLine v _ newline hw (by simp [EndsWord, newline, isSpace])
    (by simp [hd])).1
  have hnum : storeUnsigned (v.dnum - 128) = (v.dnum - 128).toNat :=
    storeUnsigned_of_lt (by omega) (by omega)
  have hlow : ¬ (3968 ≤ (v.dnum - 128).toNat ∧ storeUnsigned (v.poff - 1 : Int) = 2 ^ 32 - 1) := by
    omega
  have hkey : ascii "partcopy" ≠ ascii "ptabs" := by decide
  have hmin : storeUnsigned (v.tmin : Int) = v.tmin := by
    have := hv.tmin_lt
    rw [storeUnsigned_of_lt (by omega) (by omega), Int.toNat_natCast]
  rw [lineAction, scanWord_partcopyLine]
  simp only [hkey, if_false, if_true, hscan, hnum, hlow, hmin]

theorem lineAction_partcopyLine_dm {v : Volume} (hv : v.FromEntry) (hd : v.isdm = true)
    (hminor : 0 ≤ v.part.minor ∧ v.part.minor < 2 ^ 31 - 0x1000) (hdev : Solid v.part.device) :
    lineAction (partcopyLine v) = some (.restoreLvm (devPath v.part.device) 0 (dnum2pre v.dnum)) := by
  have hnum := hv.dnum hd
  have hbig : 0xFFF ≤ v.dnum := by omega
  obtain ⟨hs, hne⟩ := solid_dnum2pre_dm hbig
  have hdevne : v.part.device ≠ [] := by
    intro hnil
    have hm := hv.isdm
    rw [hd, hnil] at hm
    exact absurd hm (by decide)
  have hscan := @sscanf_partcopyLine v _ (32 :: (v.part.device ++ newline)) (hs.isWord hne)
    (by simp [EndsWord, isSpace]) (by simp [hd, ascii, newline])
  have hlvm : sscanf [.ws, .word true] (32 :: (v.part.device ++ newline)) =
      [.word v.part.device] := by
    have hhead : ∀ b ∈ (v.part.device ++ newline).head?, isSpace b = false := by
      intro b hb
      rw [List.head?_append_of_ne_nil _ hdevne] at hb
      exact (hdev b (List.mem_of_mem_head? hb)).1
    rw [sscanf_blank _ hhead, sscanf_word true _ (hdev.isWord hdevne)
      (by simp [EndsWord, newline, isSpace])]
    rfl
  have hhigh : 3968 ≤ storeUnsigned (v.dnum - 128) ∧
      storeUnsigned (v.poff - 1 : Int) = 2 ^ 32 - 1 := by
    rw [storeUnsigned_of_lt (show 0 ≤ v.dnum - 128 by omega) (by omega), hv.poff, hd, if_pos rfl]
    exact ⟨by omega, by decide⟩
  have hkey : ascii "partcopy" ≠ ascii "ptabs" := by decide
  rw [lineAction, scanWord_partcopyLine]
  simp only [hkey, if_false, if_true, hscan.1, hhigh, hscan.2, hlvm, hv.tmin hd, and_self]
  rfl

/-! ### A whole backup -/

theorem isCommandLine_comment (t : List Byte) : isCommandLine (ascii "#" ++ 32 :: t) = false :=
  isCommandLine_of_word (scanWord_word (w := ascii "#") (isWord_ascii (by decide) (by decide)) (by simp [EndsWord, isSpace]))
    (by decide) (isWord_ascii (by decide) (by decide))

theorem clean_ascii {s : String} (h : (ascii s).all (fun b => b != 10 && b != 0) = true) :
    Clean (ascii s) :=
  ⟨fun h10 => absurd (List.all_eq_true.mp h 10 h10) (by decide),
    fun h0 => absurd (List.all_eq_true.mp h 0 h0) (by decide)⟩

theorem clean_volumeText (v : Volume) : Clean (volumeText v) :=
  ((((clean_ascii (by decide)).append (solid_printInt _).clean).append
    (clean_ascii (by decide))).append
    (solid_printInt _).clean).append (clean_ascii (by decide)) |>.append (solid_decimal _).clean

theorem mem_disks_iff {st : SaveState} {d : NumberedDisk} :
    d ∈ st.disks ↔ .disk d.dnum d.part d.size ∈ st.trace := by
  rw [SaveState.disks, List.mem_filterMap]
  constructor
  · rintro ⟨e, he, h⟩
    cases e <;> simp_all [SaveEvent.disk?]
    rwa [← h]
  · intro h
    exact ⟨_, h, rfl⟩

theorem gethdbios_bounds {st : BiosState} {b : Int} (h : -1 ≤ st.lastnum ∧ st.lastnum ≤ b)
    (hb : 255 ≤ b) (s : Nat) :
    (gethdbios st s).1 = (gethdbios st s).2.lastnum + 128 ∧
    0 ≤ (gethdbios st s).2.lastnum ∧ (gethdbios st s).2.lastnum ≤ b + 1 := by
  simp only [gethdbios]
  cases st.hdmap with
  | none => exact ⟨rfl, by dsimp only; omega, by dsimp only; omega⟩
  | some t =>
    simp only
    cases hf : (List.range 256).find? (fun i => s == t i || (s + 1) % 2 ^ 32 == t i) with
    | none => exact ⟨rfl, by dsimp only; omega, by dsimp only; omega⟩
    | some i =>
      have hi := List.mem_range.mp (List.mem_of_find?_eq_some hf)
      exact ⟨rfl, by dsimp only; omega, by dsimp only; omega⟩

theorem biosNumbers_bounds {st : BiosState} {b : Int} (h : -1 ≤ st.lastnum ∧ st.lastnum ≤ b)
    (hb : 255 ≤ b) (sizes : List Nat) :
    ∀ n ∈ biosNumbers st sizes, 128 ≤ n ∧ n ≤ b + sizes.length + 128 := by
  induction sizes generalizing st b with
  | nil => simp [biosNumbers]
  | cons s sizes ih =>
    obtain ⟨hnum, h0, hle⟩ := gethdbios_bounds h hb s
    intro n hn
    rw [biosNumbers, List.mem_cons] at hn
    rw [List.length_cons]
    rcases hn with rfl | hn
    · omega
    · have hi := ih (b := b + 1) ⟨by omega, hle⟩ (by omega) n hn
      omega

/-- A backup of at most 128 disks, their partitions and logical volumes, with device names without white
space. -/
structure OrdinaryBackup (m : Machine) (o : SaveOptions) : Prop where
  disks : (save m o).disks.length ≤ 128
  partitions : ∀ v ∈ (save m o).volumes, v.isdm = false → ∃ d ∈ (save m o).disks, v.dnum = d.dnum
  minors : ∀ v ∈ (save m o).volumes, v.isdm = true → 0 ≤ v.part.minor ∧ v.part.minor < 2 ^ 31 - 0x1000
  devices : ∀ v ∈ (save m o).volumes, v.isdm = true → Solid v.part.device

/-- The last bytes of the numbers, counted from zero, whose prefix is a white-space character. -/
def spaceLetters : List Nat := [185, 186, 187, 188, 189, 208]

/-- No disk gets such a number, by the `hdmap` file and the sizes of the disks. -/
def PrefixesSolid (m : Machine) (o : SaveOptions) : Prop :=
  ∀ s ∈ runStretches o.hdmap ((save m o).disks.map NumberedDisk.size), ∀ r ∈ s.letters, r ∉ spaceLetters

instance (m : Machine) (o : SaveOptions) : Decidable (PrefixesSolid m o) :=
  inferInstanceAs (Decidable (∀ s ∈ _, ∀ r ∈ _, _))

theorem isSpace_iff (b : Byte) : isSpace b = true ↔ b.toNat = 32 ∨ 9 ≤ b.toNat ∧ b.toNat ≤ 13 := by
  simp [isSpace, UInt8.le_iff_toNat_le, ← UInt8.toNat_inj]

theorem dnum2pre_space_iff {n : Nat} (h : n < 512) :
    (∀ b ∈ dnum2pre (n + 128), isSpace b = false) ↔ n % 256 ∉ spaceLetters := by
  rw [dnum2pre_small h]
  split_ifs with hn
  · simp [hn, spaceLetters]
  · have hbyte := (byte_eq_iff n _).mp rfl
    generalize UInt8.ofNat ((80 + n : Int) % 256).toNat = c at hbyte ⊢
    rw [List.forall_mem_singleton, ← Bool.not_eq_true, isSpace_iff]
    simp only [spaceLetters, List.mem_cons, List.not_mem_nil, or_false]
    omega

/-- The numbers of the disks, and the stretches that they come from. -/
theorem OrdinaryBackup.numbers {m : Machine} {o : SaveOptions} (h : OrdinaryBackup m o) :
    (∀ d ∈ (save m o).disks, ∃ n : Nat, n < 512 ∧ d.dnum = (n : Int) + 128 ∧
      ∃ s ∈ runStretches o.hdmap ((save m o).disks.map NumberedDisk.size), n % 256 ∈ s.letters) ∧
    ∀ s ∈ runStretches o.hdmap ((save m o).disks.map NumberedDisk.size), ∀ r ∈ s.letters,
      ∃ d ∈ (save m o).disks, ∃ n : Nat, n < 512 ∧ d.dnum = (n : Int) + 128 ∧ n % 256 = r := by
  have hlen := h.disks
  have hnum := (save_biosNumbers m o).trans (biosNumbers_stretches o.hdmap _)
  have hsmall : ∀ n ∈ (runStretches o.hdmap
      ((save m o).disks.map NumberedDisk.size)).flatMap Stretch.numbers,
      n < 512 := by
    intro n hn
    have hmem : (n : Int) + 128 ∈ biosNumbers ⟨-1, o.hdmap⟩
        ((save m o).disks.map NumberedDisk.size) := by
      rw [biosNumbers_stretches]
      exact List.mem_map.mpr ⟨n, hn, rfl⟩
    have hb := biosNumbers_bounds (b := 255) ⟨le_rfl, by norm_num⟩ le_rfl _ _ hmem
    rw [List.length_map] at hb
    omega
  constructor
  · intro d hd
    have hmem : d.dnum ∈ (save m o).disks.map NumberedDisk.dnum := List.mem_map_of_mem hd
    rw [hnum] at hmem
    obtain ⟨n, hn, hdn⟩ := List.mem_map.mp hmem
    exact ⟨n, hsmall n hn, hdn.symm, mem_letters_flatMap.mpr ⟨n, hn, rfl⟩⟩
  · intro s hs r hr
    obtain ⟨n, hn, hnr⟩ := mem_letters_flatMap.mp ⟨s, hs, hr⟩
    have hmem : (n : Int) + 128 ∈ (save m o).disks.map NumberedDisk.dnum := by
      rw [hnum]
      exact List.mem_map.mpr ⟨n, hn, rfl⟩
    obtain ⟨d, hd, hdn⟩ := List.mem_map.mp hmem
    exact ⟨d, hd, n, hsmall n hn, hdn, hnr⟩

theorem OrdinaryBackup.prefixes_iff {m : Machine} {o : SaveOptions} (h : OrdinaryBackup m o) :
    (∀ d ∈ (save m o).disks, ∀ b ∈ dnum2pre d.dnum, isSpace b = false) ↔ PrefixesSolid m o := by
  obtain ⟨hdisk, hletter⟩ := h.numbers
  constructor
  · intro hsolid s hs r hr
    obtain ⟨d, hd, n, hn, hdn, rfl⟩ := hletter s hs r hr
    have hd' := hsolid d hd
    rw [hdn] at hd'
    exact (dnum2pre_space_iff hn).mp hd'
  · intro hsolid d hd
    obtain ⟨n, hn, hdn, s, hs, hr⟩ := hdisk d hd
    rw [hdn]
    exact (dnum2pre_space_iff hn).mpr (hsolid s hs _ hr)

theorem OrdinaryBackup.disk {m : Machine} {o : SaveOptions} (h : OrdinaryBackup m o)
    (hsolid : PrefixesSolid m o) :
    ∀ d ∈ (save m o).disks, (128 ≤ d.dnum ∧ d.dnum < 0xFFF) ∧ Solid (dnum2pre d.dnum) := by
  intro d hd
  obtain ⟨n, hn, hdn, -⟩ := h.numbers.1 d hd
  refine ⟨by omega, fun b hb => ⟨h.prefixes_iff.mpr hsolid d hd b hb, ?_⟩⟩
  rintro rfl
  rw [dnum2pre, if_neg (by omega)] at hb
  exact not_mem_cstr _ hb

/-- What the lines of one event must be: lines, no refused command, and the restore
that they are written for. -/
structure SaveEvent.Readable (e : SaveEvent) : Prop where
  isLine : ∀ l ∈ eventLines e, IsLine l
  accepted : ∀ l ∈ eventLines e, isCommandLine l = true → lineAction l ≠ none
  meant : (eventLines e).filterMap lineAction = e.meant.toList

theorem SaveEvent.Readable.of_pair {e : SaveEvent} {c l : List Byte} {a : RestoreAction}
    (he : eventLines e = [c, l]) (hc : IsLine c) (hl : IsLine l) (hcc : isCommandLine c = false)
    (ha : lineAction l = some a) (hm : e.meant = some a) : e.Readable := by
  refine ⟨?_, ?_, ?_⟩ <;> rw [he]
  · simp [hc, hl]
  · simp [hcc, ha]
  · simp [lineAction_eq_none hcc, ha, hm]

theorem readable_disk {dnum : Int} {p : PartInfo} {size : Nat} (h : 128 ≤ dnum ∧ dnum < 0xFFF)
    (hs : Solid (dnum2pre dnum)) : (SaveEvent.disk dnum p size).Readable := by
  refine .of_pair rfl ⟨ascii "# Comment next line to remove PTABS reconstruction", by decide, by decide, by decide⟩ ?_
    (isCommandLine_comment _) (lineAction_ptabsLine h hs) rfl
  have htext : Clean (ascii "ptabs (hd" ++ printInt (dnum - 128) ++ ascii ") (nd)PATH/" ++ dnum2pre dnum ++ ascii "TABS") :=
    ((((clean_ascii (by decide)).append (solid_printInt _).clean).append
      (clean_ascii (by decide))).append hs.clean).append (clean_ascii (by decide))
  exact htext.isLine

theorem readable_partcopy {v : Volume} {name : List Byte} (hname : Clean name)
    (hline : partcopyLine v = ascii " partcopy " ++ volumeText v ++ ascii " PATH/" ++ dnum2pre v.dnum ++ name ++ newline)
    (hs : Solid (dnum2pre v.dnum)) {a : RestoreAction} (ha : lineAction (partcopyLine v) = some a)
    (hm : (SaveEvent.partcopy v).meant = some a) : (SaveEvent.partcopy v).Readable := by
  have hcomment : Clean (ascii " # " ++ volumeText v ++ ascii " " ++ decimal v.tmax ++ ascii " " ++
      printInt (asSigned v.ttype)) :=
    ((((clean_ascii (by decide)).append (clean_volumeText v)).append (clean_ascii (by decide))).append
      (solid_decimal _).clean).append (clean_ascii (by decide)) |>.append (solid_printInt _).clean
  have htext : Clean (ascii " partcopy " ++ volumeText v ++ ascii " PATH/" ++ dnum2pre v.dnum ++ name) :=
    ((((clean_ascii (by decide)).append (clean_volumeText v)).append (clean_ascii (by decide))).append
      hs.clean).append hname
  exact .of_pair rfl hcomment.isLine (hline ▸ htext.isLine) (isCommandLine_comment _) ha hm

theorem readable_unsupported (v : Volume) : (SaveEvent.unsupported v).Readable := by
  have htext : Clean (ascii "# ERROR: Unsupported or corrupted FS...(disk " ++ printInt v.dnum ++ ascii ", part " ++
      decimal v.poff ++ ascii ", type " ++ hexText v.ttype ++ ascii ")") :=
    ((((((clean_ascii (by decide)).append (solid_printInt _).clean).append
      (clean_ascii (by decide))).append
      (solid_decimal _).clean).append (clean_ascii (by decide))).append
      (solid_hexText _).clean).append
      (clean_ascii (by decide))
  have hcomment : isCommandLine (errorLine v) = false := isCommandLine_comment _
  refine ⟨?_, ?_, ?_⟩
  · exact List.forall_mem_singleton.mpr htext.isLine
  · simp [eventLines, hcomment]
  · simp [eventLines, lineAction_eq_none hcomment, SaveEvent.meant]

/-- The events of an ordinary backup are read back as they were meant. -/
theorem OrdinaryBackup.readable {m : Machine} {o : SaveOptions} (h : OrdinaryBackup m o)
    (hsolid : PrefixesSolid m o) :
    ∀ e ∈ (save m o).trace, e.Readable := by
  intro e he
  cases e with
  | disk dnum p size =>
    obtain ⟨hnum, hs⟩ := h.disk hsolid ⟨dnum, p, size⟩ (mem_disks_iff.mpr he)
    exact readable_disk hnum hs
  | saveRaw start stop fmajor dnum => exact ⟨by simp [eventLines], by simp [eventLines], rfl⟩
  | partcopy v =>
    have hv := mem_volumes_iff_partcopy.mpr he
    have hfrom := (volumes_fromEntry m o v hv).2
    cases hd : v.isdm with
    | false =>
      obtain ⟨d, hdmem, hnum⟩ := h.partitions v hv hd
      obtain ⟨hrange, hs⟩ := h.disk hsolid d hdmem
      rw [← hnum] at hrange hs
      exact readable_partcopy (solid_decimal v.poff).clean (by simp [partcopyLine, hd]) hs
        (lineAction_partcopyLine_disk hfrom hd hrange hs) (by simp [SaveEvent.meant, hd])
    | true =>
      have hminor := h.minors v hv hd
      have hdev := h.devices v hv hd
      have hbig : 0xFFF ≤ v.dnum := by
        rw [hfrom.dnum hd]
        omega
      exact readable_partcopy ((clean_ascii (s := " ") (by decide)).append hdev.clean) (by simp [partcopyLine, hd])
        (solid_dnum2pre_dm hbig).1 (lineAction_partcopyLine_dm hfrom hd hminor hdev)
          (by simp [SaveEvent.meant, hd])
  | image t v => exact ⟨by simp [eventLines], by simp [eventLines], rfl⟩
  | unsupported v => exact readable_unsupported v

theorem readable_flatMap {es : List SaveEvent} (h : ∀ e ∈ es, e.Readable) :
    (∀ l ∈ es.flatMap eventLines, IsLine l ∧ (isCommandLine l = true → lineAction l ≠ none)) ∧
    (es.flatMap eventLines).filterMap lineAction = es.filterMap SaveEvent.meant := by
  constructor
  · intro l hl
    obtain ⟨e, he, hle⟩ := List.mem_flatMap.mp hl
    exact ⟨(h e he).isLine l hle, (h e he).accepted l hle⟩
  · induction es with
    | nil => rfl
    | cons e es ih =>
      have hi := ih (fun e' he' => h e' (by simp [he']))
      rw [List.flatMap_cons, List.filterMap_append, hi, (h e (by simp)).meant, List.filterMap_cons]
      cases e.meant <;> rfl

theorem title_not_command (hostname : List Byte) :
    isCommandLine (ascii "title Image " ++ hostname ++ newline) = false := by
  rw [List.append_assoc]
  exact isCommandLine_of_word
    (@scanWord_word (ascii "title") (32 :: _) (isWord_ascii (by decide) (by decide))
      (by simp [EndsWord, isSpace])) (by decide) (isWord_ascii (by decide) (by decide))

theorem desc_not_command (date : List Byte) :
    isCommandLine (ascii "desc (" ++ date ++ ascii ")" ++ newline) = false := by
  rw [List.append_assoc, List.append_assoc]
  exact isCommandLine_of_word
    (@scanWord_word (ascii "desc") (32 :: _) (isWord_ascii (by decide) (by decide))
      (by simp [EndsWord, isSpace])) (by decide) (isWord_ascii (by decide) (by decide))

theorem conftxtLines_isLine {hostname date : List Byte} (hhost : Clean hostname) (hdate : Clean date)
    {trace : List SaveEvent} (hlines : ∀ l ∈ trace.flatMap eventLines, IsLine l) :
    ∀ l ∈ conftxtLines hostname date trace, IsLine l := by
  intro l hl
  simp only [conftxtLines, List.mem_append, List.mem_cons, List.not_mem_nil, or_false] at hl
  rcases hl with (((rfl | rfl | rfl) | hl) | rfl | rfl | rfl | rfl)
  · exact ((clean_ascii (by decide)).append hhost).isLine
  · exact (((clean_ascii (by decide)).append hdate).append (clean_ascii (by decide))).isLine
  · exact ⟨ascii "# Partcopy commands...", by decide, by decide, by decide⟩
  · exact hlines l hl
  · exact ⟨ascii "# Boot on 1st disk 0", by decide, by decide, by decide⟩
  · exact ⟨ascii " root (hd0)", by decide, by decide, by decide⟩
  · exact ⟨ascii " chainloader +1", by decide, by decide, by decide⟩
  · exact ⟨[], by decide, by decide, by decide⟩

theorem conftxtLines_accepted (hostname date : List Byte) {trace : List SaveEvent}
    (hlines : ∀ l ∈ trace.flatMap eventLines, isCommandLine l = true → lineAction l ≠ none) :
    ∀ l ∈ conftxtLines hostname date trace, isCommandLine l = true → lineAction l ≠ none := by
  intro l hl hc
  simp only [conftxtLines, List.mem_append, List.mem_cons, List.not_mem_nil, or_false] at hl
  rcases hl with (((rfl | rfl | rfl) | hl) | rfl | rfl | rfl | rfl)
  · exact absurd hc (by rw [title_not_command]; decide)
  · exact absurd hc (by rw [desc_not_command]; decide)
  · exact absurd hc (by decide)
  · exact hlines l hl hc
  · exact absurd hc (by decide)
  · exact absurd hc (by decide)
  · decide
  · exact absurd hc (by decide)

theorem conftxtLines_actions (hostname date : List Byte) (trace : List SaveEvent) :
    (conftxtLines hostname date trace).filterMap lineAction =
      (trace.flatMap eventLines).filterMap lineAction ++ [.setdefault (ascii "0")] := by
  have hfirst : lineAction (ascii "# Partcopy commands...\n") = none := by decide
  have hlast : [ascii "# Boot on 1st disk 0\n", ascii " root (hd0)\n", ascii " chainloader +1\n",
      newline].filterMap lineAction = [.setdefault (ascii "0")] := by decide
  rw [conftxtLines, List.filterMap_append, List.filterMap_append, hlast,
    List.filterMap_cons_none (lineAction_eq_none (title_not_command hostname)),
    List.filterMap_cons_none (lineAction_eq_none (desc_not_command date)),
    List.filterMap_cons_none hfirst, List.filterMap_nil, List.nil_append]

/-- What may be read twice is the empty line at the end. -/
theorem conftxtLines_stale (junk hostname date : List Byte) (trace : List SaveEvent) :
    lineAction (stale junk (conftxtLines hostname date trace)) = none := by
  have hlast : (conftxtLines hostname date trace).getLast? = some newline := by
    rw [conftxtLines, List.getLast?_append]
    rfl
  rw [stale, hlast, Option.elim_some]
  decide

/-- The commands of a `conf.txt`, whatever the buffer holds before the first line is read. -/
theorem commandsOf_conftxt {m : Machine} {o : SaveOptions} (hbackup : OrdinaryBackup m o)
    (hsolid : PrefixesSolid m o) (revontblfix : Bool) (junk : List Byte) {hostname date : List Byte}
    (hhost : Clean hostname) (hdate : Clean date)
    (hlen : ∀ l ∈ conftxtLines hostname date (save m o).trace, l.length < 250) :
    commandsOf (restoreimage revontblfix junk (conftxt hostname date (save m o).trace)) =
      (save m o).trace.filterMap SaveEvent.meant ++ [.setdefault (ascii "0")] := by
  obtain ⟨hlines, hmeant⟩ := readable_flatMap (hbackup.readable hsolid)
  have hisLine := conftxtLines_isLine hhost hdate fun l hl => (hlines l hl).1
  have haccept := conftxtLines_accepted hostname date fun l hl => (hlines l hl).2
  have hactions := conftxtLines_actions hostname date (save m o).trace
  rw [hmeant] at hactions
  rw [conftxt, restoreimage_eq revontblfix junk (by rwa [textLines_flatten hisLine]),
    confLines_flatten hisLine]
  obtain ⟨vgscan, hrun⟩ := commandsOf_runLines revontblfix false haccept
    (if endsInLine (conftxtLines hostname date (save m o).trace).flatten then []
      else [stale junk (conftxtLines hostname date (save m o).trace)])
  rw [hrun, hactions]
  split
  · simp [runLines, commandsOf]
  · rw [commandsOf_runLines_singleton, conftxtLines_stale]
    simp

/-! ### Words in commands -/

theorem sscanf_word_noSpace {ds : List Directive} {s w : List Byte} (h : .word w ∈ sscanf ds s) :
    ∀ b ∈ w, isSpace b = false := by
  induction ds generalizing s with
  | nil => simp [sscanf] at h
  | cons d ds ih =>
    cases d with
    | ws =>
      rw [sscanf] at h
      exact ih h
    | lit c =>
      rw [sscanf] at h
      split_ifs at h
      · exact ih h
      · simp at h
    | num keep =>
      rw [sscanf] at h
      cases hscan : scanInt s with
      | none => simp [hscan] at h
      | some zr =>
        rw [hscan] at h
        rcases List.mem_append.mp h with h | h
        · split_ifs at h <;> simp at h
        · exact ih h
    | word keep =>
      rw [sscanf] at h
      cases hscan : scanToken s with
      | none => simp [hscan] at h
      | some wr =>
        rw [hscan] at h
        rcases List.mem_append.mp h with h | h
        · simp only [scanToken] at hscan
          split_ifs at hscan h with hnil hkeep
          · obtain rfl := Option.some.inj hscan
            obtain rfl := ScanValue.word.inj (List.mem_singleton.mp h)
            intro b hb
            simpa using List.mem_takeWhile_imp hb
          · simp at h
        · exact ih h

theorem restoreLine_raw {revontblfix vgscan : Bool} {buf : List Byte} {d1 : Nat} {fname : List Byte}
    (h : .restoreRaw d1 fname ∈ (restoreLine revontblfix vgscan buf).actions) :
    ∀ b ∈ fname, isSpace b = false := by
  have hscan : .word fname ∈ sscanf ptabsFormat buf := by
    rw [restoreLine] at h
    cases hkey : scanWord buf with
    | none =>
      rw [hkey] at h
      simp at h
    | some key =>
      rw [hkey] at h
      dsimp only at h
      by_cases hptabs : key = ascii "ptabs"
      · rw [if_pos hptabs] at h
        split at h
        · next d fname' hscan =>
          obtain ⟨-, rfl⟩ := RestoreAction.restoreRaw.inj (List.mem_singleton.mp h)
          rw [hscan]
          simp
        · simp at h
      · -- the other commands are other actions
        rw [if_neg hptabs] at h
        repeat' split at h
        all_goals simp at h
  exact sscanf_word_noSpace hscan

theorem conftxtLoop_raw {revontblfix : Bool} {fuel : Nat} {f : TextFile} {buf : List Byte}
    {vgscan : Bool} {d1 : Nat} {fname : List Byte}
    (h : .restoreRaw d1 fname ∈ conftxtLoop revontblfix fuel f buf vgscan) :
    ∀ b ∈ fname, isSpace b = false := by
  induction fuel generalizing f buf vgscan with
  | zero => simp [conftxtLoop] at h
  | succ fuel ih =>
    rw [conftxtLoop] at h
    split_ifs at h
    · simp at h
    · rcases List.mem_append.mp h with h | h
      · exact restoreLine_raw h
      · split_ifs at h
        · simp at h
        · exact ih h

/-- The restore that a `conf.txt` leads to is the one that the backup meant, exactly if no disk has a
white-space character for its prefix. -/
theorem conf_restores_backup (m : Machine) (o : SaveOptions) (revontblfix : Bool) (junk : List Byte)
    {hostname date : List Byte} (hbackup : OrdinaryBackup m o) (hhost : Clean hostname) (hdate : Clean date)
    (hlen : ∀ l ∈ conftxtLines hostname date (save m o).trace, l.length < 250) :
    commandsOf (restoreimage revontblfix junk (conftxt hostname date (save m o).trace)) =
      (save m o).trace.filterMap SaveEvent.meant ++ [.setdefault (ascii "0")] ↔ PrefixesSolid m o := by
  constructor
  · intro heq
    rw [← hbackup.prefixes_iff]
    intro d hd b hb
    have hmeant : RestoreAction.restoreRaw (d.dnum - 128).toNat (dnum2pre d.dnum ++ ascii "TABS") ∈
        (save m o).trace.filterMap SaveEvent.meant :=
      List.mem_filterMap.mpr ⟨_, mem_disks_iff.mp hd, rfl⟩
    have hdone := heq.symm ▸ List.mem_append_left _ hmeant
    exact conftxtLoop_raw (List.mem_filter.mp hdone).1 b (List.mem_append_left _ hb)
  · intro hsolid
    exact commandsOf_conftxt hbackup hsolid revontblfix junk hhost hdate hlen

/-- A disk with a file system and a volume group that has one logical volume. -/
def lvmDisk : Machine where
  partitions := ascii "major minor  #blocks  name\n\n   8        0  200000000 sda\n" ++
    ascii "   8        1   88152064 sda1\n   8        2   50000000 sda2\n"
  mapperDir := some [ascii ".", ascii "..", ascii "control", ascii "vg0-root"]
  lstat := fun path => if path = ascii "/dev/mapper/vg0-root" then some ⟨true, 253, 3⟩ else none
  openDev := fun path =>
    if path = ascii "/dev/sda" then some ⟨some 0, 400000000, none⟩
    else if path = ascii "/dev/sda1" then some ⟨some 2048, 176304128, none⟩
    else if path = ascii "/dev/sda2" then some ⟨some 200000000, 100000000, none⟩
    else if path = ascii "/dev/mapper/vg0-root" then some ⟨none, 90000000, none⟩
    else none
  sfdisk := fun _ i => if i = 2 then 0x8e else 0x83
  probe := fun t dev => if dev = ascii "/dev/sda2" then t == .lvm else t == .e2fs

theorem lvmDisk_ordinary : OrdinaryBackup lvmDisk plainSave where
  disks := by decide +kernel
  partitions := by decide +kernel
  minors := by decide +kernel
  devices := by
    unfold Solid
    decide +kernel

theorem conf_restores_lvmDisk :
    commandsOf (restoreimage false [] (conftxt (ascii "pc1") (ascii "Mon") (save lvmDisk plainSave).trace)) =
      [.restoreRaw 0 (ascii "PTABS"), .restore 0 2048 (ascii "P1"), .restore 0 200000000 (ascii "P2"),
        .restoreLvm (ascii "/dev/mapper/vg0-root") 0 (ascii "Lvm03"), .setdefault (ascii "0")] := by
  have hmeant : (save lvmDisk plainSave).trace.filterMap SaveEvent.meant ++ [.setdefault (ascii "0")] =
      [.restoreRaw 0 (ascii "PTABS"), .restore 0 2048 (ascii "P1"), .restore 0 200000000 (ascii "P2"),
        .restoreLvm (ascii "/dev/mapper/vg0-root") 0 (ascii "Lvm03"), .setdefault (ascii "0")] := by
    decide +kernel
  rw [← hmeant]
  exact (conf_restores_backup lvmDisk plainSave false [] lvmDisk_ordinary ⟨by decide, by decide⟩
    ⟨by decide, by decide⟩ (by decide +kernel)).mpr (by decide +kernel)

/-- The same disk with the number 208: its prefix is a blank, and the restore looks for another file. -/
theorem conf_blank_prefix : ∃ t, loadhdmap (ascii "208=400000000\n") = some t ∧
    commandsOf (restoreimage false [] (conftxt (ascii "pc1") (ascii "Mon")
        (save lvmDisk { plainSave with hdmap := some t }).trace)) ≠
      (save lvmDisk { plainSave with hdmap := some t }).trace.filterMap SaveEvent.meant ++
        [.setdefault (ascii "0")] :=
  ⟨_, rfl, by decide +kernel⟩

end PulseImaging
