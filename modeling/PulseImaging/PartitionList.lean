import PulseImaging.TextFile

/-! The list of block devices that the backup walks through: the lines of
`/proc/partitions`, then the nodes under `/dev/mapper`. -/

namespace PulseImaging

/-- The file after its remaining lines have been read: the lines that `fgets`
returns and the end-of-file flag that the last of them leaves. -/
def readAll (size : Nat) : Nat → TextFile → List (List Byte) × Bool
  | 0, f => ([], f.eof)
  | fuel + 1, f =>
    match f.fgets size with
    | (none, _) => ([], f.eof)
    | (some line, f') => (line :: (readAll size fuel f').1, (readAll size fuel f').2)

def openText (content : List Byte) : TextFile := ⟨content, false⟩

/-- The flag is only raised with nothing left to read. -/
def TextFile.Sound (f : TextFile) : Prop := f.eof = true → f.rest = []

theorem openText_sound (content : List Byte) : (openText content).Sound := by
  simp [TextFile.Sound, openText]

theorem readLine_rest_eq_nil {n : Nat} {s : List Byte} (hlen : (readLine n s).1.length < n)
    (hlast : (readLine n s).1.getLast? ≠ some 10) : (readLine n s).2 = [] := by
  induction s generalizing n with
  | nil => cases n <;> rfl
  | cons c s ih =>
    cases n with
    | zero => simp at hlen
    | succ n =>
      by_cases hc : c = 10
      · simp [readLine, hc] at hlast
      · simp only [readLine, hc, if_false, List.length_cons] at hlen hlast ⊢
        apply ih (by omega)
        intro h
        apply hlast
        rw [List.getLast?_cons, h]
        rfl

theorem fgets_none_iff {f : TextFile} {size : Nat} : (f.fgets size).1 = none ↔ f.rest = [] := by
  by_cases h : f.rest = [] <;> simp [TextFile.fgets, h]

theorem fgets_sound {f f' : TextFile} {size : Nat} {line : List Byte} (hf : f.Sound)
    (h : f.fgets size = (some line, f')) : f'.Sound := by
  by_cases hr : f.rest = []
  · simp [TextFile.fgets, hr] at h
  · simp only [TextFile.fgets, hr, if_false, Prod.mk.injEq, Option.some.injEq] at h
    obtain ⟨-, rfl⟩ := h
    intro he
    simp only [Bool.or_eq_true, Bool.and_eq_true, decide_eq_true_eq, bne_iff_ne] at he
    rcases he with he | ⟨hlen, hlast⟩
    · exact absurd (hf he) hr
    · exact readLine_rest_eq_nil hlen hlast

theorem fgets_rest_lt {f f' : TextFile} {size : Nat} {line : List Byte} (hs : 2 ≤ size)
    (h : f.fgets size = (some line, f')) : f'.rest.length < f.rest.length := by
  obtain ⟨n, rfl⟩ := Nat.exists_eq_add_of_le hs
  cases hr : f.rest with
  | nil => simp [TextFile.fgets, hr] at h
  | cons c s =>
    simp only [TextFile.fgets, hr, reduceCtorEq, if_false, Prod.mk.injEq, Option.some.injEq] at h
    obtain ⟨-, rfl⟩ := h
    have happ := congrArg List.length (readLine_append (1 + n) (c :: s))
    have hne : (readLine (1 + n) (c :: s)).1 ≠ [] := by
      rw [Nat.add_comm]
      by_cases hc : c = 10 <;> simp [readLine, hc]
    have hpos := List.length_pos_of_ne_nil hne
    rw [List.length_append] at happ
    rw [show 2 + n - 1 = 1 + n by omega]
    show (readLine (1 + n) (c :: s)).2.length < (c :: s).length
    omega

theorem readAll_fuel {size n k : Nat} {f : TextFile} (hs : 2 ≤ size) (hn : f.rest.length ≤ n)
    (hk : f.rest.length ≤ k) : readAll size n f = readAll size k f := by
  induction n generalizing k f with
  | zero =>
    have hr : f.rest = [] := List.length_eq_zero_iff.mp (by omega)
    cases k <;> simp [readAll, TextFile.fgets, hr]
  | succ n ih =>
    cases k with
    | zero =>
      have hr : f.rest = [] := List.length_eq_zero_iff.mp (by omega)
      simp [readAll, TextFile.fgets, hr]
    | succ k =>
      simp only [readAll]
      split
      · rfl
      · rename_i line f' h
        have hlt := fgets_rest_lt hs h
        rw [ih (by omega) (by omega : f'.rest.length ≤ k)]

theorem readAll_cons {size : Nat} {f f' : TextFile} {line : List Byte} (hs : 2 ≤ size)
    (h : f.fgets size = (some line, f')) :
    readAll size f.rest.length f =
      (line :: (readAll size f'.rest.length f').1, (readAll size f'.rest.length f').2) := by
  have hlt := fgets_rest_lt hs h
  rw [readAll_fuel hs le_rfl (Nat.le_succ f.rest.length)]
  simp only [readAll, h]
  rw [readAll_fuel hs (by omega : f'.rest.length ≤ f.rest.length) le_rfl]

/-- The lines of a text, each with its newline. -/
def textLines : List Byte → List (List Byte)
  | [] => []
  | c :: s =>
    if c = 10 then [c] :: textLines s
    else
      match textLines s with
      | [] => [[c]]
      | l :: ls => (c :: l) :: ls

theorem textLines_readLine {n : Nat} {s : List Byte} (hs : s ≠ [])
    (h : ∀ l ∈ (textLines s).head?, l.length ≤ n) :
    textLines s = (readLine n s).1 :: textLines (readLine n s).2 := by
  induction s generalizing n with
  | nil => exact absurd rfl hs
  | cons c s ih =>
    cases n with
    | zero =>
      exfalso
      simp only [textLines] at h
      split at h
      · simp at h
      · split at h <;> simp at h
    | succ n =>
      by_cases hc : c = 10
      · simp [textLines, readLine, hc]
      · simp only [textLines, hc, if_false, readLine] at h ⊢
        cases s with
        | nil => cases n <;> simp [textLines, readLine]
        | cons d s =>
          cases ht : textLines (d :: s) with
          | nil =>
            simp only [textLines] at ht
            split at ht
            · simp at ht
            · split at ht <;> simp at ht
          | cons l ls =>
            have hi := ih (n := n) (by simp) (by
              rw [ht] at h ⊢
              simpa using h)
            rw [ht, List.cons.injEq] at hi
            simp only [hi.1, hi.2]

/-- With lines that fit its buffer `fgets` reads the lines of the text; the last read
raises the flag if the line has no newline and leaves room. -/
theorem readAll_textLines {size : Nat} (hs : 2 ≤ size) {f : TextFile} (hf : f.eof = false)
    (h : ∀ l ∈ textLines f.rest, l.length < size) :
    (readAll size f.rest.length f).1 = textLines f.rest ∧
      (readAll size f.rest.length f).2 =
        (textLines f.rest).getLast?.elim false (fun l => l.getLast? != some 10 && decide
          (l.length < size - 1)) := by
  generalize hn : f.rest.length = n
  induction n using Nat.strongRecOn generalizing f with
  | ind n ih =>
    by_cases hr : f.rest = []
    · simp [← hn, hr, readAll, textLines, hf]
    · cases hg : f.fgets size with
      | mk l f' =>
        cases l with
        | none => exact absurd (fgets_none_iff.mp (by rw [hg])) hr
        | some line =>
          have hlt := fgets_rest_lt hs hg
          have hall := readAll_cons hs hg
          simp only [TextFile.fgets, hr, if_false, Prod.mk.injEq, Option.some.injEq, hf,
            Bool.false_or] at hg
          obtain ⟨hline, hf'⟩ := hg
          have hhead : ∀ l ∈ (textLines f.rest).head?, l.length ≤ size - 1 := fun l hl => by
            have := h l (List.mem_of_mem_head? hl)
            omega
          have hsplit := textLines_readLine hr hhead
          rw [hline] at hsplit hf'
          have hrest : f'.rest = (readLine (size - 1) f.rest).2 := by rw [← hf']
          rw [← hrest] at hsplit hf'
          rw [← hn, hall]
          by_cases hr' : f'.rest = []
          · have hread : readAll size f'.rest.length f' = ([], f'.eof) := by
              rw [hr']
              rfl
            have hnil : textLines f'.rest = [] := by rw [hr']; rfl
            rw [hread, hsplit, hnil]
            refine ⟨rfl, ?_⟩
            rw [← hf']
            simp [Bool.and_comm]
          · have hopen : f'.eof = false := by
              rw [← hf']
              by_contra he
              simp only [Bool.not_eq_false, Bool.and_eq_true, decide_eq_true_eq, bne_iff_ne,
                ← hline] at he
              exact hr' (hrest.trans (readLine_rest_eq_nil he.1 he.2))
            have hi := ih f'.rest.length (by omega) hopen
              (fun l hl => h l (by rw [hsplit]; exact List.mem_cons_of_mem _ hl)) rfl
            rw [hi.1, hi.2, hsplit, List.getLast?_cons]
            refine ⟨rfl, ?_⟩
            have hne : textLines f'.rest ≠ [] := fun hnil => by
              rw [textLines_readLine hr' (n := f'.rest.length + size) (fun l hl => by
                have := h l (by rw [hsplit]; exact List.mem_cons_of_mem _ (List.mem_of_mem_head? hl))
                omega)] at hnil
              simp at hnil
            obtain ⟨x, hx⟩ := Option.isSome_iff_exists.mp (List.getLast?_isSome.mpr hne)
            simp [hx]

/-! ### One line -/

/-- The four fields of a line, before they are stored in variables. -/
structure ProcLine where
  major : Int
  minor : Int
  blocks : Int
  name : List Byte
  deriving DecidableEq, Repr

/-- The `%s` conversion. -/
def scanWord (s : List Byte) : Option (List Byte) :=
  let w := (s.dropWhile isSpace).takeWhile (fun b => !isSpace b)
  if w = [] then none else some w

/-- The conversions `%d %d %d %s` (or `%u`, which accepts the same texts). -/
def scanLine (line : List Byte) : Option ProcLine := do
  let (major, s) ← scanInt (cstr line)
  let (minor, s) ← scanInt s
  let (blocks, s) ← scanInt s
  let name ← scanWord s
  return ⟨major, minor, blocks, name⟩

/-- What `%d` stores in an `int`. -/
def storeInt (z : Int) : Int := max (-2 ^ 31) (min z (2 ^ 31 - 1))

/-- What `%u` stores in an `unsigned int`. -/
def storeUnsigned (z : Int) : Nat := if z.natAbs < 2 ^ 32 then (z % 2 ^ 32).toNat else 2 ^ 32 - 1

/-- `struct part` -/
structure PartInfo where
  device : List Byte
  major : Int
  minor : Int
  deriving DecidableEq, Repr

def ProcLine.info (q : ProcLine) : PartInfo := ⟨q.name, storeInt q.major, storeInt q.minor⟩

/-- Device mapper entries of `/proc/partitions`, which the backup ignores. -/
def isDmName (name : List Byte) : Bool := (ascii "dm-").isPrefixOf name

def isMapperName (name : List Byte) : Bool := (ascii "mapper/").isPrefixOf name

/-! ### The whole list -/

/-- The answer of `lstat`. -/
structure Node where
  isBlk : Bool
  major : Nat
  minor : Nat
  deriving DecidableEq, Repr

/-- The two sources of `get_nextpart`. -/
structure PartSource where
  partitions : List Byte
  /-- the names that `readdir` returns, if `/dev/mapper/` can be opened -/
  mapperDir : Option (List (List Byte))
  lstat : List Byte → Option Node

/-- The static variables of `get_nextpart`. -/
structure PartIter where
  file : TextFile
  try2 : Bool
  dir : List (List Byte)
  deriving DecidableEq, Repr

def PartSource.start (src : PartSource) : PartIter := ⟨openText src.partitions, false, src.mapperDir.getD []⟩

/-- The loop over the lines of `/proc/partitions`. -/
def nextLine : Nat → TextFile → Option (PartInfo × TextFile)
  | 0, _ => none
  | fuel + 1, f =>
    if f.eof then none
    else
      match f.fgets 255 with
      | (none, _) => none
      | (some line, f') =>
        match scanLine line with
        | none => nextLine fuel f'
        | some q => if isDmName q.name then nextLine fuel f' else some (q.info, f')

def mapperEntry (src : PartSource) (name : List Byte) : Option PartInfo :=
  if name = ascii "." ∨ name = ascii ".." ∨ name = ascii "control" then none
  else
    match src.lstat ((ascii "/dev/mapper/" ++ name).take 254) with
    | none => none
    | some node =>
      if node.isBlk then some ⟨(ascii "mapper/" ++ name).take 254, node.major, node.minor⟩ else none

/-- The loop over the names in `/dev/mapper/`. -/
def nextMapper (src : PartSource) : List (List Byte) → Option (PartInfo × List (List Byte))
  | [] => none
  | name :: dir =>
    match mapperEntry src name with
    | none => nextMapper src dir
    | some p => some (p, dir)

def getNextpart (src : PartSource) (it : PartIter) : Option (PartInfo × PartIter) :=
  match (if it.try2 then none else nextLine (it.file.rest.length + 1) it.file) with
  | some (p, f) => some (p, { it with file := f })
  | none =>
    match nextMapper src it.dir with
    | some (p, dir) => some (p, { it with try2 := true, dir := dir })
    | none => none

def procLines (content : List Byte) : List ProcLine :=
  (readAll 255 content.length (openText content)).1.filterMap scanLine

/-- The entries of a partly read `/proc/partitions`. -/
def fileEntries (f : TextFile) : List PartInfo :=
  (((readAll 255 f.rest.length f).1.filterMap scanLine).filter (fun q => !isDmName q.name)).map ProcLine.info

/-- The entries that the successive calls of `get_nextpart` return. -/
def PartIter.entries (src : PartSource) (it : PartIter) : List PartInfo :=
  (if it.try2 then [] else fileEntries it.file) ++ it.dir.filterMap (mapperEntry src)

theorem fileEntries_of_line {f f' : TextFile} {line : List Byte}
    (h : f.fgets 255 = (some line, f')) :
    fileEntries f =
      (((scanLine line).toList.filter (fun q => !isDmName q.name)).map ProcLine.info) ++
        fileEntries f' := by
  simp only [fileEntries, readAll_cons (by norm_num) h, List.filterMap_cons]
  cases scanLine line with
  | none => rfl
  | some q =>
    rw [← List.map_append, ← List.filter_append]
    rfl

theorem fileEntries_of_rest_nil {f : TextFile} (h : f.rest = []) : fileEntries f = [] := by
  simp [fileEntries, h, readAll]

theorem nextLine_entries {fuel : Nat} {f : TextFile} (hf : f.Sound) (hfuel : f.rest.length < fuel) :
    match nextLine fuel f with
    | none => fileEntries f = []
    | some (p, f') => fileEntries f = p :: fileEntries f' ∧ f'.Sound ∧
      f'.rest.length < f.rest.length := by
  induction fuel generalizing f with
  | zero => omega
  | succ fuel ih =>
    by_cases he : f.eof = true
    · simp [nextLine, he, fileEntries_of_rest_nil (hf he)]
    · cases hg : f.fgets 255 with
      | mk l f' =>
        cases l with
        | none =>
          have hr : f.rest = [] := fgets_none_iff.mp (by rw [hg])
          simp [nextLine, he, hg, fileEntries_of_rest_nil hr]
        | some line =>
          have hlt := fgets_rest_lt (by norm_num) hg
          have hs := fgets_sound hf hg
          have hi := ih hs (by omega)
          have hskip : fileEntries f = fileEntries f' →
              match nextLine fuel f' with
              | none => fileEntries f = []
              | some (p, f'') =>
                fileEntries f = p :: fileEntries f'' ∧ f''.Sound ∧
                  f''.rest.length < f.rest.length := by
            intro h
            rw [h]
            revert hi
            cases nextLine fuel f' with
            | none => exact id
            | some r => exact fun ⟨h1, h2, h3⟩ => ⟨h1, h2, by omega⟩
          have hline := fileEntries_of_line hg
          simp only [nextLine, he, hg]
          cases hq : scanLine line with
          | none => exact hskip (by simpa [hq] using hline)
          | some q =>
            cases hd : isDmName q.name with
            | true => simpa [hd] using hskip (by simpa [hq, hd] using hline)
            | false =>
              simp only [Bool.false_eq_true, if_false, hd]
              exact ⟨by simpa [hq, hd] using hline, hs, hlt⟩

theorem nextMapper_entries (src : PartSource) (dir : List (List Byte)) :
    match nextMapper src dir with
    | none => dir.filterMap (mapperEntry src) = []
    | some (p, dir') =>
      dir.filterMap (mapperEntry src) = p :: dir'.filterMap (mapperEntry src) ∧
        dir'.length < dir.length := by
  induction dir with
  | nil => rfl
  | cons name dir ih =>
    simp only [nextMapper]
    cases h : mapperEntry src name with
    | none =>
      simp only [List.filterMap_cons, h]
      revert ih
      cases nextMapper src dir with
      | none => exact id
      | some r => exact fun ⟨h1, h2⟩ => ⟨h1, by simp only [List.length_cons]; omega⟩
    | some p => exact ⟨by simp [h], by simp⟩

/-- What is left of the two sources, which every call reduces. -/
def PartIter.left (it : PartIter) : Nat := it.file.rest.length + it.dir.length

theorem getNextpart_entries (src : PartSource) {it : PartIter} (hit : it.file.Sound) :
    match getNextpart src it with
    | none => it.entries src = []
    | some (p, it') => it.entries src = p :: it'.entries src ∧ it'.file.Sound ∧
      it'.left < it.left := by
  obtain ⟨f, try2, dir⟩ := it
  have hmap := nextMapper_entries src dir
  cases try2 with
  | true =>
    simp only [getNextpart, if_true]
    revert hmap
    cases nextMapper src dir with
    | none => exact fun h => by simpa [PartIter.entries] using h
    | some r => exact fun ⟨h1, h2⟩ => ⟨by simpa [PartIter.entries] using h1, hit,
        by simpa [PartIter.left] using h2⟩
  | false =>
    have hline := nextLine_entries hit (Nat.lt_succ_self f.rest.length)
    simp only [getNextpart, Bool.false_eq_true, if_false]
    revert hline
    cases nextLine (f.rest.length + 1) f with
    | some r =>
      exact fun ⟨h1, h2, h3⟩ => ⟨by simp [PartIter.entries, h1], h2,
        by simpa [PartIter.left] using h3⟩
    | none =>
      intro hnil
      simp only at hnil
      revert hmap
      cases nextMapper src dir with
      | none => exact fun h => by simpa [PartIter.entries, hnil] using h
      | some r =>
        exact fun ⟨h1, h2⟩ => ⟨by simpa [PartIter.entries, hnil] using h1, hit,
          by simpa [PartIter.left] using h2⟩

end PulseImaging
