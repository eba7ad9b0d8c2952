import PulseImaging.Scanf

/-! The interpreter of `conf.txt` in autorestore: a loop over lines that is driven by
the end-of-file flag. -/

namespace PulseImaging

inductive RestoreAction where
  /-- `restore_raw(hdmap[d1], fname)` -/
  | restoreRaw (d1 : Nat) (fname : List Byte)
  /-- `restore(hdmap[d1], sect, fname)` -/
  | restore (d1 sect : Nat) (fname : List Byte)
  /-- `restore(device, sect, fname)` of a logical volume -/
  | restoreLvm (device : List Byte) (sect : Nat) (fname : List Byte)
  /-- `setdefault(v)`, with its own default put in -/
  | setdefault (v : List Byte)
  | vgscan
  | ntblfix (d1 : Nat)
  deriving DecidableEq, Repr

/-- The actions that commands stand for. -/
def RestoreAction.isCommand : RestoreAction → Bool
  | .vgscan => false
  | .ntblfix _ => false
  | _ => true

/-- `strtok(s, " ")`: the token and what a following `strtok(NULL, " ")` searches. -/
def strtok (s : List Byte) : Option (List Byte × List Byte) :=
  let t := s.dropWhile (· == 32)
  if t = [] then none else some (t.takeWhile (· != 32), (t.dropWhile (· != 32)).drop 1)

/-- The string that `strtok(s, " ")` leaves in its buffer. -/
def strtokLeft (s : List Byte) : List Byte :=
  s.takeWhile (· == 32) ++ (s.dropWhile (· == 32)).takeWhile (· != 32)

def ptabsFormat : List Directive := scanFormat (ascii " ptabs (hd%u) (nd)PATH/%s")

def partcopyFormat : List Directive := scanFormat (ascii " partcopy (hd%u,%u) %u PATH/%s")

def lvmFormat : List Directive := scanFormat (ascii " partcopy (hd%*u,%*u) %*u PATH/%*s %s")

/-- The command of one line, if it is one that the interpreter accepts. -/
def lineAction (buf : List Byte) : Option RestoreAction :=
  match scanWord buf with
  | none => none
  | some key =>
    if key = ascii "ptabs" then
      match sscanf ptabsFormat buf with
      | [.num d1, .word fname] => some (.restoreRaw (storeUnsigned d1) fname)
      | _ => none
    else if key = ascii "partcopy" then
      match sscanf partcopyFormat buf with
      | [.num d1, .num d2, .num sect, .word fname] =>
        if 3968 ≤ storeUnsigned d1 ∧ storeUnsigned d2 = 2 ^ 32 - 1 then
          match sscanf lvmFormat buf with
          | [.word lvm] => some (.restoreLvm (ascii "/dev/" ++ lvm) (storeUnsigned sect) fname)
          | _ => none
        else some (.restore (storeUnsigned d1) (storeUnsigned sect) fname)
      | _ => none
    else if key = ascii "setdefault" then
      some (.setdefault (((strtok buf).bind (fun p => strtok p.2)).elim (ascii "0") Prod.fst))
    else if key = ascii "chainloader" then some (.setdefault (ascii "0"))
    else none

/-- The lines that begin with one of the four keywords. -/
def isCommandLine (buf : List Byte) : Bool :=
  [ascii "ptabs", ascii "partcopy", ascii "setdefault", ascii "chainloader"].any
    (fun key => scanWord buf == some key)

/-- What one turn of the loop does with the line in its buffer. -/
structure LineRun where
  actions : List RestoreAction
  vgscan : Bool
  buf : List Byte
  /-- the program stops because of a syntax error -/
  exited : Bool
  deriving DecidableEq, Repr

def restoreLine (revontblfix vgscan : Bool) (buf : List Byte) : LineRun :=
  match scanWord buf with
  | none => ⟨[], vgscan, buf, false⟩
  | some key =>
    if key = ascii "ptabs" then
      match sscanf ptabsFormat buf with
      | [.num d1, .word fname] => ⟨[.restoreRaw (storeUnsigned d1) fname], vgscan, buf, false⟩
      | _ => ⟨[], vgscan, buf, false⟩
    else if key = ascii "partcopy" then
      match sscanf partcopyFormat buf with
      | [.num d1, .num d2, .num sect, .word fname] =>
        if 3968 ≤ storeUnsigned d1 ∧ storeUnsigned d2 = 2 ^ 32 - 1 then
          match sscanf lvmFormat buf with
          | [.word lvm] =>
            ⟨(if vgscan then [] else [.vgscan]) ++
              [.restoreLvm (ascii "/dev/" ++ lvm) (storeUnsigned sect) fname], true, buf, false⟩
          | _ => ⟨[], vgscan, buf, true⟩
        else
          ⟨[.restore (storeUnsigned d1) (storeUnsigned sect) fname] ++
            (if storeUnsigned sect = 63 ∧ revontblfix = true then [.ntblfix (storeUnsigned d1)] else []),
            vgscan, buf, false⟩
      | _ => ⟨[], vgscan, buf, false⟩
    else if key = ascii "setdefault" then
      ⟨[.setdefault (((strtok buf).bind (fun p => strtok p.2)).elim (ascii "0") Prod.fst)], vgscan,
        strtokLeft buf, false⟩
    else if key = ascii "chainloader" then ⟨[.setdefault (ascii "0")], vgscan, buf, false⟩
    else ⟨[], vgscan, buf, false⟩

/-- The loop of `restoreimage`; a failed `fgets` leaves the old line in the buffer. -/
def conftxtLoop (revontblfix : Bool) : Nat → TextFile → List Byte → Bool → List RestoreAction
  | 0, _, _, _ => []
  | fuel + 1, f, buf, vgscan =>
    if f.eof then []
    else
      let g := f.fgets 250
      let r := restoreLine revontblfix vgscan ((g.1.map cstr).getD buf)
      r.actions ++ if r.exited then [] else conftxtLoop revontblfix fuel g.2 r.buf r.vgscan

/-- The actions for a `conf.txt`; `junk` is the buffer before the first read. -/
def restoreimage (revontblfix : Bool) (junk conftxt : List Byte) : List RestoreAction :=
  conftxtLoop revontblfix (conftxt.length + 2) (openText conftxt) junk false

/-- The commands among the actions. -/
def commandsOf (actions : List RestoreAction) : List RestoreAction := actions.filter RestoreAction.isCommand

/-! ### One line -/

/-- The buffer after a turn; `strtok` cuts a `setdefault` line. -/
def bufferAfter (buf : List Byte) : List Byte :=
  if scanWord buf = some (ascii "setdefault") then strtokLeft buf else buf

theorem lineAction_isCommandLine {buf : List Byte} (h : lineAction buf ≠ none) :
    isCommandLine buf = true := by
  simp only [lineAction] at h
  cases hk : scanWord buf with
  | none => simp [hk] at h
  | some key =>
    simp only [hk] at h
    simp only [isCommandLine, hk, List.any_cons, List.any_nil, Bool.or_false, Bool.or_eq_true,
      beq_iff_eq, Option.some.injEq]
    split at h
    · exact .inl ‹_›
    · split at h
      · exact .inr (.inl ‹_›)
      · split at h
        · exact .inr (.inr (.inl ‹_›))
        · split at h
          · exact .inr (.inr (.inr ‹_›))
          · simp at h

/-- A turn runs the command of its line and no other; only a command line that is not
accepted can stop the program. -/
theorem restoreLine_effect (revontblfix vgscan : Bool) (buf : List Byte) :
    commandsOf (restoreLine revontblfix vgscan buf).actions = (lineAction buf).toList ∧
    (restoreLine revontblfix vgscan buf).buf = bufferAfter buf ∧
    ((restoreLine revontblfix vgscan buf).exited = true → isCommandLine buf = true ∧
      lineAction buf = none) := by
  simp only [restoreLine, lineAction, bufferAfter]
  cases hk : scanWord buf with
  | none => exact ⟨rfl, by simp, by simp⟩
  | some key =>
    simp only [Option.some.injEq]
    by_cases h1 : key = ascii "ptabs"
    · have h3 : key ≠ ascii "setdefault" := by rw [h1]; decide
      simp only [h1, if_true]
      rw [← h1, if_neg h3]
      split <;> exact ⟨rfl, rfl, by simp⟩
    · simp only [h1, if_false]
      by_cases h2 : key = ascii "partcopy"
      · have h3 : key ≠ ascii "setdefault" := by rw [h2]; decide
        simp only [h2, if_true]
        rw [← h2, if_neg h3]
        split
        · split
          · split
            · refine ⟨?_, rfl, by simp⟩
              cases vgscan <;> rfl
            · refine ⟨rfl, rfl, fun _ => ⟨?_, rfl⟩⟩
              simp [isCommandLine, hk, h2]
          · refine ⟨?_, rfl, by simp⟩
            simp only [commandsOf, List.filter_append]
            split <;> rfl
        · exact ⟨rfl, rfl, by simp⟩
      · simp only [h2, if_false]
        by_cases h3 : key = ascii "setdefault"
        · simp only [h3, if_true]
          exact ⟨rfl, by trivial, by simp⟩
        · simp only [h3, if_false]
          by_cases h4 : key = ascii "chainloader"
          · simp only [h4, if_true]
            exact ⟨rfl, by trivial, by simp⟩
          · simp only [h4, if_false]
            exact ⟨rfl, by trivial, by simp⟩

/-! ### The loop -/

/-- The turns for a list of buffers. -/
def runLines (revontblfix : Bool) : Bool → List (List Byte) → List RestoreAction
  | _, [] => []
  | vgscan, buf :: bufs =>
    let r := restoreLine revontblfix vgscan buf
    r.actions ++ if r.exited then [] else runLines revontblfix r.vgscan bufs

/-- The buffer that is interpreted once more when the last read does not raise the flag. -/
def stale (junk : List Byte) (bufs : List (List Byte)) : List Byte := bufs.getLast?.elim junk bufferAfter

theorem conftxtLoop_eq (revontblfix : Bool) {fuel : Nat} {f : TextFile} (buf : List Byte)
    (vgscan : Bool) (hf : f.Sound) (hfuel : f.rest.length + 2 ≤ fuel) :
    conftxtLoop revontblfix fuel f buf vgscan =
      runLines revontblfix vgscan ((readAll 250 f.rest.length f).1.map cstr ++
        if (readAll 250 f.rest.length f).2 then []
          else [stale buf ((readAll 250 f.rest.length f).1.map cstr)]) := by
  induction fuel generalizing f buf vgscan with
  | zero => omega
  | succ fuel ih =>
    by_cases he : f.eof = true
    · simp [conftxtLoop, he, hf he, readAll, runLines]
    · cases hg : f.fgets 250 with
      | mk l f' =>
        cases l with
        | none =>
          have hr : f.rest = [] := fgets_none_iff.mp (by rw [hg])
          have hf' : f'.eof = true := by
            rw [TextFile.fgets, if_pos hr, Prod.mk.injEq] at hg
            rw [← hg.2]
          obtain ⟨n, rfl⟩ := Nat.exists_eq_add_of_le (by omega : 1 ≤ fuel)
          have hstop : ∀ b v, conftxtLoop revontblfix (1 + n) f' b v = [] := by
            intro b v
            rw [Nat.add_comm, conftxtLoop, if_pos hf']
          have hread : readAll 250 f.rest.length f = ([], false) := by
            rw [hr]
            simp [readAll, he]
          rw [conftxtLoop, if_neg he, hread]
          simp [hg, stale, runLines, hstop]
        | some l =>
          have hlt := fgets_rest_lt (by norm_num) hg
          have hall := readAll_cons (by norm_num) hg
          have hi := ih (restoreLine revontblfix vgscan (cstr l)).buf
            (restoreLine revontblfix vgscan (cstr l)).vgscan (fgets_sound hf hg) (by omega)
          have hstale : stale buf (cstr l :: (readAll 250 f'.rest.length f').1.map cstr) =
              stale (restoreLine revontblfix vgscan (cstr l)).buf
              ((readAll 250 f'.rest.length f').1.map cstr) := by
            rw [(restoreLine_effect revontblfix vgscan (cstr l)).2.1, stale,
              List.getLast?_cons, stale]
            cases ((readAll 250 f'.rest.length f').1.map cstr).getLast? <;> rfl
          rw [conftxtLoop, if_neg he, hall]
          simp only [hg, Option.map_some, Option.getD_some, List.map_cons, List.cons_append,
            runLines, hstale, ← hi]

theorem commandsOf_append (a b : List RestoreAction) :
    commandsOf (a ++ b) = commandsOf a ++ commandsOf b :=
  List.filter_append ..

/-- Without a refused command line the commands are those of the lines. -/
theorem commandsOf_runLines (revontblfix vgscan : Bool) {bufs : List (List Byte)}
    (h : ∀ b ∈ bufs, isCommandLine b = true → lineAction b ≠ none) (rest : List (List Byte)) :
    ∃ v, commandsOf (runLines revontblfix vgscan (bufs ++ rest)) =
      bufs.filterMap lineAction ++ commandsOf (runLines revontblfix v rest) := by
  induction bufs generalizing vgscan with
  | nil => exact ⟨vgscan, rfl⟩
  | cons b bufs ih =>
    obtain ⟨hact, -, hexit⟩ := restoreLine_effect revontblfix vgscan b
    have hgo : (restoreLine revontblfix vgscan b).exited = false := by
      by_contra hx
      obtain ⟨hc, hn⟩ := hexit (by simpa using hx)
      exact h b (by simp) hc hn
    obtain ⟨v, hv⟩ := ih (restoreLine revontblfix vgscan b).vgscan
      (fun b' hb' => h b' (by simp [hb']))
    refine ⟨v, ?_⟩
    simp only [List.cons_append, runLines, hgo, Bool.false_eq_true, if_false]
    rw [commandsOf_append, hact, hv, ← List.append_assoc]
    congr 1
    rw [List.filterMap_cons]
    cases lineAction b <;> rfl

theorem commandsOf_runLines_singleton (revontblfix vgscan : Bool) (b : List Byte) :
    commandsOf (runLines revontblfix vgscan [b]) = (lineAction b).toList := by
  rw [← (restoreLine_effect revontblfix vgscan b).1]
  simp [runLines]

/-! ### A whole conf.txt -/

/-- The lines of a `conf.txt` as the interpreter sees them. -/
def confLines (conftxt : List Byte) : List (List Byte) := (textLines conftxt).map cstr

/-- The last line has no newline and ends before the buffer is full, so that reading
it raises the end-of-file flag. -/
def endsInLine (conftxt : List Byte) : Bool :=
  (textLines conftxt).getLast?.elim false (fun l => l.getLast? != some 10 && decide (l.length < 249))

theorem restoreimage_eq (revontblfix : Bool) (junk : List Byte) {conftxt : List Byte}
    (h : ∀ l ∈ textLines conftxt, l.length < 250) :
    restoreimage revontblfix junk conftxt = runLines revontblfix false
      (confLines conftxt ++ if endsInLine conftxt then [] else [stale junk (confLines conftxt)]) := by
  obtain ⟨h1, h2⟩ := readAll_textLines (by norm_num) (f := openText conftxt) rfl h
  have hloop := conftxtLoop_eq revontblfix junk false (openText_sound conftxt) le_rfl
  rw [h1, h2] at hloop
  exact hloop

/-- Each command line is executed once, in the order of the lines. -/
def OneActionPerLine (revontblfix : Bool) (junk conftxt : List Byte) : Prop :=
  (commandsOf (restoreimage revontblfix junk conftxt)).map some =
    ((confLines conftxt).filter isCommandLine).map lineAction

theorem filter_map_lineAction {bufs : List (List Byte)}
    (h : ∀ b ∈ bufs, isCommandLine b = true → lineAction b ≠ none) :
    (bufs.filter isCommandLine).map lineAction = (bufs.filterMap lineAction).map some := by
  induction bufs with
  | nil => rfl
  | cons b bufs ih =>
    have hi := ih (fun b' hb' => h b' (by simp [hb']))
    cases ha : lineAction b with
    | none =>
      have hc : isCommandLine b = false := by
        by_contra hc
        exact h b (by simp) (by simpa using hc) ha
      rw [List.filter_cons_of_neg (by simp [hc]), List.filterMap_cons_none ha, hi]
    | some a =>
      have hc : isCommandLine b = true := lineAction_isCommandLine (by simp [ha])
      rw [List.filter_cons_of_pos hc, List.filterMap_cons_some ha, List.map_cons,
        List.map_cons, hi, ha]

/-- Exactly one action for each command line: all command lines must be accepted, and
nothing may be left in the buffer for a second reading of the last line. -/
theorem one_action_per_line_iff (revontblfix : Bool) (junk : List Byte) {conftxt : List Byte}
    (h : ∀ l ∈ textLines conftxt, l.length < 250) :
    OneActionPerLine revontblfix junk conftxt ↔
      (∀ l ∈ confLines conftxt, isCommandLine l = true → lineAction l ≠ none) ∧
      (endsInLine conftxt = false → lineAction (stale junk (confLines conftxt)) = none) := by
  have hrun : (∀ l ∈ confLines conftxt, isCommandLine l = true → lineAction l ≠ none) →
      (OneActionPerLine revontblfix junk conftxt ↔
        (endsInLine conftxt = false → lineAction (stale junk (confLines conftxt)) = none)) := by
    intro hall
    rw [OneActionPerLine, restoreimage_eq revontblfix junk h, filter_map_lineAction hall,
      (List.map_injective_iff.mpr (Option.some_injective _)).eq_iff]
    cases he : endsInLine conftxt with
    | true =>
      obtain ⟨v, hv⟩ := commandsOf_runLines revontblfix false hall []
      simpa [runLines, commandsOf] using hv
    | false =>
      obtain ⟨v, hv⟩ := commandsOf_runLines revontblfix false hall [stale junk (confLines conftxt)]
      rw [commandsOf_runLines_singleton] at hv
      simp only [Bool.false_eq_true, if_false, hv, forall_const]
      cases lineAction (stale junk (confLines conftxt)) <;> simp
  constructor
  · intro hone
    have hall : ∀ l ∈ confLines conftxt, isCommandLine l = true → lineAction l ≠ none := by
      intro l hl hc hn
      have hmem : (none : Option RestoreAction) ∈
          ((confLines conftxt).filter isCommandLine).map lineAction :=
        List.mem_map.mpr ⟨l, List.mem_filter.mpr ⟨hl, hc⟩, hn⟩
      rw [← hone] at hmem
      simp at hmem
    exact ⟨hall, (hrun hall).mp hone⟩
  · rintro ⟨hall, hstale⟩
    exact (hrun hall).mpr hstale

def ptabsText : List Byte := ascii "title Image\nptabs (hd0) (nd)PATH/PTABS"

theorem one_action_ptabs : OneActionPerLine false [] ptabsText :=
  (one_action_per_line_iff false [] (by decide +kernel)).mpr ⟨by decide +kernel, by decide +kernel⟩

/-- With a newline after the last command the partition table is written twice. -/
theorem last_command_twice : ¬ OneActionPerLine false [] (ptabsText ++ ascii "\n") := by
  unfold OneActionPerLine
  decide +kernel

end PulseImaging
