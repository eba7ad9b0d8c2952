import PulseImaging.MenuConfig

/-! `cmain` and `run_menu` as a machine: the file is loaded, the menu is
hidden or displayed, an entry is run, and the fallback entry may follow it. -/

namespace PulseImaging

/-! ### The arrays of strings -/

def skipString (list : List Byte) : List Byte := (list.dropWhile (· != 0)).drop 1

/-- Past the next two zeros in a row: a list of strings ends with an empty one. -/
def skipCommands : List Byte → List Byte
  | [] => []
  | a :: s => if a = 0 ∧ s.head? = some 0 then s.drop 1 else skipCommands s

def getEntry (nested : Bool) (list : List Byte) : Nat → List Byte
  | 0 => list
  | num + 1 => getEntry nested (if nested then skipCommands list else skipString list) num

/-! ### The screen -/

structure Menu where
  menuEntries : List Byte
  configEntries : List Byte
  descEntries : List Byte
  numEntries : Nat
  firstEntry : Nat
  entryno : Nat
  /-- The line of the screen that holds a description. -/
  shown : List Byte
  deriving DecidableEq, Repr

def MenuConfig.menu (c : MenuConfig) : Menu :=
  ⟨c.menuEntries, c.configEntries, c.descEntries, c.numEntries, 0, c.globals.defaultEntry, []⟩

/-- The columns 10 to 68 take a description. -/
def Menu.showDesc (m : Menu) (entry : Nat) : Menu :=
  { m with shown := (cstr (getEntry false m.descEntries entry)).take 59 }

def Menu.printEntries (m : Menu) : Menu := if m.entryno < 12 then m.showDesc m.entryno else m

/-- The loop at the label `restart`. -/
def Menu.scrollIn (m : Menu) : Menu :=
  { m with firstEntry := m.firstEntry + (m.entryno - 11), entryno := min m.entryno 11 }

def Menu.up (m : Menu) : Menu :=
  if 0 < m.entryno then { m with entryno := m.entryno - 1 }.showDesc (m.entryno - 1)
  else if 0 < m.firstEntry then { m with firstEntry := m.firstEntry - 1 }.printEntries
  else m

def Menu.down (m : Menu) : Menu :=
  if m.firstEntry + m.entryno + 1 < m.numEntries then
    if m.entryno < 11 then { m with entryno := m.entryno + 1 }.showDesc (m.entryno + 1)
    else if 12 + m.firstEntry < m.numEntries then
      { m with firstEntry := m.firstEntry + 1 }.printEntries.showDesc m.entryno
    else m
  else m

/-! ### The machine -/

/-- A key while the menu is displayed. `edit` is an entry edited in a nested menu or a visit to the
command line: either may leave the variables of the menu as it likes. -/
inductive MenuKey
  | up | down | enter | other | reload
  | edit (after : MenuGlobals)
  deriving DecidableEq, Repr

/-- At `fault` the program calls through a null pointer. -/
inductive MenuPoint
  | load | commandLine
  | restart (m : Menu) | hidden (m : Menu) | display (m : Menu) | boot (m : Menu)
  | fault
  deriving DecidableEq, Repr

structure MenuState where
  point : MenuPoint
  globals : MenuGlobals
  passed : Bool
  deriving DecidableEq, Repr

inductive MenuEvent
  /-- The file that is found, if there is one, and what happens at its prompts. -/
  | load (file : Option (List Byte)) (prompts : List Prompt)
  /-- The command line is left by escape or by a new configuration file. -/
  | leave
  | enterMenu
  /-- The keys that show a hidden menu. -/
  | chord
  | second
  | key (k : MenuKey)
  /-- `run_script` comes back. -/
  | returned (failed : Bool)
  /-- An entry names a new configuration file. -/
  | configfile
  deriving DecidableEq, Repr

def bootState : MenuState := ⟨.load, ⟨true, -1, false, 0, -1⟩, false⟩

/-- From `restart` on. The variable `terminal` is never written, so a dumb terminal does not occur. -/
def MenuState.enterMenu (s : MenuState) (m : Menu) : MenuState :=
  let showMenu := decide (s.globals.grubTimeout < 0) || s.globals.showMenu
  { s with
    point := if showMenu then .display m.scrollIn.printEntries else .hidden m.scrollIn
    globals := { s.globals with showMenu := showMenu } }

def MenuState.keyPressed (s : MenuState) (m : Menu) (k : MenuKey) : MenuState :=
  let s := if 0 ≤ s.globals.grubTimeout then
    { s with globals := { s.globals with grubTimeout := -1, fallbackEntry := -1 } } else s
  match k with
  | .up => { s with point := .display m.up }
  | .down => { s with point := .display m.down }
  | .enter => { s with point := .boot m }
  | .other => s
  | .reload => { s with point := .load }
  | .edit after => { s with point := .restart m, globals := after }

/-- A tick of the clock, in the loop of the hidden menu or of the displayed one. -/
def MenuState.secondPassed (s : MenuState) (m : Menu) : MenuState :=
  if 0 ≤ s.globals.grubTimeout then
    if s.globals.grubTimeout ≤ 0 then
      { s with point := .boot m, globals := { s.globals with grubTimeout := -1 } }
    else { s with globals := { s.globals with grubTimeout := s.globals.grubTimeout - 1 } }
  else s

/-- After an entry that did not boot: the fallback entry, or the way back to the menu. It begins with
`current_term = prev_term` and a call through `current_term->startup`; nothing is ever written to `prev_term`,
which is null. -/
def MenuState.scriptReturned (s : MenuState) (m : Menu) (failed : Bool) : MenuState :=
  if failed ∧ 0 ≤ s.globals.fallbackEntry then
    { s with
      point := .boot { m with firstEntry := 0, entryno := s.globals.fallbackEntry.toNat }
      globals := { s.globals with fallbackEntry := -1 } }
  else { s with point := .fault }

def MenuState.loaded (s : MenuState) (file : Option (List Byte)) (prompts : List Prompt) : Option MenuState :=
  match file with
  | none => some { s with point := .commandLine, globals := initConfig s.globals }
  | some file =>
    (loadConfig s.globals file prompts).map fun c =>
      ⟨if c.numEntries = 0 then .commandLine else .restart c.menu, c.globals, s.passed || c.passed⟩

def MenuState.step (s : MenuState) (e : MenuEvent) : Option MenuState :=
  match s.point, e with
  | .load, .load file prompts => s.loaded file prompts
  | .commandLine, .leave => some { s with point := .load }
  | .restart m, .enterMenu => some (s.enterMenu m)
  | .hidden m, .chord =>
    some { s with point := .display m.printEntries, globals := { s.globals with grubTimeout := -1, showMenu := true } }
  | .hidden m, .second => some (s.secondPassed m)
  | .display m, .second => some (s.secondPassed m)
  | .display m, .key k => some (s.keyPressed m k)
  | .boot m, .returned failed => some (s.scriptReturned m failed)
  | .boot _, .configfile => some { s with point := .load }
  | _, _ => none

/-- The states reached by steps that all satisfy `P`. -/
inductive MenuRun (P : MenuState → MenuEvent → Prop) : MenuState → Prop
  | start : MenuRun P bootState
  | step {s t : MenuState} {e : MenuEvent} : MenuRun P s → P s e → s.step e = some t → MenuRun P t

/-- What holds at the start and is kept by every step that satisfies `P` holds in the whole run. -/
theorem MenuRun.keeps {P : MenuState → MenuEvent → Prop} {I : MenuState → Prop} {s : MenuState}
    (h : MenuRun P s) (hstart : I bootState)
    (hstep : ∀ s e t, I s → P s e → s.step e = some t → I t) : I s := by
  induction h with
  | start => exact hstart
  | step _ hp hs ih => exact hstep _ _ _ ih hp hs

def MenuState.run (s : MenuState) : List MenuEvent → Option MenuState
  | [] => some s
  | e :: events => (s.step e).bind fun t => t.run events

end PulseImaging
