import PulseImaging.NewGet

/-! The configuration file of the boot menu: its lines, the commands it may
hold, the password prompt, and the loop of `cmain` that collects titles,
commands and descriptions in three arrays of strings. -/

namespace PulseImaging

/-! ### Lines and commands -/

def newHeapsize : Nat := 1500

/-- One line from the file, and what is left of the file. An empty line is only
returned at the end of the file. -/
def getLineFromConfig (maxlen : Nat) (literal comment : Bool) (cmdline : List Byte) :
    List Byte → List Byte × List Byte
  | [] => (cmdline, [])
  | c :: s =>
    if c = 92 ∧ literal = false then getLineFromConfig maxlen true comment cmdline s
    else if c = 13 then getLineFromConfig maxlen literal comment cmdline s
    else
      let c := if c = 9 ∨ (literal = true ∧ c = 10) then 32 else c
      if comment then getLineFromConfig maxlen false (c != 10) cmdline s
      else if cmdline = [] then
        if c = 35 then getLineFromConfig maxlen false true [] s
        else if c ≠ 32 ∧ c ≠ 10 then getLineFromConfig maxlen false false [c] s
        else getLineFromConfig maxlen false false [] s
      else if c = 10 then (cmdline, s)
      else getLineFromConfig maxlen false false (if cmdline.length < maxlen then cmdline ++ [c] else cmdline) s

/-- The lines that the loop of `cmain` gets, as the strings they are in the buffer. -/
def fileLines : Nat → List Byte → List (List Byte)
  | 0, _ => []
  | n + 1, s =>
    let p := getLineFromConfig newHeapsize false false [] s
    if p.1 = [] then [] else cstr p.1 :: fileLines n p.2

def configLines (file : List Byte) : List (List Byte) := fileLines (file.length + 1) file

/-- The commands of `builtin_table` by what the loop does with them: `menu` stands for the others that
may run from the menu file, `cmdline` for those that may not. -/
inductive Builtin
  | title | desc | default | fallback | hiddenmenu | timeout | menu | cmdline
  deriving DecidableEq, Repr

def builtinTable : List (String × Builtin) :=
  [("background", .menu), ("boot", .cmdline), ("cat", .cmdline), ("chainloader", .cmdline), ("clear", .cmdline),
    ("color", .menu), ("configfile", .cmdline), ("debug", .cmdline), ("default", .default), ("desc", .desc),
    ("diskclean", .menu), ("displaymem", .cmdline), ("fallback", .fallback), ("foreground", .menu),
    ("fstest", .cmdline), ("geometry", .cmdline), ("halt", .cmdline), ("help", .cmdline),
    ("hiddenmenu", .hiddenmenu), ("hide", .menu), ("identify", .cmdline), ("identifyauto", .cmdline),
    ("inc", .cmdline), ("initrd", .cmdline), ("kbdfr", .menu), ("kernel", .cmdline), ("makeactive", .cmdline),
    ("map", .cmdline), ("mbr", .menu), ("module", .cmdline), ("modulenounzip", .cmdline), ("nosecurity", .menu),
    ("partcopy", .menu), ("partnew", .menu), ("parttype", .menu), ("pause", .cmdline), ("pciscan", .cmdline),
    ("ptabs", .cmdline), ("rarp", .menu), ("read", .cmdline), ("reboot", .cmdline), ("root", .cmdline),
    ("rootnoverify", .cmdline), ("setdefault", .cmdline), ("splashimage", .menu), ("terminal", .menu),
    ("tftpserver", .menu), ("timeout", .timeout), ("title", .title), ("unhide", .menu), ("uppermem", .cmdline)]

def isSeparator (b : Byte) : Bool := b == 32 || b == 9 || b == 61

def commandName (line : List Byte) : List Byte := line.takeWhile (fun b => !isSeparator b)

def findCommand (line : List Byte) : Option Builtin :=
  (builtinTable.find? (fun e => ascii e.1 == commandName line)).map Prod.snd

/-- The argument of a command; an equal sign counts as a space. -/
def skipTo (line : List Byte) : List Byte :=
  (line.dropWhile (fun b => !isSeparator b)).dropWhile isSeparator

def mentions (key : String) (line : List Byte) : Bool := (strstr (ascii key) line).isSome

/-! ### The variables of the menu -/

structure MenuGlobals where
  showMenu : Bool
  grubTimeout : Int
  modifietimeout : Bool
  defaultEntry : Nat
  fallbackEntry : Int
  deriving DecidableEq, Repr

def initConfig (g : MenuGlobals) : MenuGlobals :=
  { g with defaultEntry := 0, fallbackEntry := -1, grubTimeout := -1 }

/-- A command of the file that is run at once, before the first title. -/
def runMenuCommand (g : MenuGlobals) (b : Builtin) (arg : List Byte) : MenuGlobals :=
  match b with
  | .default => ((safeParseMaxint arg).map (fun n => { g with defaultEntry := n })).getD g
  | .fallback => ((safeParseMaxint arg).map (fun n : Nat => { g with fallbackEntry := (n : Int) })).getD g
  | .timeout => ((safeParseMaxint arg).map (fun n : Nat => { g with grubTimeout := (n : Int) })).getD g
  | .hiddenmenu => { g with showMenu := false }
  | _ => g

structure MenuConfig where
  globals : MenuGlobals
  /-- 0 before the first title, 1 behind a title, more behind a command of its entry. -/
  state : Nat
  gotDesc : Bool
  numEntries : Nat
  menuEntries : List Byte
  configEntries : List Byte
  descEntries : List Byte
  prevMenuLen : Nat
  prevConfigLen : Nat
  /-- The server has answered `ok` to a prompt; the program keeps no such record. -/
  passed : Bool
  deriving DecidableEq, Repr

/-! ### The password -/

def secToWait : Nat := 10

structure PasswordPoll where
  second : Bool
  key : Option Byte
  deriving DecidableEq, Repr

/-- Wait for a key: false when it is escape or none comes in time. -/
def waitKey : Nat → List PasswordPoll → Option Bool
  | _, [] => none
  | timeoutpwd, p :: ps =>
    let left := if p.second then timeoutpwd - 1 else timeoutpwd
    match p.key with
    | some c => some (c != 27)
    | none => if left = 0 then some false else waitKey left ps

structure ReplyPoll where
  expired : Bool
  buf : List Byte
  deriving DecidableEq, Repr

def awaitReply : List ReplyPoll → Option Bool
  | [] => none
  | r :: rs =>
    if r.expired then some false
    else if r.buf = ascii "ok" then some true
    else if r.buf = ascii "ko" then some false
    else awaitReply rs

/-- What happens at one password prompt. The prompt edits its text in the buffer that holds the line of
the file, and its history lies where the descriptions are collected. -/
structure Prompt where
  polls : List PasswordPoll
  typed : List Byte
  history : List Byte
  replies : List ReplyPoll
  deriving DecidableEq, Repr

def overwrite (new old : List Byte) : List Byte := new.take old.length ++ old.drop new.length

def refuse (g : MenuGlobals) : MenuGlobals :=
  { g with grubTimeout := 0, modifietimeout := true, showMenu := false }

/-- The state and the line after the prompt; `none` as long as it goes on. -/
def MenuConfig.setMasterPassword (c : MenuConfig) (p : Prompt) (line : List Byte) :
    Option (MenuConfig × List Byte) :=
  match waitKey secToWait p.polls with
  | none => none
  | some false => some ({ c with globals := refuse c.globals }, line)
  | some true =>
    let c := { c with descEntries := overwrite p.history c.descEntries }
    match awaitReply p.replies with
    | none => none
    | some true => some ({ c with passed := true }, cstr p.typed)
    | some false => some ({ c with globals := refuse c.globals }, cstr p.typed)

/-! ### The loop over the lines -/

/-- After a refused password every line with `timeout` in it is cut short. -/
def cutTimeout (modifietimeout : Bool) (line : List Byte) : List Byte :=
  if mentions "timeout" line && modifietimeout then line.take 7 ++ ascii " 0" else line

def noDescription (numEntries : Nat) : List Byte :=
  ascii "No description... 0" ++ [UInt8.ofNat (48 + numEntries)]

def MenuConfig.closeEntry (c : MenuConfig) : MenuConfig :=
  { c with
    numEntries := c.numEntries + 1
    configEntries := c.configEntries ++ [0]
    prevMenuLen := c.menuEntries.length
    prevConfigLen := c.configEntries.length + 1
    descEntries := if c.gotDesc then c.descEntries else c.descEntries ++ noDescription (c.numEntries + 1) ++ [0] }

/-- Take back a title that no command followed. -/
def MenuConfig.rollBack (c : MenuConfig) : MenuConfig :=
  { c with menuEntries := c.menuEntries.take c.prevMenuLen, configEntries := c.configEntries.take c.prevConfigLen }

def MenuConfig.endEntry (c : MenuConfig) : MenuConfig := if 1 < c.state then c.closeEntry else c.rollBack

def MenuConfig.configLine (c : MenuConfig) (line : List Byte) : MenuConfig :=
  match findCommand line with
  | none => c
  | some .desc => { c with descEntries := c.descEntries ++ skipTo line ++ [0], gotDesc := true }
  | some .title =>
    { c.endEntry with state := 1, gotDesc := false, menuEntries := c.endEntry.menuEntries ++ skipTo line ++ [0] }
  | some b =>
    if c.state = 0 then
      if b = .cmdline then c else { c with globals := runMenuCommand c.globals b (skipTo line) }
    else { c with state := c.state + 1, configEntries := c.configEntries ++ line ++ [0] }

/-- The prompt of a line with `menupwd` in it takes the next of `prompts`. -/
def MenuConfig.askPassword (c : MenuConfig) (line : List Byte) (prompts : List Prompt) :
    Option (MenuConfig × List Byte × List Prompt) :=
  if mentions "menupwd" line then
    match prompts with
    | [] => none
    | p :: ps => (c.setMasterPassword p line).map (fun r => (r.1, r.2, ps))
  else some (c, line, prompts)

def MenuConfig.loadLines (c : MenuConfig) : List (List Byte) → List Prompt → Option MenuConfig
  | [], _ => some c
  | line :: lines, prompts =>
    match c.askPassword line prompts with
    | none => none
    | some (c, line, prompts) => (c.configLine (cutTimeout c.globals.modifietimeout line)).loadLines lines prompts

def MenuConfig.finish (c : MenuConfig) : MenuConfig :=
  { c.endEntry with
    menuEntries := c.endEntry.menuEntries ++ [0]
    configEntries := c.endEntry.configEntries ++ [0]
    descEntries := c.endEntry.descEntries ++ [0] }

def emptyConfig (g : MenuGlobals) : MenuConfig := ⟨initConfig g, 0, false, 0, [], [], [], 0, 0, false⟩

/-- What `cmain` makes of a file; `none` as long as a prompt in it goes on. -/
def loadConfig (g : MenuGlobals) (file : List Byte) (prompts : List Prompt) : Option MenuConfig :=
  ((emptyConfig g).loadLines (configLines file) prompts).map MenuConfig.finish

/-! ### What a line does -/

end PulseImaging
