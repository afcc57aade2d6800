/-
# Shell.Commands -- from a line to the handler of its command

`sh_parse_and_run` cuts the line in its buffer into words: it puts a NUL behind each and keeps
pointers to them in `argv`.  The handlers get the words, and answer with what they do
(`ShellAct`).  An element of `argv` that was not set, an element outside a local array or a string
without its NUL is `none`.  What other parts of the kernel return is a parameter (`Outside`).

The handlers without arguments are not written out: `ShellAct.run` is a call of one of them.
-/
import XosKernel.Shell.LineEditor
import XosKernel.Shell.Network

namespace XosKernel.Shell

open XosKernel.Lib XosKernel.Net XosKernel.Theory

set_option autoImplicit false

/-- `MAX_ARGS` -/
def maxArgs : Nat := 16

/-! ## Words -/

/-- `while (*p == ' ') p++`, with `room` elements left in the array. -/
def skipSpaces (line : Buf) : Nat → Nat → Option Nat
  | 0, _ => none
  | room + 1, p => if line p = 0x20 then skipSpaces line room (p + 1) else some p

/-- `while (*p && *p != ' ') p++` -/
def skipWord (line : Buf) : Nat → Nat → Option Nat
  | 0, _ => none
  | room + 1, p =>
      if line p ≠ 0 ∧ line p ≠ 0x20 then skipWord line room (p + 1) else some p

/-- The loop over the words, with so many elements of `argv` left: the line, and the pointers. -/
def parseWords : Nat → Buf → Nat → Option (Buf × List Nat)
  | 0, line, _ => some (line, [])
  | slots + 1, line, p =>
      if line p ≠ 0 then do
        let start ← skipSpaces line (shellBufSize - p) p
        if line start = 0 then return (line, [])
        else
          let stop ← skipWord line (shellBufSize - start) start
          let (line, next) :=
            if line stop = 0x20 then (Function.update line stop 0, stop + 1) else (line, stop)
          let (line, argv) ← parseWords slots line next
          return (line, start :: argv)
      else some (line, [])

/-- The first part of `sh_parse_and_run`: the line and `argv`, empty for a blank line. -/
def shParse (line : Buf) : Option (Buf × List Nat) := do
  let p ← skipSpaces line shellBufSize 0
  if line p = 0 then return (line, []) else parseWords maxArgs line p

/-- The string at a pointer into the line. -/
def wordAt (line : Buf) (p : Nat) : Option Text := stringFrom line (shellBufSize - p) p

/-! ## Outside -/

/-- Handlers without arguments. -/
inductive Plain where
  | help | clear | ls | meminfo | tasks | pci | uptime | xfetch | usermode | reboot | colors | pwd
  deriving DecidableEq

/-- What the handlers do. -/
inductive ShellAct where
  | print (text : List UInt8)
  | net (act : Act)
  | run (handler : Plain)
  | fatCreate (path : Text)
  | fatDelete (path : Text)
  | fatMkdir (path : Text)
  | fatChdir (path : Text)
  | fatWrite (path text : Text)
  | fatOpen (path : Text)
  | fatClose
  | setLog (enabled : Bool)
  | setPrompt (fg bg : Int)
  | interrupts (enabled : Bool)
  | loadElf (path : Text)
  | createUserTask (name : Text) (entry : UInt64)
  | yield

/-- The size of `buf` in `cmd_cat`. -/
def catBufSize : Nat := 128

/-- What `fat32_read` stores there and returns the length of: it is called with one less. -/
abbrev CatChunk := { bytes : List UInt8 // bytes.length ≤ catBufSize - 1 }

/-- What the functions of other files return, `true` for 0; and the variables that are printed. -/
structure Outside where
  fatCreate : Text → Bool
  fatDelete : Text → Bool
  fatMkdir : Text → Bool
  fatChdir : Text → Bool
  fatWrite : Text → Text → Bool
  /-- the reads of a file that can be opened -/
  fatReads : Text → Option (List CatChunk)
  elfLoad : Text → Option UInt64
  createUserTask : Text → UInt64 → Int
  debugPrint : Bool
  debugLog : Bool
  promptFg : UInt8
  promptBg : UInt8
  station : Station

/-! ## Local arrays -/

/-- Store an element of an array of `size`. -/
def storeAt (size : Nat) (a : Buf) (i : Nat) (c : UInt8) : Option Buf :=
  if i < size then some (Function.update a i c) else none

/-- `sh_strcpy` to place `i` of an array of `size` -/
def shStrcpy (size : Nat) (dst : Buf) (i : Nat) : Text → Option Buf
  | [] => storeAt size dst i 0
  | c :: src => do
      let dst ← storeAt size dst i c
      shStrcpy size dst (i + 1) src

/-- The loop of `parse_ip4` as in `parseIp4Loop`, with the array that it stores to. -/
def parseIp4Stores : Text → Nat → Nat → Buf → Option (Option (Nat × Nat × Buf))
  | [], i, num, octets => some (some (i, num, octets))
  | c :: s, i, num, octets =>
      if i < 4 then
        if 0x30 ≤ c ∧ c ≤ 0x39 then
          let num := num * 10 + (c.toNat - 48)
          if 255 < num then some none else parseIp4Stores s i num octets
        else if c = 0x2E then do
          let octets ← storeAt 4 octets i (UInt8.ofNat num)
          parseIp4Stores s (i + 1) 0 octets
        else some none
      else some (some (i, num, octets))

/-- `parse_ip4` with the array that it stores to. -/
def parseIp4Into (s : Text) (octets : Buf) : Option (Option Buf) := do
  match ← parseIp4Stores s 0 0 octets with
  | none => return none
  | some (i, num, octets) =>
      if i = 3 then do
        let octets ← storeAt 4 octets 3 (UInt8.ofNat num)
        return if num ≤ 255 then some octets else none
      else return none

/-! ## Handlers -/

/-- `argc > 1 ? argv[1] : ""` -/
def argOrEmpty (argv : List Text) : Option Text :=
  if 1 < argv.length then argv[1]? else some []

/-- The loop of `cmd_cat`: what it prints, and the bytes that it has read. -/
def catLoop : List CatChunk → Buf → Option (List ShellAct × Nat)
  | [], _ => some ([], 0)
  | chunk :: rest, buf =>
      if chunk.1 = [] then some ([], 0)
      else do
        let buf ← storeAt catBufSize (buf.blit 0 chunk.1.length fun i => chunk.1.getD i 0)
          chunk.1.length 0
        let text ← stringFrom buf catBufSize 0
        let (acts, total) ← catLoop rest buf
        return (.print (printf "%s" [.str text]) :: acts, chunk.1.length + total)

def cmdCat (outside : Outside) (filename : Text) : Option (List ShellAct) :=
  if filename = [] then some [.print (printf "Usage: cat <filename>\n" [])]
  else
    match outside.fatReads filename with
    | none => some [.fatOpen filename, .print (printf "cat: %s: not found\n" [.str filename])]
    | some chunks => do
        let (acts, total) ← catLoop chunks fun _ => 0
        return [.fatOpen filename, .print (printf "\n" [])] ++ acts ++ [.fatClose] ++
          (if total = 0 then [.print (printf "(empty)\n" [])] else []) ++ [.print (printf "\n" [])]

/-- A handler that passes its argument to one function of the file system. -/
def fileCommand (usage succeeds fails : String) (act : Text → ShellAct) (ok : Text → Bool)
    (filename : Text) : List ShellAct :=
  if filename = [] then [.print (printf usage [])]
  else [act filename, .print (printf (if ok filename then succeeds else fails) [.str filename])]

def cmdTouch (outside : Outside) : Text → List ShellAct :=
  fileCommand "Usage: touch <file>\n" "touch: created %s\n" "touch: failed to create %s\n"
    .fatCreate outside.fatCreate

def cmdRm (outside : Outside) : Text → List ShellAct :=
  fileCommand "Usage: rm <file>\n" "rm: deleted %s\n" "rm: failed to delete %s\n"
    .fatDelete outside.fatDelete

def cmdMkdir (outside : Outside) : Text → List ShellAct :=
  fileCommand "Usage: mkdir <directory>\n" "mkdir: created %s\n" "mkdir: failed to create %s\n"
    .fatMkdir outside.fatMkdir

def cmdCd (outside : Outside) (dirname : Text) : List ShellAct :=
  if dirname = [] then
    .fatChdir (ascii "/") ::
      if outside.fatChdir (ascii "/") then []
      else [.print (printf "cd: failed to change to root directory\n" [])]
  else
    .fatChdir dirname ::
      if outside.fatChdir dirname then []
      else [.print (printf "cd: failed to change directory to %s\n" [.str dirname])]

/-- A letter in lower case. -/
def shLower (c : UInt8) : UInt8 := if 0x41 ≤ c ∧ c ≤ 0x5A then c + 32 else c

/-- `sh_strcasecmp` -/
def shStrcasecmp : Text → Text → Int
  | a :: s, b :: t =>
      if shLower a = shLower b then shStrcasecmp s t
      else ((shLower a).toNat : Int) - (shLower b).toNat
  | a :: _, [] => a.toNat
  | [], b :: _ => - (b.toNat : Int)
  | [], [] => 0

def cmdLog (outside : Outside) (argv : List Text) : Option (List ShellAct) :=
  if argv.length < 2 then some [.print (printf "Usage: log on|off|status\n" [])]
  else do
    let arg ← argv[1]?
    if shStrcasecmp arg (ascii "on") = 0 then
      return [.setLog true, .print (printf "[LOG] enabled (print+buffer)\n" [])]
    else if shStrcasecmp arg (ascii "off") = 0 then
      return [.setLog false, .print (printf "[LOG] disabled (print+buffer)\n" [])]
    else if shStrcasecmp arg (ascii "status") = 0 then
      return [.print (printf "[LOG] print=%s buffer=%s\n"
        [.str (ascii (if outside.debugPrint then "on" else "off")),
          .str (ascii (if outside.debugLog then "on" else "off"))])]
    else return [.print (printf "Usage: log on|off|status\n" [])]

/-- `vga_color_names` -/
def vgaColorNames : List String :=
  ["black", "blue", "green", "cyan", "red", "magenta", "brown", "light gray", "dark gray",
    "light blue", "light green", "light cyan", "light red", "light magenta", "yellow", "white"]

/-- `parse_color_arg` -/
def parseColorArg (s : Text) : Int :=
  if s.all fun c => 0x30 ≤ c && c ≤ 0x39 then
    let v := s.foldl (fun v c => wrap 32 (v * 10 + (c.toNat - 48))) (0 : Int)
    if 0 ≤ v ∧ v < 16 then v else -1
  else
    match vgaColorNames.findIdx? fun name => shStrcasecmp s (ascii name) = 0 with
    | some j => j
    | none => -1

def cmdPromptcolor (outside : Outside) (argv : List Text) : Option (List ShellAct) :=
  if argv.length = 1 then
    some [.print (printf "Current prompt color: fg=%d bg=%d\n"
      [.int outside.promptFg.toNat, .int outside.promptBg.toNat])]
  else if argv.length < 3 then some [.print (printf "Usage: promptcolor <fg> <bg>\n" [])]
  else do
    let fg := parseColorArg (← argv[1]?)
    let bg := parseColorArg (← argv[2]?)
    if fg < 0 ∨ bg < 0 then
      return [.print (printf "Invalid color. Use 0-15 or named colors.\n" [])]
    else
      return [.setPrompt fg bg,
        .print (printf "Prompt color set: fg=%d bg=%d\n" [.int fg, .int bg])]

/-- The first argument that is `>`. -/
def redirectIndex (argv : List Text) : Option Nat :=
  (argv.tail.findIdx? fun arg => shStrcmp arg (ascii ">") = 0).map (· + 1)

/-- The size of `text` in `cmd_echo`. -/
def echoTextSize : Nat := 256

/-- Copy an argument while there is room: the text and `pos`. -/
def echoWord (text : Buf) (pos : Nat) : Text → Option (Buf × Nat)
  | [] => some (text, pos)
  | c :: rest =>
      if pos < echoTextSize - 1 then do
        let text ← storeAt echoTextSize text pos c
        echoWord text (pos + 1) rest
      else some (text, pos)

/-- The loop over the arguments before `redirect`, with so many of them left. -/
def echoLoop (argv : List Text) (redirect : Nat) : Nat → Buf → Nat → Option (Buf × Nat)
  | 0, text, pos => some (text, pos)
  | left + 1, text, pos => do
      let arg ← argv[redirect - (left + 1)]?
      let (text, pos) ← echoWord text pos arg
      if 0 < left ∧ pos < echoTextSize - 1 then do
        let text ← storeAt echoTextSize text pos 0x20
        echoLoop argv redirect left text (pos + 1)
      else echoLoop argv redirect left text pos

def cmdEcho (outside : Outside) (argv : List Text) : Option (List ShellAct) :=
  if argv.length < 2 then some [.print (printf "Usage: echo <text> [>] <file>\n" [])]
  else
    match redirectIndex argv with
    | none =>
        some ((argv.tail.map fun arg => ShellAct.print (printf "%s" [.str arg])).intersperse
          (.print (printf " " [])) ++ [.print (printf "\n" [])])
    | some redirect =>
        if redirect = 1 ∨ argv.length ≤ redirect + 1 then
          some [.print (printf "Usage: echo <text> > <file>\n" [])]
        else do
          let (text, pos) ← echoLoop argv redirect (redirect - 1) (fun _ => 0) 0
          let text ← storeAt echoTextSize text pos 0
          let filename ← argv[redirect + 1]?
          let content ← stringFrom text echoTextSize 0
          return [.fatWrite filename content, .print (printf
            (if outside.fatWrite filename content then "echo: wrote %s\n"
              else "echo: failed to write %s\n") [.str filename])]

/-- The size of `path` in `cmd_exec`. -/
def execPathSize : Nat := 64

/-- The path that `cmd_exec` makes of the argument. -/
def execPath (filename : Text) : Option Text := do
  let path ←
    if filename.head? = some 0x2F then shStrcpy execPathSize (fun _ => 0) 0 filename
    else do
      let path ← storeAt execPathSize (fun _ => 0) 0 0x2F
      shStrcpy execPathSize path 1 filename
  stringFrom path execPathSize 0

def cmdExec (outside : Outside) (filename : Text) : Option (List ShellAct) :=
  let debug (format : String) (args : List PrintArg) : List ShellAct :=
    if outside.debugPrint then [.print (printf format args)] else []
  if filename = [] then some [.print (printf "Usage: exec <file>\n" [])]
  else do
    let path ← execPath filename
    let start := [.interrupts false] ++ debug "[EXEC] Loading user program: %s\n" [.str filename] ++
      debug "[EXEC] Attempting to load ELF from %s\n" [.str path] ++ [.loadElf path]
    match outside.elfLoad path with
    | none =>
        return start ++ [.print (printf "[EXEC] Error: failed to load %s\n" [.str filename]),
          .interrupts true]
    | some entry =>
        let loaded := start ++ debug "[EXEC] ELF loaded successfully, entry point: %p\n"
          [.ptr entry] ++ debug "[EXEC] Creating user task...\n" [] ++
            [.createUserTask filename entry]
        let task := outside.createUserTask filename entry
        if task < 0 then
          return loaded ++ [.print (printf "[EXEC] Error: failed to create user task\n" []),
            .interrupts true]
        else
          return loaded ++ debug "[EXEC] Task %d started (%s @ %p), yielding to scheduler\n"
            [.int task, .str filename, .ptr entry] ++ [.interrupts true, .yield]

/-! ## Dispatch -/

/-- The second part of `sh_parse_and_run`; `passes` is the bound of `cmdPing`. -/
def dispatch (outside : Outside) (passes : Nat) (argv : List Text) : Option (List ShellAct) :=
  match argv with
  | [] => some []
  | cmd :: _ =>
      let is (name : String) : Prop := shStrcmp cmd (ascii name) = 0
      if is "help" then some [.run .help]
      else if is "clear" then some [.run .clear]
      else if is "ls" then some [.run .ls]
      else if is "cat" then (argOrEmpty argv).bind (cmdCat outside)
      else if is "meminfo" then some [.run .meminfo]
      else if is "tasks" then some [.run .tasks]
      else if is "pci" then some [.run .pci]
      else if is "uptime" then some [.run .uptime]
      else if is "xfetch" then some [.run .xfetch]
      else if is "touch" then (argOrEmpty argv).map (cmdTouch outside)
      else if is "echo" then cmdEcho outside argv
      else if is "rm" then (argOrEmpty argv).map (cmdRm outside)
      else if is "log" then cmdLog outside argv
      else if is "exec" then (argOrEmpty argv).bind (cmdExec outside)
      else if is "ping" then (cmdPing outside.station argv passes).map (·.map .net)
      else if is "arp" then some ((cmdArp outside.station argv).map .net)
      else if is "usermode" then some [.run .usermode]
      else if is "reboot" then some [.run .reboot]
      else if is "colors" then some [.run .colors]
      else if is "promptcolor" then cmdPromptcolor outside argv
      else if is "mkdir" then (argOrEmpty argv).map (cmdMkdir outside)
      else if is "cd" then (argOrEmpty argv).map (cmdCd outside)
      else if is "pwd" then some [.run .pwd]
      else some [.print (printf "%s: command not found  (type 'help')\n" [.str cmd])]

/-- `sh_parse_and_run` -/
def shParseAndRun (outside : Outside) (passes : Nat) (line : Buf) : Option (List ShellAct) := do
  let (line, pointers) ← shParse line
  let argv ← pointers.mapM (wordAt line)
  dispatch outside passes argv

end XosKernel.Shell
