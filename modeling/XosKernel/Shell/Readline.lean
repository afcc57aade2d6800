/-
# Shell.Readline -- reading a line, with history

`sh_readline` takes one key after the other: it edits the line in `buf`, walks through the rows
of `history`, and at the end of the line stores a row.  A key is one call of `readlineKey`, in the
shell of `readKey`; what it does to the screen is a list of `TermAct`.  An access outside an array
is `none`.

The branches for Ctrl+C and Ctrl+X stand inside the one for the backspace keys, so no key
reaches them.
-/
import XosKernel.Lib.Printf
import XosKernel.Theory.Bytes
import Mathlib.Logic.Function.Basic

namespace XosKernel.Shell

open XosKernel.Lib XosKernel.Theory

set_option autoImplicit false

/-- `SHELL_BUF_SIZE` -/
def shellBufSize : Nat := 256

/-- `HISTORY_SIZE` -/
def historySize : Nat := 16

def keyUp : UInt8 := 0x80
def keyDown : UInt8 := 0x81
def keyPgup : UInt8 := 0x84
def keyPgdn : UInt8 := 0x85

/-- What a key does to the screen.  `resetScrollback` is done only if the view is scrolled
back. -/
inductive TermAct where
  | print (text : List UInt8)
  | flush
  | scrollbackUp (lines : Nat)
  | scrollbackDown (lines : Nat)
  | resetScrollback
  deriving DecidableEq

/-- `history` and `history_count`. -/
structure History where
  rows : Nat → Buf
  count : Nat

/-- The variables of `sh_readline`. -/
structure Line where
  buf : Buf
  pos : Nat
  browsePos : Nat
  temp : Buf

/-! ## Strings in arrays -/

/-- The characters from index `i` on up to the NUL, with `room` elements left in the array. -/
def stringFrom (a : Buf) : Nat → Nat → Option (List UInt8)
  | 0, _ => none
  | room + 1, i => if a i = 0 then some [] else (stringFrom a room (i + 1)).map (a i :: ·)

/-- The string in an array of `SHELL_BUF_SIZE` characters. -/
def cString (a : Buf) : Option (List UInt8) := stringFrom a shellBufSize 0

/-- Copy `n` characters and terminate them. -/
def storeText (dst src : Buf) (n : Nat) : Buf := fun i =>
  if i < n then src i else if i = n then 0 else dst i

/-- A row of `history`. -/
def History.row (h : History) (i : Nat) : Option Buf :=
  if i < historySize then some (h.rows i) else none

/-! ## Keys -/

/-- `clear_line` -/
def clearLine (pos : Nat) : List UInt8 := (List.replicate pos [0x08, 0x20, 0x08]).flatten

/-- Replace the line by the string in `src`: clear it, copy up to the NUL and print. -/
def Line.recallString (l : Line) (src : Buf) : Option (Line × List TermAct) := do
  let text ← cString src
  let buf := storeText l.buf src text.length
  let shown ← cString buf
  return ({ l with buf, pos := text.length }, [.print (clearLine l.pos), .print shown, .flush])

/-- Keep the line in `temp`. -/
def Line.save (l : Line) : Option Line :=
  if l.pos < shellBufSize then some { l with temp := storeText l.temp l.buf l.pos } else none

/-- The branch for `KEY_UP`. -/
def Line.up (l : Line) (h : History) : Option (Line × List TermAct) :=
  if 0 < l.browsePos then do
    let saved ← if l.browsePos = h.count then l.save else some l
    let row ← h.row (l.browsePos - 1)
    { saved with browsePos := l.browsePos - 1 }.recallString row
  else some (l, [])

/-- The branch for `KEY_DOWN`. -/
def Line.down (l : Line) (h : History) : Option (Line × List TermAct) :=
  if l.browsePos < h.count then do
    let src ← if l.browsePos + 1 = h.count then some l.temp else h.row (l.browsePos + 1)
    { l with browsePos := l.browsePos + 1 }.recallString src
  else some (l, [])

/-- The row holds the first `n` characters of `buf` and nothing more. -/
def sameAsRow (row buf : Buf) (n : Nat) : Bool :=
  (List.range n).all (fun i => buf i == row i) && row n == 0

/-- Store a line of `pos` characters: not if it is empty or the row before it is the same. -/
def History.add (h : History) (buf : Buf) (pos : Nat) : Option History :=
  if 0 < pos then do
    let last ← if 0 < h.count then (h.row (h.count - 1)).map some else some none
    if last.any fun row => sameAsRow row buf pos then return h
    else
      let idx := h.count % historySize
      let row ← h.row idx
      return {
        rows := Function.update h.rows idx (storeText row buf pos)
        count := if h.count < historySize then h.count + 1 else h.count }
  else some h

/-- What becomes of `sh_readline` at a key. -/
inductive KeyResult where
  | more (line : Line)
  | done (history : History) (buf : Buf) (pos : Nat)

/-- The branches inside the block of the backspace keys, behind the erased character.  The loop of
the second one does not change `pos`. -/
def controlKey (h : History) (l : Line) (c : UInt8) (acts : List TermAct) :
    Option (KeyResult × List TermAct) :=
  if c = 3 then
    some (.done h (Function.update l.buf 0 0) 0, acts ++ [.print [0x5E, 0x43, 0x0A], .flush])
  else if c = 24 then
    if 0 < l.pos then none
    else some (.more { l with buf := Function.update l.buf 0 0 }, acts ++ [.flush])
  else some (.more l, acts)

/-- The body of the loop of `sh_readline` for a buffer of `max` characters; `none` is an access
outside an array, or a loop that does not end. -/
def readlineKey (max : Nat) (h : History) (l : Line) (c : UInt8) :
    Option (KeyResult × List TermAct) :=
  if c = keyPgup then some (.more l, [.scrollbackUp 5])
  else if c = keyPgdn then some (.more l, [.scrollbackDown 5])
  else if c = keyUp then do
    let (l', acts) ← (l.up h).filter (·.1.pos < max)
    return (.more l', .resetScrollback :: acts)
  else if c = keyDown then do
    let (l', acts) ← (l.down h).filter (·.1.pos < max)
    return (.more l', .resetScrollback :: acts)
  else if c = 0x0A ∨ c = 0x0D then
    -- the line goes to `buf` and to a row of `history`
    if l.pos < max ∧ l.pos < shellBufSize then do
      let buf := Function.update l.buf l.pos 0
      let h' ← h.add buf l.pos
      return (.done h' buf l.pos, [.resetScrollback, .print [0x0A], .flush])
    else none
  else if (c = 0x08 ∨ c = 127) ∧ 0 < l.pos then
    controlKey h { l with pos := l.pos - 1 } c
      [.resetScrollback, .print [0x08, 0x20, 0x08], .flush]
  else if c < 32 ∨ 126 < c then some (.more l, [.resetScrollback])
  else if l.pos < max - 1 then
    some (.more { l with buf := Function.update l.buf l.pos c, pos := l.pos + 1 },
      [.resetScrollback, .print [c], .flush])
  else some (.more l, [.resetScrollback])

/-- The body of the loop for the shell, whose buffer has the length of a row. -/
def readKey (h : History) (l : Line) (c : UInt8) : Option (KeyResult × List TermAct) :=
  readlineKey shellBufSize h l c

/-- `sh_readline` before the first key, on a buffer with any contents. -/
def Line.start (h : History) (buf : Buf) : Line := ⟨buf, 0, h.count, fun _ => 0⟩

/-- The line and the screen after keys that do not end it. -/
def readKeys (h : History) : Line → List UInt8 → Option (Line × List TermAct)
  | l, [] => some (l, [])
  | l, c :: keys => do
      match ← readKey h l c with
      | (.more l', acts) =>
          let (l'', later) ← readKeys h l' keys
          return (l'', acts ++ later)
      | (.done _ _ _, _) => none

/-- The characters that the line holds. -/
def Line.text (l : Line) : List UInt8 := l.buf.toList 0 l.pos

end XosKernel.Shell
