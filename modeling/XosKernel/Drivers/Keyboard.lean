/-
# Drivers.Keyboard -- the PS/2 decoder of `keyboard.c` and its queue

The interrupt handler hands every scancode to `kbd_process_scancode`, which keeps three flags and
queues at most one character.  `kbd_dequeue` takes characters out again; it runs outside the
handler, so it is written statement by statement (`Dequeue`), for the handler to come in between.
-/
import XosKernel.Theory.Bytes
import Mathlib.Logic.Function.Basic

namespace XosKernel.Drivers

open XosKernel.Theory

set_option autoImplicit false

/-- `KBD_QUEUE_SIZE` -/
def kbdQueueSize : UInt32 := 64

def keyUp : UInt8 := 0x80
def keyDown : UInt8 := 0x81
def keyLeft : UInt8 := 0x82
def keyRight : UInt8 := 0x83
def keyPgup : UInt8 := 0x84
def keyPgdn : UInt8 := 0x85

/-- The initializer of `kbdus`; the elements behind it are 0. -/
def kbdus : List UInt8 :=
  [0, 27, 0x31, 0x32, 0x33, 0x34, 0x35, 0x36, 0x37, 0x38, 0x39, 0x30, 0x2D, 0x3D, 0x08,
    0x09, 0x71, 0x77, 0x65, 0x72, 0x74, 0x79, 0x75, 0x69, 0x6F, 0x70, 0x5B, 0x5D, 0x0A,
    0, 0x61, 0x73, 0x64, 0x66, 0x67, 0x68, 0x6A, 0x6B, 0x6C, 0x3B, 0x27, 0x60,
    0, 0x5C, 0x7A, 0x78, 0x63, 0x76, 0x62, 0x6E, 0x6D, 0x2C, 0x2E, 0x2F,
    0, 0x2A, 0, 0x20, 0,
    0, 0, 0, 0, 0, 0, 0, 0, 0, 0,
    0, 0, 0, 0, 0, 0x2D, 0, 0, 0, 0x2B,
    0, 0, 0, 0, 0, 0, 0, 0, 0]

/-- The initializer of `kbdus_shift`. -/
def kbdusShift : List UInt8 :=
  [0, 27, 0x21, 0x40, 0x23, 0x24, 0x25, 0x5E, 0x26, 0x2A, 0x28, 0x29, 0x5F, 0x2B, 0x08,
    0x09, 0x51, 0x57, 0x45, 0x52, 0x54, 0x59, 0x55, 0x49, 0x4F, 0x50, 0x7B, 0x7D, 0x0A,
    0, 0x41, 0x53, 0x44, 0x46, 0x47, 0x48, 0x4A, 0x4B, 0x4C, 0x3A, 0x22, 0x7E,
    0, 0x7C, 0x5A, 0x58, 0x43, 0x56, 0x42, 0x4E, 0x4D, 0x3C, 0x3E, 0x3F,
    0, 0x2A, 0, 0x20, 0,
    0, 0, 0, 0, 0, 0, 0, 0, 0, 0,
    0, 0, 0, 0, 0, 0x2D, 0, 0, 0, 0x2B,
    0, 0, 0, 0, 0, 0, 0, 0, 0]

/-- The variables of `keyboard.c`. -/
structure Keyboard where
  shiftHeld : Bool
  extended : Bool
  ctrlHeld : Bool
  interruptRequested : Bool
  queue : Buf
  qHead : UInt32
  qTail : UInt32

/-! ## The queue -/

/-- The queue takes a character: `next` is not `kbd_q_tail`. -/
def Keyboard.hasRoom (k : Keyboard) : Bool := (k.qHead + 1) % kbdQueueSize != k.qTail

/-- `kbd_enqueue` -/
def kbdEnqueue (k : Keyboard) (c : UInt8) : Keyboard :=
  if k.hasRoom then
    { k with
      queue := Function.update k.queue k.qHead.toNat c
      qHead := (k.qHead + 1) % kbdQueueSize }
  else k

/-- Where `kbd_dequeue` is: not called, behind its test, or behind the statement that stored the
character in `*out`. -/
inductive Dequeue where
  | idle
  | tested
  | loaded (out : UInt8)
  deriving DecidableEq

/-- One statement of `kbd_dequeue`, and the character that it has delivered when it returns 1. -/
def Dequeue.next (k : Keyboard) : Dequeue → Keyboard × Dequeue × Option UInt8
  | .idle => (k, if k.qTail = k.qHead then .idle else .tested, none)
  | .tested => (k, .loaded (k.queue k.qTail.toNat), none)
  | .loaded out => ({ k with qTail := (k.qTail + 1) % kbdQueueSize }, .idle, some out)

/-! ## Scancodes -/

/-- `kbd_mark_interrupt_if_needed` -/
def kbdMarkInterruptIfNeeded (k : Keyboard) (c : UInt8) : Keyboard :=
  if c = 3 then { k with interruptRequested := true } else k

/-- A letter with Ctrl held is a control code. -/
def controlCode (c : UInt8) : UInt8 :=
  if 0x61 ≤ c ∧ c ≤ 0x7A then c - 0x61 + 1
  else if 0x41 ≤ c ∧ c ≤ 0x5A then c - 0x41 + 1
  else c

/-- Queue a character; the second component says that it was handed to `kbd_enqueue`. -/
def Keyboard.queued (k : Keyboard) (c : UInt8) : Keyboard × Option UInt8 :=
  (kbdEnqueue k c, some c)

/-- The branch of `kbd_process_scancode` behind the prefix 0xE0, which has cleared `extended`. -/
def processExtended (k : Keyboard) (sc : UInt8) : Keyboard × Option UInt8 :=
  if sc = 0x1D then ({ k with ctrlHeld := true }, none)
  else if sc = 0x9D then ({ k with ctrlHeld := false }, none)
  else if sc &&& 0x80 ≠ 0 then (k, none)
  else if sc = 0x48 then k.queued keyUp
  else if sc = 0x50 then k.queued keyDown
  else if sc = 0x4B then k.queued keyLeft
  else if sc = 0x4D then k.queued keyRight
  else if sc = 0x49 then k.queued keyPgup
  else if sc = 0x51 then k.queued keyPgdn
  else (k, none)

/-- The end of `kbd_process_scancode`: a key of the main block. -/
def processPlain (k : Keyboard) (sc : UInt8) : Keyboard × Option UInt8 :=
  if sc &&& 0x80 ≠ 0 then (k, none)
  else if 128 ≤ sc then (k, none)
  else
    let c := (if k.shiftHeld then kbdusShift else kbdus).getD sc.toNat 0
    if c ≠ 0 then
      let c := if k.ctrlHeld then controlCode c else c
      (kbdMarkInterruptIfNeeded k c).queued c
    else (k, none)

/-- `kbd_process_scancode`: the variables afterwards, and the character handed to
`kbd_enqueue`. -/
def kbdProcessScancode (k : Keyboard) (sc : UInt8) : Keyboard × Option UInt8 :=
  if sc = 0xE0 then ({ k with extended := true }, none)
  else if sc = 0x2A ∨ sc = 0x36 then ({ k with shiftHeld := true }, none)
  else if sc = 0xAA ∨ sc = 0xB6 then ({ k with shiftHeld := false }, none)
  else if sc = 0x1D then ({ k with ctrlHeld := true }, none)
  else if sc = 0x9D then ({ k with ctrlHeld := false }, none)
  else if k.extended then processExtended { k with extended := false } sc
  else processPlain k sc

end XosKernel.Drivers
