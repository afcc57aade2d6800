/-
# Drivers.Serial -- the transmit buffer of `serial.c`

`tx_push` queues a character and `serial_drain` sends what the UART takes.  Both are called with
interrupts off.  The buffer is read at `tx_head` and written at `tx_tail`.
-/
import XosKernel.Theory.Bytes
import Mathlib.Logic.Function.Basic

namespace XosKernel.Drivers

open XosKernel.Theory

set_option autoImplicit false

/-- `SERIAL_TX_BUF` -/
def serialTxBuf : UInt32 := 4096

/-- The variables of `serial.c`. -/
structure Serial where
  txBuf : Buf
  txHead : UInt32
  txTail : UInt32

/-- COM1: `ready n` says whether the `n`-th read of the line status register has bit 0x20 set,
and `sent` is what was written to the data register. -/
structure Uart where
  ready : Nat → Bool
  polls : Nat
  sent : List UInt8

def txEmpty (s : Serial) : Bool := s.txHead == s.txTail

def txFull (s : Serial) : Bool := (s.txTail + 1) % serialTxBuf == s.txHead

/-- `tx_push` -/
def txPush (s : Serial) (c : UInt8) : Serial :=
  if !txFull s then
    { s with
      txBuf := Function.update s.txBuf s.txTail.toNat c
      txTail := (s.txTail + 1) % serialTxBuf }
  else s

/-- The loop of `serial_drain`; `none` if it goes on for more passes than are allowed. -/
def drainPasses : Nat → Serial → Uart → Option (Serial × Uart)
  | 0, _, _ => none
  | passes + 1, s, u =>
      if txEmpty s then some (s, u)
      else if u.ready u.polls then
        drainPasses passes { s with txHead := (s.txHead + 1) % serialTxBuf }
          { u with polls := u.polls + 1, sent := u.sent ++ [s.txBuf s.txHead.toNat] }
      else some (s, { u with polls := u.polls + 1 })

/-- `serial_drain` -/
def serialDrain (s : Serial) (u : Uart) : Option (Serial × Uart) :=
  drainPasses serialTxBuf.toNat s u

end XosKernel.Drivers
