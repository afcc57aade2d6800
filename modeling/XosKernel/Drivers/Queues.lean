/-
# Drivers.Queues -- the keyboard queue and the transmit buffer are bounded queues

Both are rings of cells (`Theory.RingBuffer`).  The runs of this module keep the characters that
were accepted and those that were delivered beside the variables; a character of the keyboard
counts as delivered when `kbd_dequeue` returns 1.  The invariants say that the ring accounts for
the difference: for the keyboard also while `kbd_dequeue` is between two statements and the
interrupt handler queues another character (`KeyboardRun.Sound`).  Neither side keeps anything
back: a call of `kbd_dequeue` delivers the first character that is pending (`KeyboardRun.call`),
and `serial_drain` stops at an empty buffer or at a UART that is not ready (`SerialRun.Stops`).
-/
import XosKernel.Theory.RingBuffer
import XosKernel.Theory.Steps
import XosKernel.Drivers.Keyboard
import XosKernel.Drivers.Serial

namespace XosKernel.Drivers

open XosKernel.Theory

set_option autoImplicit false

/-! ## The keyboard queue -/

section Keyboard

def Keyboard.ring (k : Keyboard) : RingBuffer UInt8 where
  cells := k.queue
  write := k.qHead.toNat
  read := k.qTail.toNat

theorem next_index (i : UInt32) : ((i + 1) % kbdQueueSize).toNat = (i.toNat + 1) % 64 := by
  simp only [kbdQueueSize, UInt32.toNat_mod, UInt32.toNat_add, UInt32.reduceToNat]
  omega

theorem Keyboard.hasRoom_iff (k : Keyboard) : k.hasRoom = true ↔ k.ring.isFull 64 ≠ true := by
  rw [hasRoom, bne_iff_ne, ne_eq, ← UInt32.toNat_inj, next_index, RingBuffer.isFull, ne_eq,
    beq_iff_eq]
  rfl

theorem Keyboard.isEmpty_iff (k : Keyboard) :
    k.ring.isEmpty = true ↔ k.qTail = k.qHead := by
  rw [RingBuffer.isEmpty, beq_iff_eq, ← UInt32.toNat_inj]
  rfl

theorem kbdEnqueue_ring {k : Keyboard} (room : k.hasRoom = true) (c : UInt8) :
    (kbdEnqueue k c).ring = k.ring.push 64 c := by
  rw [kbdEnqueue, if_pos room, Keyboard.ring, RingBuffer.push]
  simp only [next_index]
  rfl

theorem Keyboard.popped_ring (k : Keyboard) :
    { k with qTail := (k.qTail + 1) % kbdQueueSize : Keyboard }.ring = k.ring.pop 64 := by
  rw [ring, RingBuffer.pop]
  simp only [next_index]
  rfl

/-- What the interrupt handler and the reader of the queue can do. -/
inductive KeyboardAction where
  | enqueue (c : UInt8)
  | dequeue

/-- The variables, where `kbd_dequeue` is, and the characters up to now. -/
structure KeyboardRun where
  keyboard : Keyboard
  reader : Dequeue
  accepted : List UInt8
  delivered : List UInt8

/-- The interrupt handler calls `kbd_enqueue`, or `kbd_dequeue` executes one statement. -/
def KeyboardRun.step (r : KeyboardRun) : KeyboardAction → KeyboardRun
  | .enqueue c =>
      { r with
        keyboard := kbdEnqueue r.keyboard c
        accepted := if r.keyboard.hasRoom then r.accepted ++ [c] else r.accepted }
  | .dequeue =>
      let next := r.reader.next r.keyboard
      { r with
        keyboard := next.1
        reader := next.2.1
        delivered := r.delivered ++ next.2.2.toList }

/-- Before the first character. -/
def KeyboardRun.start (k : Keyboard) : KeyboardRun where
  keyboard := { k with qHead := 0, qTail := 0 }
  reader := .idle
  accepted := []
  delivered := []

/-- What `kbd_dequeue` knows behind its test and behind its load. -/
def Dequeue.Knows (ring : RingBuffer UInt8) : Dequeue → Prop
  | .idle => True
  | .tested => ring.isEmpty ≠ true
  | .loaded out => ring.isEmpty ≠ true ∧ out = ring.front

/-- The ring accounts for the characters, and the reader knows what it will deliver. -/
structure KeyboardRun.Sound (r : KeyboardRun) : Prop where
  accounts : r.keyboard.ring.Accounts 64 r.accepted r.delivered
  knows : r.reader.Knows r.keyboard.ring

theorem KeyboardRun.sound_start (k : Keyboard) : (KeyboardRun.start k).Sound where
  accounts := .start (Nat.zero_lt_succ 63) rfl
  knows := trivial

theorem KeyboardRun.Sound.enqueue {r : KeyboardRun} (sound : r.Sound) (c : UInt8) :
    (r.step (.enqueue c)).Sound := by
  by_cases room : r.keyboard.hasRoom = true
  · have ring := kbdEnqueue_ring room c
    have notFull := r.keyboard.hasRoom_iff.mp room
    refine ⟨?_, ?_⟩
    · simp only [step, ring, room, if_true]
      exact sound.accounts.push notFull c
    · have known := sound.knows
      simp only [step, ring]
      cases at_ : r.reader with
      | idle => trivial
      | tested =>
          rw [at_] at known
          exact (sound.accounts.front_push notFull known c).2
      | loaded out =>
          rw [at_] at known
          obtain ⟨front, more⟩ := sound.accounts.front_push notFull known.1 c
          exact ⟨more, known.2.trans front.symm⟩
  · have same : r.step (.enqueue c) = r := by
      simp only [step, kbdEnqueue, if_neg room]
    rw [same]
    exact sound

theorem KeyboardRun.Sound.dequeue {r : KeyboardRun} (sound : r.Sound) :
    (r.step .dequeue).Sound := by
  have known := sound.knows
  cases at_ : r.reader with
  | idle =>
      refine ⟨?_, ?_⟩
      · simpa [step, at_, Dequeue.next] using sound.accounts
      · simp only [step, at_, Dequeue.next]
        split
        · trivial
        · next differ => exact fun empty => differ (r.keyboard.isEmpty_iff.mp empty)
  | tested =>
      rw [at_] at known
      refine ⟨?_, ?_⟩
      · simpa [step, at_, Dequeue.next] using sound.accounts
      · simp only [step, at_, Dequeue.next]
        exact ⟨known, rfl⟩
  | loaded out =>
      rw [at_] at known
      obtain ⟨some_, rfl⟩ := known
      refine ⟨?_, ?_⟩
      · have popped := sound.accounts.pop some_
        simp only [step, at_, Dequeue.next, Keyboard.popped_ring]
        exact popped
      · simp only [step, at_, Dequeue.next]
        trivial

theorem KeyboardRun.Sound.step {r : KeyboardRun} (sound : r.Sound) (a : KeyboardAction) :
    (r.step a).Sound := by
  cases a with
  | enqueue c => exact sound.enqueue c
  | dequeue => exact sound.dequeue

theorem KeyboardRun.sound_run (k : Keyboard) (actions : List KeyboardAction) :
    (actions.foldl KeyboardRun.step (.start k)).Sound := by
  have kept : ∀ (r : KeyboardRun) (a : KeyboardAction), r.Sound → (r.step a).Sound :=
    fun r a sound => sound.step a
  exact (always_of_kept kept (sound_start k) actions).last

/-- The interrupt handler queues characters. -/
def KeyboardRun.interrupted (r : KeyboardRun) (chars : List UInt8) : KeyboardRun :=
  (chars.map .enqueue).foldl KeyboardRun.step r

/-- The three statements of a call of `kbd_dequeue` that finds a character; the interrupt handler
queues `early` behind the first and `late` behind the second. -/
def KeyboardRun.call (r : KeyboardRun) (early late : List UInt8) : KeyboardRun :=
  ((((r.step .dequeue).interrupted early).step .dequeue).interrupted late).step .dequeue

/-- The interrupt handler touches neither the reader nor the characters that it delivered, and
the queue keeps its front. -/
theorem KeyboardRun.Sound.interrupted {r : KeyboardRun} (sound : r.Sound)
    (some_ : r.keyboard.ring.isEmpty ≠ true) (chars : List UInt8) :
    (r.interrupted chars).Sound ∧ (r.interrupted chars).reader = r.reader ∧
      (r.interrupted chars).delivered = r.delivered ∧
      (r.interrupted chars).keyboard.ring.isEmpty ≠ true ∧
      (r.interrupted chars).keyboard.ring.front = r.keyboard.ring.front := by
  induction chars generalizing r with
  | nil => exact ⟨sound, rfl, rfl, some_, rfl⟩
  | cons c rest ih =>
      have kept : (r.step (.enqueue c)).keyboard.ring.isEmpty ≠ true ∧
          (r.step (.enqueue c)).keyboard.ring.front = r.keyboard.ring.front := by
        by_cases room : r.keyboard.hasRoom = true
        · obtain ⟨front, more⟩ :=
            sound.accounts.front_push (r.keyboard.hasRoom_iff.mp room) some_ c
          simp only [KeyboardRun.step, kbdEnqueue_ring room c]
          exact ⟨more, front⟩
        · simp only [KeyboardRun.step, kbdEnqueue, if_neg room, and_true]
          exact some_
      obtain ⟨last, reader, delivered, more, front⟩ := ih (sound.enqueue c) kept.1
      exact ⟨last, reader, delivered, more, front.trans kept.2⟩

/-- A call that finds a character delivers the one that is read next. -/
theorem KeyboardRun.Sound.call {r : KeyboardRun} (sound : r.Sound) (idle : r.reader = .idle)
    (some_ : r.keyboard.ring.isEmpty ≠ true) (early late : List UInt8) :
    (r.call early late).delivered = r.delivered ++ [r.keyboard.ring.front] ∧
      (r.call early late).reader = .idle := by
  have differ : r.keyboard.qTail ≠ r.keyboard.qHead :=
    fun same => some_ (r.keyboard.isEmpty_iff.mpr same)
  have tested : r.step .dequeue = { r with reader := .tested } := by
    simp [KeyboardRun.step, idle, Dequeue.next, differ]
  obtain ⟨sound₁, reader₁, delivered₁, some₁, front₁⟩ :=
    (tested ▸ sound.dequeue).interrupted some_ early
  rw [KeyboardRun.call, tested]
  set r₁ := ({ r with reader := .tested } : KeyboardRun).interrupted early
  have loaded : r₁.step .dequeue = { r₁ with reader := .loaded r₁.keyboard.ring.front } := by
    simp only [KeyboardRun.step, reader₁, Dequeue.next, Option.toList_none, List.append_nil]
    rfl
  obtain ⟨sound₂, reader₂, delivered₂, some₂, front₂⟩ :=
    (loaded ▸ sound₁.dequeue).interrupted some₁ late
  rw [loaded]
  set r₂ := ({ r₁ with reader := .loaded r₁.keyboard.ring.front } : KeyboardRun).interrupted late
  refine ⟨?_, by simp only [KeyboardRun.step, reader₂, Dequeue.next]⟩
  simp only [KeyboardRun.step, reader₂, Dequeue.next, Option.toList_some]
  rw [delivered₂, delivered₁, front₁]

/-- A call that finds no character returns 0 at its test. -/
theorem KeyboardRun.step_dequeue_empty {r : KeyboardRun} (idle : r.reader = .idle)
    (none_ : r.keyboard.ring.isEmpty = true) : r.step .dequeue = r := by
  have same := r.keyboard.isEmpty_iff.mp none_
  obtain ⟨keyboard, reader, accepted, delivered⟩ := r
  cases idle
  simp only [KeyboardRun.step, Dequeue.next, if_pos same, Option.toList_none, List.append_nil]

end Keyboard

/-! ## The transmit buffer -/

section Serial

def Serial.ring (s : Serial) : RingBuffer UInt8 where
  cells := s.txBuf
  write := s.txTail.toNat
  read := s.txHead.toNat

theorem next_tx_index (i : UInt32) : ((i + 1) % serialTxBuf).toNat = (i.toNat + 1) % 4096 := by
  simp only [serialTxBuf, UInt32.toNat_mod, UInt32.toNat_add, UInt32.reduceToNat]
  omega

theorem txFull_eq (s : Serial) : txFull s = s.ring.isFull 4096 := by
  rw [Bool.eq_iff_iff, txFull, beq_iff_eq, ← UInt32.toNat_inj, next_tx_index, RingBuffer.isFull,
    beq_iff_eq]
  rfl

theorem txEmpty_eq (s : Serial) : txEmpty s = s.ring.isEmpty := by
  rw [Bool.eq_iff_iff, txEmpty, beq_iff_eq, ← UInt32.toNat_inj, RingBuffer.isEmpty, beq_iff_eq]
  rfl

theorem txPush_ring {s : Serial} (room : txFull s ≠ true) (c : UInt8) :
    (txPush s c).ring = s.ring.push 4096 c := by
  rw [txPush, if_pos (by simpa using room), Serial.ring, RingBuffer.push]
  simp only [next_tx_index]
  rfl

theorem Serial.popped_ring (s : Serial) :
    { s with txHead := (s.txHead + 1) % serialTxBuf : Serial }.ring = s.ring.pop 4096 := by
  rw [ring, RingBuffer.pop]
  simp only [next_tx_index]
  rfl

inductive SerialAction where
  | push (c : UInt8)
  | drain

/-- The variables, the UART, and the characters that were accepted. -/
structure SerialRun where
  serial : Serial
  uart : Uart
  accepted : List UInt8

/-- A call of `tx_push` or of `serial_drain`; `none` if it does not return. -/
def SerialRun.step (r : SerialRun) : SerialAction → Option SerialRun
  | .push c => some
      { r with
        serial := txPush r.serial c
        accepted := if txFull r.serial then r.accepted else r.accepted ++ [c] }
  | .drain => (serialDrain r.serial r.uart).map fun after =>
      { r with serial := after.1, uart := after.2 }

/-- Before the first character. -/
def SerialRun.start (s : Serial) (ready : Nat → Bool) : SerialRun where
  serial := { s with txHead := 0, txTail := 0 }
  uart := { ready := ready, polls := 0, sent := [] }
  accepted := []

/-- The buffer accounts for what was not sent. -/
def SerialRun.Sound (r : SerialRun) : Prop :=
  r.serial.ring.Accounts 4096 r.accepted r.uart.sent

theorem SerialRun.sound_start (s : Serial) (ready : Nat → Bool) :
    (SerialRun.start s ready).Sound := .start (Nat.zero_lt_succ 4095) rfl

theorem SerialRun.Sound.push {r : SerialRun} (sound : r.Sound) (c : UInt8) :
    ∃ r', r.step (.push c) = some r' ∧ r'.Sound := by
  refine ⟨_, rfl, ?_⟩
  by_cases full : txFull r.serial = true
  · simp only [SerialRun.Sound, txPush, full]
    exact sound
  · have ring := txPush_ring full c
    simp only [SerialRun.Sound, ring, if_neg full]
    exact RingBuffer.Accounts.push sound (by rwa [← txFull_eq]) c

/-- `serial_drain` sends what is pending, as long as the UART is ready. -/
theorem drainPasses_accounts {accepted : List UInt8} (passes : Nat) (s : Serial) (u : Uart)
    (accounts : s.ring.Accounts 4096 accepted u.sent)
    (enough : accepted.length < u.sent.length + passes) :
    ∃ s' u', drainPasses passes s u = some (s', u') ∧
      s'.ring.Accounts 4096 accepted u'.sent ∧ u'.ready = u.ready ∧ u.polls ≤ u'.polls ∧
      (txEmpty s' = true ∨ u.polls < u'.polls ∧ u'.ready (u'.polls - 1) = false) := by
  induction passes generalizing s u with
  | zero =>
      obtain ⟨queue, -, same⟩ := accounts
      rw [same, List.length_append] at enough
      omega
  | succ passes ih =>
      rw [drainPasses]
      by_cases empty : txEmpty s = true
      · rw [if_pos empty]
        exact ⟨s, u, rfl, accounts, rfl, Nat.le_refl _, .inl empty⟩
      · rw [if_neg empty]
        by_cases ready : u.ready u.polls = true
        · rw [if_pos ready]
          have next := accounts.pop (by rwa [← txEmpty_eq])
          rw [← Serial.popped_ring] at next
          obtain ⟨s', u', ran, after, kept, more, ends⟩ :=
            ih { s with txHead := (s.txHead + 1) % serialTxBuf }
              { u with polls := u.polls + 1, sent := u.sent ++ [s.txBuf s.txHead.toNat] } next
              (by simp only [List.length_append, List.length_singleton]; omega)
          exact ⟨s', u', ran, after, kept, Nat.le_of_succ_le more,
            ends.imp_right fun busy => ⟨Nat.lt_of_succ_lt busy.1, busy.2⟩⟩
        · rw [if_neg ready]
          exact ⟨_, _, rfl, accounts, rfl, Nat.le_succ _,
            .inr ⟨Nat.lt_succ_self _, Bool.eq_false_iff.mpr ready⟩⟩

/-- What a call of `serial_drain` leaves is left because the UART was not ready. -/
theorem SerialRun.Sound.drained {r : SerialRun} (sound : r.Sound) :
    ∃ r', r.step .drain = some r' ∧ r'.Sound ∧ r'.accepted = r.accepted ∧
      (txEmpty r'.serial = true ∨
        r.uart.polls < r'.uart.polls ∧ r.uart.ready (r'.uart.polls - 1) = false) := by
  obtain ⟨-, -, pending, same, short, -⟩ := RingBuffer.Accounts.counts sound
  have enough : r.accepted.length < r.uart.sent.length + serialTxBuf.toNat := by
    rw [same, List.length_append, show serialTxBuf.toNat = 4096 from rfl]
    omega
  obtain ⟨s', u', ran, accounts, ready, -, ends⟩ :=
    drainPasses_accounts serialTxBuf.toNat r.serial r.uart sound enough
  refine ⟨{ r with serial := s', uart := u' }, ?_, accounts, rfl, ready ▸ ends⟩
  rw [step, serialDrain, ran]
  rfl

theorem SerialRun.Sound.step {r : SerialRun} (sound : r.Sound) (a : SerialAction) :
    ∃ r', r.step a = some r' ∧ r'.Sound := by
  cases a with
  | push c => exact sound.push c
  | drain =>
      obtain ⟨r', ran, after, -⟩ := sound.drained
      exact ⟨r', ran, after⟩

theorem SerialRun.Sound.run {r : SerialRun} (sound : r.Sound) (actions : List SerialAction) :
    ∃ r', actions.foldlM SerialRun.step r = some r' ∧ r'.Sound := by
  induction actions generalizing r with
  | nil => exact ⟨r, rfl, sound⟩
  | cons a rest ih =>
      obtain ⟨next, stepped, after⟩ := sound.step a
      obtain ⟨r', ran, last⟩ := ih after
      exact ⟨r', by rw [List.foldlM_cons, stepped]; exact ran, last⟩

end Serial

/-! ## Both -/

/-- Indices inside an array of `size` characters, and everything accepted was delivered, in order,
up to the characters that are pending: none if the indices are equal, and `size - 1` exactly if
the next one is dropped. -/
def BoundedQueue (size read write : UInt32) (drops : Bool) (accepted delivered : List UInt8) :
    Prop :=
  read < size ∧ write < size ∧ ∃ pending, accepted = delivered ++ pending ∧
    pending.length ≤ size.toNat - 1 ∧ (read = write ↔ pending = []) ∧
    (drops = true ↔ pending.length = size.toNat - 1)

theorem KeyboardRun.Sound.queue {r : KeyboardRun} (sound : r.Sound) :
    BoundedQueue kbdQueueSize r.keyboard.qTail r.keyboard.qHead (!r.keyboard.hasRoom)
      r.accepted r.delivered := by
  obtain ⟨low, low', pending, same, short, empty, full⟩ := sound.accounts.counts
  refine ⟨UInt32.lt_iff_toNat_lt.mpr low, UInt32.lt_iff_toNat_lt.mpr low', pending, same, short,
    r.keyboard.isEmpty_iff.symm.trans empty, Iff.trans ?_ full⟩
  rw [Bool.not_eq_true', ← Bool.not_eq_true, r.keyboard.hasRoom_iff, not_not]

theorem SerialRun.Sound.queue {r : SerialRun} (sound : r.Sound) :
    BoundedQueue serialTxBuf r.serial.txHead r.serial.txTail (txFull r.serial) r.accepted
      r.uart.sent := by
  obtain ⟨low, low', pending, same, short, empty, full⟩ := RingBuffer.Accounts.counts sound
  refine ⟨UInt32.lt_iff_toNat_lt.mpr low, UInt32.lt_iff_toNat_lt.mpr low', pending, same, short,
    ?_, ?_⟩
  · rw [← empty, ← txEmpty_eq, txEmpty, beq_iff_eq]
  · rw [txFull_eq]
    exact full

/-- A call of `kbd_dequeue` made now returns 0 if nothing is pending, and else the first pending
character, whatever the interrupt handler queues between its statements. -/
def KeyboardRun.Answers (r : KeyboardRun) : Prop :=
  (r.accepted = r.delivered → r.step .dequeue = r) ∧
    ∀ first rest, r.accepted = r.delivered ++ first :: rest → ∀ early late,
      (r.call early late).delivered = r.delivered ++ [first] ∧ (r.call early late).reader = .idle

theorem KeyboardRun.Sound.answers {r : KeyboardRun} (sound : r.Sound) (idle : r.reader = .idle) :
    r.Answers := by
  obtain ⟨queue, holds, same⟩ := sound.accounts
  constructor
  · intro all
    rw [all, List.self_eq_append_right] at same
    exact step_dequeue_empty idle (holds.isEmpty_iff.mpr same)
  · intro first rest pending early late
    rw [pending, List.append_cancel_left_eq] at same
    subst same
    have some_ : r.keyboard.ring.isEmpty ≠ true := by
      rw [ne_eq, holds.isEmpty_iff]
      exact List.cons_ne_nil _ _
    have front := (List.cons.inj (holds.front_eq (List.cons_ne_nil _ _))).1
    rw [front]
    exact sound.call idle some_ early late

/-- A call of `serial_drain` made now returns; then everything accepted was sent, or its last read
of the line status register found the UART not ready. -/
def SerialRun.Stops (r : SerialRun) : Prop :=
  ∃ r', r.step .drain = some r' ∧ (r'.uart.sent = r.accepted ∨
    r.uart.polls < r'.uart.polls ∧ r.uart.ready (r'.uart.polls - 1) = false)

theorem SerialRun.Sound.stops {r : SerialRun} (sound : r.Sound) : r.Stops := by
  obtain ⟨r', ran, after, accepted, ends⟩ := sound.drained
  refine ⟨r', ran, ends.imp_left fun empty => ?_⟩
  obtain ⟨queue, holds, same⟩ := after
  rw [txEmpty_eq, holds.isEmpty_iff] at empty
  rw [← accepted, same, empty, List.append_nil]

/-- Whatever is queued between the statements of the reader, and whenever the UART is ready, both
are bounded queues throughout; neither `kbd_dequeue` nor `serial_drain` keeps back a character
that it could deliver, and every call of `serial_drain` returns. -/
theorem queues_bounded :
    (∀ (k : Keyboard) (actions : List KeyboardAction),
      let r := actions.foldl KeyboardRun.step (.start k)
      BoundedQueue kbdQueueSize r.keyboard.qTail r.keyboard.qHead (!r.keyboard.hasRoom)
        r.accepted r.delivered ∧ (r.reader = .idle → r.Answers)) ∧
    ∀ (s : Serial) (ready : Nat → Bool) (actions : List SerialAction),
      ∃ r, actions.foldlM SerialRun.step (.start s ready) = some r ∧
        BoundedQueue serialTxBuf r.serial.txHead r.serial.txTail (txFull r.serial) r.accepted
          r.uart.sent ∧ r.Stops := by
  constructor
  · intro k actions
    have sound := KeyboardRun.sound_run k actions
    exact ⟨sound.queue, sound.answers⟩
  · intro s ready actions
    obtain ⟨r, ran, sound⟩ := SerialRun.Sound.run (SerialRun.sound_start s ready) actions
    exact ⟨r, ran, sound.queue, sound.stops⟩

/-- A character is queued behind the test of the call that delivers the one before; the next call
delivers it.  A UART that is busy at its first poll gets its character with the second call of
`serial_drain`. -/
theorem queues_deliver :
    (let r := ([.enqueue 97, .dequeue, .enqueue 98, .dequeue, .dequeue] : List _).foldl
        KeyboardRun.step (.start ⟨false, false, false, false, fun _ => 0, 5, 7⟩)
     r.delivered = [97] ∧ (r.call [99] []).delivered = [97, 98]) ∧
    ∃ r r', ([.push 97, .drain] : List _).foldlM SerialRun.step
        (.start ⟨fun _ => 0, 5, 7⟩ (· != 0)) = some r ∧
      r.uart.sent = [] ∧ r.step .drain = some r' ∧ r'.uart.sent = [97] := by
  constructor
  · have answers := (queues_bounded.1 ⟨false, false, false, false, fun _ => 0, 5, 7⟩
      [.enqueue 97, .dequeue, .enqueue 98, .dequeue, .dequeue]).2 rfl
    exact ⟨rfl, (answers.2 98 [] rfl [99] []).1⟩
  · obtain ⟨r, ran, -, r', drained, -⟩ :=
      queues_bounded.2 ⟨fun _ => 0, 5, 7⟩ (· != 0) [.push 97, .drain]
    cases ran
    cases drained
    exact ⟨_, _, rfl, rfl, rfl, rfl⟩

end XosKernel.Drivers
