/-
# Drivers.KeyEvents -- scancode streams as key events

A scancode stream is a sequence of key events, each a scancode of its own or one behind the
prefix 0xE0.  `kbd_process_scancode` should end every event with its flag `extended` clear, so
that the next one is decoded from the held keys alone (`Decoded`).  It tests for the shift and
ctrl codes before it looks at the flag: these keep it set, and it swallows the event that
follows.  The decoder is right exactly for the streams without such a code behind the prefix
(`decoded_iff`).
-/
import XosKernel.Drivers.Keyboard

namespace XosKernel.Drivers

open XosKernel.Theory

set_option autoImplicit false

/-! ## Events -/

structure KeyEvent where
  prefixed : Bool
  code : UInt8
  deriving DecidableEq

/-- The scancodes of an event. -/
def KeyEvent.bytes (e : KeyEvent) : List UInt8 := if e.prefixed then [0xE0, e.code] else [e.code]

/-- The complete events of a stream; `pending` says that a prefix came before it. -/
def keyEvents (pending : Bool) : List UInt8 → List KeyEvent
  | [] => []
  | sc :: rest =>
      if sc = 0xE0 then keyEvents true rest else ⟨pending, sc⟩ :: keyEvents false rest

/-- The stream ends behind a prefix. -/
def endsPending (pending : Bool) : List UInt8 → Bool
  | [] => pending
  | sc :: rest => endsPending (sc == 0xE0) rest

/-! ## Decoding -/

/-- The variables after a stream, and the characters that it queues. -/
def decodeBytes (k : Keyboard) : List UInt8 → Keyboard × List UInt8
  | [] => (k, [])
  | sc :: rest =>
      let step := kbdProcessScancode k sc
      let after := decodeBytes step.1 rest
      (after.1, step.2.toList ++ after.2)

/-- The same event by event: every event is decoded with the flag clear, and with the keys that
are held by then. -/
def decodeEvents (k : Keyboard) : List KeyEvent → Keyboard × List UInt8
  | [] => (k, [])
  | e :: rest =>
      let step := decodeBytes { k with extended := false } e.bytes
      let after := decodeEvents step.1 rest
      (after.1, step.2 ++ after.2)

/-- After every complete event the flag is clear, and the characters are those of the events. -/
def Decoded (k : Keyboard) (stream : List UInt8) : Prop :=
  (∀ n, endsPending false (stream.take n) = false →
      (decodeBytes k (stream.take n)).1.extended = false) ∧
    (decodeBytes k stream).2 = (decodeEvents k (keyEvents false stream)).2

/-- The codes of Shift and Ctrl, pressed and released. -/
def IsModifier (sc : UInt8) : Prop :=
  sc = 0x2A ∨ sc = 0x36 ∨ sc = 0xAA ∨ sc = 0xB6 ∨ sc = 0x1D ∨ sc = 0x9D

instance (sc : UInt8) : Decidable (IsModifier sc) :=
  inferInstanceAs (Decidable (_ ∨ _ ∨ _ ∨ _ ∨ _ ∨ _))

/-! ## One scancode -/

section Scancode

variable (k : Keyboard) {sc : UInt8}

@[simp] theorem kbdEnqueue_extended (c : UInt8) : (kbdEnqueue k c).extended = k.extended := by
  unfold kbdEnqueue
  split <;> rfl

@[simp] theorem kbdMarkInterrupt_extended (c : UInt8) :
    (kbdMarkInterruptIfNeeded k c).extended = k.extended := by
  unfold kbdMarkInterruptIfNeeded
  split <;> rfl

theorem processExtended_extended : (processExtended k sc).1.extended = k.extended := by
  unfold processExtended Keyboard.queued
  repeat' split
  all_goals simp

theorem processPlain_extended : (processPlain k sc).1.extended = k.extended := by
  unfold processPlain Keyboard.queued
  dsimp only
  split_ifs <;> simp

theorem process_prefix : kbdProcessScancode k 0xE0 = ({ k with extended := true }, none) := rfl

/-- A modifier leaves the flag. -/
theorem process_modifier (modifier : IsModifier sc) :
    (kbdProcessScancode k sc).1.extended = k.extended := by
  rcases modifier with rfl | rfl | rfl | rfl | rfl | rfl <;> rfl

/-- Every other code clears it. -/
theorem process_other (notPrefix : sc ≠ 0xE0) (other : ¬ IsModifier sc) :
    (kbdProcessScancode k sc).1.extended = false := by
  unfold IsModifier at other
  simp only [not_or] at other
  obtain ⟨shift, shift', unshift, unshift', ctrl, unctrl⟩ := other
  unfold kbdProcessScancode
  rw [if_neg notPrefix, if_neg (not_or.mpr ⟨shift, shift'⟩),
    if_neg (not_or.mpr ⟨unshift, unshift'⟩), if_neg ctrl, if_neg unctrl]
  split
  · exact processExtended_extended _
  · next clear =>
      rw [processPlain_extended]
      exact Bool.eq_false_iff.mpr clear

/-- Without the prefix the flag stays clear. -/
theorem process_clear (notPrefix : sc ≠ 0xE0) (clear : k.extended = false) :
    (kbdProcessScancode k sc).1.extended = false := by
  by_cases modifier : IsModifier sc
  · rw [process_modifier k modifier, clear]
  · exact process_other k notPrefix modifier

end Scancode

/-! ## Streams -/

/-- Is no modifier behind the prefix, the flag says at every place whether a prefix is pending. -/
theorem decodeBytes_extended {pending : Bool} (stream : List UInt8)
    (none_ : ∀ e ∈ keyEvents pending stream, e.prefixed = true → ¬ IsModifier e.code)
    (k : Keyboard) (flag : k.extended = pending) :
    (decodeBytes k stream).1.extended = endsPending pending stream := by
  induction stream generalizing k pending with
  | nil => exact flag
  | cons sc rest ih =>
      rw [keyEvents] at none_
      by_cases isPrefix : sc = 0xE0
      · subst isPrefix
        rw [if_pos rfl] at none_
        exact ih none_ _ rfl
      · rw [if_neg isPrefix] at none_
        rw [endsPending, beq_eq_false_iff_ne.mpr isPrefix]
        refine ih (fun e member => none_ e (List.mem_cons_of_mem _ member)) _ ?_
        by_cases prefixed : pending = true
        · exact process_other k isPrefix (none_ ⟨pending, sc⟩ List.mem_cons_self prefixed)
        · exact process_clear k isPrefix (flag.trans (Bool.eq_false_iff.mpr prefixed))

/-- A modifier behind the prefix leaves the flag set although its event is complete. -/
theorem modifier_keeps_flag {pending : Bool} (stream : List UInt8)
    (event : ∃ e ∈ keyEvents pending stream, e.prefixed = true ∧ IsModifier e.code)
    (k : Keyboard) (flag : k.extended = pending) :
    ∃ n, endsPending pending (stream.take n) = false ∧
      (decodeBytes k (stream.take n)).1.extended = true := by
  induction stream generalizing k pending with
  | nil =>
      obtain ⟨e, member, -⟩ := event
      cases member
  | cons sc rest ih =>
      rw [keyEvents] at event
      by_cases isPrefix : sc = 0xE0
      · subst isPrefix
        rw [if_pos rfl] at event
        obtain ⟨n, complete, set_⟩ := ih event { k with extended := true } rfl
        exact ⟨n + 1, complete, set_⟩
      · rw [if_neg isPrefix] at event
        have complete : (sc == 0xE0) = false := beq_eq_false_iff_ne.mpr isPrefix
        by_cases here : pending = true ∧ IsModifier sc
        · -- the stream up to this code is the one where the flag is wrong
          refine ⟨1, complete, ?_⟩
          show (kbdProcessScancode k sc).1.extended = true
          rw [process_modifier k here.2, flag, here.1]
        · have later : ∃ e ∈ keyEvents false rest, e.prefixed = true ∧ IsModifier e.code := by
            obtain ⟨e, member, bad⟩ := event
            rcases List.mem_cons.mp member with rfl | member
            · exact absurd bad here
            · exact ⟨e, member, bad⟩
          have clear : (kbdProcessScancode k sc).1.extended = false := by
            by_cases prefixed : pending = true
            · exact process_other k isPrefix fun modifier => here ⟨prefixed, modifier⟩
            · exact process_clear k isPrefix (flag.trans (Bool.eq_false_iff.mpr prefixed))
          obtain ⟨n, ends, set_⟩ := ih later _ clear
          refine ⟨n + 1, ?_, set_⟩
          rw [List.take_succ_cons, endsPending, complete]
          exact ends

/-- The events of a stream that is cut off are events of the stream. -/
theorem keyEvents_take {pending : Bool} (stream : List UInt8) (n : Nat) :
    ∀ e ∈ keyEvents pending (stream.take n), e ∈ keyEvents pending stream := by
  induction stream generalizing pending n with
  | nil =>
      intro e member
      rwa [List.take_nil] at member
  | cons sc rest ih =>
      cases n with
      | zero =>
          intro e member
          cases member
      | succ n =>
          intro e member
          rw [List.take_succ_cons, keyEvents] at member
          rw [keyEvents]
          split at member
          · next isPrefix =>
              rw [if_pos isPrefix]
              exact ih n e member
          · next notPrefix =>
              rw [if_neg notPrefix]
              rcases List.mem_cons.mp member with rfl | member
              · exact List.mem_cons_self
              · exact List.mem_cons_of_mem _ (ih n e member)

/-- The flag does not matter for the characters of events. -/
theorem decodeEvents_flag (k : Keyboard) (b : Bool) (events : List KeyEvent) :
    (decodeEvents { k with extended := b } events).2 = (decodeEvents k events).2 := by
  cases events <;> rfl

/-- One scancode that is not the prefix, decoded as its event. -/
theorem decode_event (k : Keyboard) (sc : UInt8) :
    decodeBytes { k with extended := false } (KeyEvent.bytes ⟨k.extended, sc⟩) =
      ((kbdProcessScancode k sc).1, (kbdProcessScancode k sc).2.toList) := by
  obtain ⟨shift, extended, ctrl, interrupt, queue, head, tail⟩ := k
  cases extended <;> simp [KeyEvent.bytes, decodeBytes, process_prefix]

/-- Is no modifier behind the prefix, the characters are those of the events. -/
theorem decodeBytes_chars {pending : Bool} (stream : List UInt8)
    (none_ : ∀ e ∈ keyEvents pending stream, e.prefixed = true → ¬ IsModifier e.code)
    (k : Keyboard) (flag : k.extended = pending) :
    (decodeBytes k stream).2 = (decodeEvents k (keyEvents pending stream)).2 := by
  induction stream generalizing k pending with
  | nil => rfl
  | cons sc rest ih =>
      rw [keyEvents] at none_
      rw [keyEvents]
      by_cases isPrefix : sc = 0xE0
      · subst isPrefix
        rw [if_pos rfl] at none_
        rw [if_pos rfl, ← decodeEvents_flag k true]
        exact ih none_ _ rfl
      · rw [if_neg isPrefix] at none_
        rw [if_neg isPrefix, decodeEvents, ← flag, decode_event, decodeBytes]
        show _ ++ (decodeBytes (kbdProcessScancode k sc).1 rest).2 = _ ++ _
        rw [ih (fun e member => none_ e (List.mem_cons_of_mem _ member))]
        by_cases prefixed : pending = true
        · exact process_other k isPrefix (none_ ⟨pending, sc⟩ List.mem_cons_self prefixed)
        · exact process_clear k isPrefix (flag.trans (Bool.eq_false_iff.mpr prefixed))

/-- A stream is decoded event by event exactly if it has no Shift or Ctrl code behind the
prefix. -/
theorem decoded_iff (k : Keyboard) (stream : List UInt8) :
    Decoded { k with extended := false } stream ↔
      ∀ e ∈ keyEvents false stream, e.prefixed = true → ¬ IsModifier e.code := by
  constructor
  · intro decoded e member prefixed modifier
    obtain ⟨n, complete, set_⟩ := modifier_keeps_flag stream ⟨e, member, prefixed, modifier⟩
      { k with extended := false } rfl
    rw [decoded.1 n complete] at set_
    cases set_
  · intro none_
    refine ⟨fun n complete => ?_, decodeBytes_chars stream none_ _ rfl⟩
    rw [decodeBytes_extended (stream.take n) (fun e member =>
      none_ e (keyEvents_take stream n e member)) _ rfl, complete]

/-- The variables as the compiler initializes them. -/
def Keyboard.start : Keyboard where
  shiftHeld := false
  extended := false
  ctrlHeld := false
  interruptRequested := false
  queue _ := 0
  qHead := 0
  qTail := 0

/-- Right Ctrl, then `c`: the letter is swallowed where Ctrl+C is due. -/
theorem right_ctrl_letter_lost :
    (decodeBytes Keyboard.start [0xE0, 0x1D, 0x2E]).2 = [] ∧
      (decodeEvents Keyboard.start (keyEvents false [0xE0, 0x1D, 0x2E])).2 = [3] ∧
      ¬ Decoded Keyboard.start [0xE0, 0x1D, 0x2E] := by
  refine ⟨by decide, by decide, fun decoded => ?_⟩
  exact absurd decoded.2 (by decide)

end XosKernel.Drivers
