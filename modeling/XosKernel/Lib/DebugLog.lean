/-
# Lib.DebugLog -- the log of `debuglog.c`, and the three places that `printf` writes to

Every character that `printf` prints goes to the screen, to the log, and, while logging is on, to
the serial port.  The log keeps the first characters that it gets, with an end marker behind
them, and then only notes that there were more (`Recorded`).

`debug_log_dump` prints the log with `printf`, which adds to the log what it prints.  While
logging is on, the string therefore grows as it is read, and the dump goes round until the log is
full (`dump_prints`).
-/
import XosKernel.Lib.Printf
import XosKernel.Theory.Bytes
import Mathlib.Data.List.GetD
import Mathlib.Data.List.TakeWhile
import Mathlib.Logic.Function.Basic

namespace XosKernel.Lib

open XosKernel.Theory

set_option autoImplicit false

/-! ## `debuglog.c` -/

/-- `DEBUG_LOG_SIZE` -/
def debugLogSize : Nat := 16384

/-- The variables of `debuglog.c`. -/
structure DebugLog where
  debugLog : Buf
  debugLogPos : Nat
  debugLogOverflow : Bool
  debugLogEnabled : Bool
  debugPrintEnabled : Bool

/-- `debug_log_init`, with the defaults of the build. -/
def debugLogInit (logDefault printDefault : Bool) (d : DebugLog) : DebugLog where
  debugLog := fun i => if i < debugLogSize then 0 else d.debugLog i
  debugLogPos := 0
  debugLogOverflow := false
  debugLogEnabled := logDefault
  debugPrintEnabled := printDefault

/-- `debug_log_putchar` -/
def debugLogPutchar (d : DebugLog) (c : UInt8) : DebugLog :=
  if !d.debugLogEnabled then d
  else if d.debugLogPos < debugLogSize - 1 then
    { d with
      debugLog := Function.update (Function.update d.debugLog d.debugLogPos c) (d.debugLogPos + 1) 0
      debugLogPos := d.debugLogPos + 1 }
  else { d with debugLogOverflow := true }

/-- `debug_log_set_enabled` -/
def debugLogSetEnabled (d : DebugLog) (enabled : Bool) : DebugLog :=
  { d with debugLogEnabled := enabled }

/-! ## `put_char` -/

/-- The log, and the characters that `vga_putchar_raw` and `serial_putchar` got, oldest first. -/
structure Console where
  log : DebugLog
  screen : List UInt8
  serial : List UInt8

/-- `put_char` -/
def putChar (o : Console) (c : UInt8) : Console where
  log := debugLogPutchar o.log c
  screen := o.screen ++ [c]
  serial := if (debugLogPutchar o.log c).debugLogEnabled then o.serial ++ [c] else o.serial

/-- A text, one character after the other. -/
def Console.print (o : Console) (text : List UInt8) : Console := text.foldl putChar o

/-- The loop at `%s` for the string `debug_log`, from its `i`th character on. -/
def printLog : Nat → Nat → Console → Option Console
  | 0, _, _ => none
  | fuel + 1, i, o =>
      if o.log.debugLog i = 0 then some o
      else printLog fuel (i + 1) (putChar o (o.log.debugLog i))

/-- `debug_log_dump` -/
def debugLogDump (o : Console) : Option Console :=
  match printLog debugLogSize 0 (o.print (ascii "\n[DEBUG LOG] ")) with
  | none => none
  | some o =>
      let o := o.print (ascii "\n")
      some (if o.log.debugLogOverflow then o.print (ascii "[DEBUG LOG] buffer overflowed\n") else o)

/-! ## What the log keeps -/

/-- The log got a text: it has the first characters of it, and knows whether they are all. -/
structure Recorded (d : DebugLog) (text : List UInt8) : Prop where
  pos : d.debugLogPos = min text.length (debugLogSize - 1)
  kept : ∀ i, i < d.debugLogPos → d.debugLog i = text.getD i 0
  ended : d.debugLog d.debugLogPos = 0
  overflow : d.debugLogOverflow = decide (debugLogSize - 1 < text.length)

theorem recorded_init (logDefault printDefault : Bool) (d : DebugLog) :
    Recorded (debugLogInit logDefault printDefault d) [] where
  pos := rfl
  kept _ below := absurd below (Nat.not_lt_zero _)
  ended := rfl
  overflow := rfl

@[simp] theorem debugLogPutchar_enabled (d : DebugLog) (c : UInt8) :
    (debugLogPutchar d c).debugLogEnabled = d.debugLogEnabled := by
  unfold debugLogPutchar
  split_ifs <;> rfl

theorem debugLogPutchar_off {d : DebugLog} (off : d.debugLogEnabled = false) (c : UInt8) :
    debugLogPutchar d c = d := by
  simp [debugLogPutchar, off]

theorem getD_append_single {text : List UInt8} {c : UInt8} {i : Nat} :
    (text ++ [c]).getD i 0 = if i = text.length then c else text.getD i 0 := by
  rcases Nat.lt_trichotomy i text.length with before | rfl | behind
  · rw [if_neg (Nat.ne_of_lt before), List.getD_append _ _ _ _ before]
  · simp
  · have after : ¬ i < text.length := Nat.not_lt.mpr (Nat.le_of_lt behind)
    have past : (text ++ [c]).length ≤ i := by simpa using Nat.succ_le_of_lt behind
    rw [if_neg (Nat.ne_of_gt behind), List.getD_eq_default _ _ past,
      List.getD_eq_default _ _ (Nat.not_lt.mp after)]

/-- One character more. -/
theorem Recorded.putchar {d : DebugLog} {text : List UInt8} (recorded : Recorded d text)
    (on : d.debugLogEnabled = true) (c : UInt8) :
    Recorded (debugLogPutchar d c) (text ++ [c]) := by
  obtain ⟨pos, kept, ended, overflow⟩ := recorded
  have length : (text ++ [c]).length = text.length + 1 := by simp
  by_cases room : d.debugLogPos < debugLogSize - 1
  · have here : d.debugLogPos = text.length := by omega
    have put : debugLogPutchar d c = { d with
        debugLog := Function.update (Function.update d.debugLog d.debugLogPos c)
          (d.debugLogPos + 1) 0
        debugLogPos := d.debugLogPos + 1 } := by
      simp [debugLogPutchar, on, room]
    rw [put]
    refine ⟨?_, fun i below => ?_, Function.update_self .., ?_⟩
    · dsimp only
      omega
    · change i < d.debugLogPos + 1 at below
      change Function.update (Function.update d.debugLog d.debugLogPos c) _ 0 i = _
      rw [Function.update_of_ne (Nat.ne_of_lt below), getD_append_single, here]
      by_cases last : i = text.length
      · rw [last, Function.update_self, if_pos rfl]
      · rw [Function.update_of_ne last, if_neg last]
        exact kept i (by omega)
    · change d.debugLogOverflow = _
      rw [overflow]
      exact decide_eq_decide.mpr (by omega)
  · have full : debugLogSize - 1 ≤ text.length := by omega
    have put : debugLogPutchar d c = { d with debugLogOverflow := true } := by
      simp [debugLogPutchar, on, room]
    rw [put]
    refine ⟨?_, fun i below => ?_, ended, ?_⟩
    · dsimp only
      omega
    · change i < d.debugLogPos at below
      rw [getD_append_single, if_neg (by omega)]
      exact kept i below
    · exact (decide_eq_true (by omega)).symm

theorem print_append (o : Console) (first second : List UInt8) :
    o.print (first ++ second) = (o.print first).print second := List.foldl_append

@[simp] theorem print_enabled (o : Console) (text : List UInt8) :
    (o.print text).log.debugLogEnabled = o.log.debugLogEnabled := by
  induction text generalizing o with
  | nil => rfl
  | cons c text ih => exact (ih (putChar o c)).trans (debugLogPutchar_enabled o.log c)

theorem print_serial (o : Console) (text : List UInt8) :
    (o.print text).serial = o.serial ++ if o.log.debugLogEnabled then text else [] := by
  induction text generalizing o with
  | nil => simp [Console.print]
  | cons c text ih =>
      refine (ih (putChar o c)).trans ?_
      simp only [putChar, debugLogPutchar_enabled]
      cases o.log.debugLogEnabled with
      | true => simp
      | false => simp

theorem print_log_off {o : Console} (off : o.log.debugLogEnabled = false) (text : List UInt8) :
    (o.print text).log = o.log := by
  induction text generalizing o with
  | nil => rfl
  | cons c text ih =>
      have same : (putChar o c).log = o.log := debugLogPutchar_off off c
      refine (ih (o := putChar o c) ?_).trans same
      rw [same]
      exact off

theorem Recorded.print {o : Console} {text : List UInt8} (recorded : Recorded o.log text)
    (on : o.log.debugLogEnabled = true) (more : List UInt8) :
    Recorded (o.print more).log (text ++ more) := by
  induction more generalizing o text with
  | nil =>
      rw [List.append_nil]
      exact recorded
  | cons c more ih =>
      have rest := ih (o := putChar o c) (recorded.putchar on c)
        ((debugLogPutchar_enabled o.log c).trans on)
      rwa [List.append_assoc] at rest

/-! ## The dump -/

/-- The loop shows a string whose characters it finds where it comes to them. -/
theorem printLog_eq {o : Console} {shown : List UInt8}
    (found : ∀ i, i ≤ shown.length → (o.print (shown.take i)).log.debugLog i = shown.getD i 0) :
    ∀ fuel i, i ≤ shown.length → shown.length < fuel + i →
      printLog fuel i (o.print (shown.take i)) =
        some (o.print (shown.take i ++ (shown.drop i).takeWhile (· != 0))) := by
  intro fuel
  induction fuel with
  | zero => exact fun i inside enough => absurd enough (by omega)
  | succ fuel ih =>
      intro i inside enough
      rw [printLog, found i inside]
      by_cases last : i = shown.length
      · rw [last, List.getD_eq_default _ _ (Nat.le_refl _), if_pos rfl, List.drop_length]
        simp
      · have before : i < shown.length := Nat.lt_of_le_of_ne inside last
        have next : shown.drop i = shown.getD i 0 :: shown.drop (i + 1) := by
          rw [List.getD_eq_getElem _ _ before]
          exact List.drop_eq_getElem_cons before
        have grown : shown.take (i + 1) = shown.take i ++ [shown.getD i 0] := by
          rw [List.getD_eq_getElem _ _ before]
          exact (List.take_append_getElem before).symm
        by_cases ends : shown.getD i 0 = 0
        · rw [if_pos ends, next, ends]
          simp
        · have step := ih (i + 1) before (by omega)
          rw [grown, print_append, List.append_assoc] at step
          rw [if_neg ends, next, List.takeWhile_cons, if_pos (bne_iff_ne.mpr ends)]
          exact step

theorem printLog_all {o : Console} {shown : List UInt8} {fuel : Nat} (enough : shown.length < fuel)
    (found : ∀ i, i ≤ shown.length → (o.print (shown.take i)).log.debugLog i = shown.getD i 0) :
    printLog fuel 0 o = some (o.print (shown.takeWhile (· != 0))) :=
  printLog_eq found fuel 0 (Nat.zero_le _) enough

/-- A text over and over, up to a length. -/
def cycle (text : List UInt8) (n : Nat) : List UInt8 :=
  (List.range n).map fun i => text.getD (i % text.length) 0

theorem getD_cycle {text : List UInt8} {n i : Nat} (inside : i < n) :
    (cycle text n).getD i 0 = text.getD (i % text.length) 0 := by
  rw [List.getD_eq_getElem _ _ (by simpa [cycle] using inside)]
  simp [cycle]

/-- What the log shows while `%s` prints it, when it got `text` before. -/
def dumped (enabled : Bool) (text : List UInt8) : List UInt8 :=
  (if enabled then
    cycle ((text ++ ascii "\n[DEBUG LOG] ").take (debugLogSize - 1)) (debugLogSize - 1)
  else text.take (debugLogSize - 1)).takeWhile (· != 0)

/-- What the dump prints before it looks at `debug_log_overflow`. -/
def dumpHead (enabled : Bool) (text : List UInt8) : List UInt8 :=
  ascii "\n[DEBUG LOG] " ++ dumped enabled text ++ ascii "\n"

/-- All that `debug_log_dump` prints. -/
def dumpText (enabled : Bool) (text : List UInt8) : List UInt8 :=
  dumpHead enabled text ++
    if debugLogSize - 1 < (text ++ if enabled then dumpHead enabled text else []).length then
      ascii "[DEBUG LOG] buffer overflowed\n" else []

/-- What the loop finds in a log that is on: its own text again. -/
theorem found_on {o : Console} {text : List UInt8} (recorded : Recorded o.log text)
    (on : o.log.debugLogEnabled = true) (some_ : text ≠ []) {i : Nat}
    (inside : i ≤ debugLogSize - 1) :
    let shown := cycle (text.take (debugLogSize - 1)) (debugLogSize - 1)
    (o.print (shown.take i)).log.debugLog i = shown.getD i 0 := by
  intro shown
  have size : shown.length = debugLogSize - 1 := by simp [shown, cycle]
  have least := List.length_pos_iff.mpr some_
  obtain ⟨pos, kept, ended, -⟩ := recorded.print on (shown.take i)
  rw [List.length_append, List.length_take, size, Nat.min_eq_left inside] at pos
  by_cases last : i = debugLogSize - 1
  · have full : (o.print (shown.take i)).log.debugLogPos = i := by omega
    rw [full] at ended
    rw [ended, List.getD_eq_default _ _ (by omega)]
  · have before : i < debugLogSize - 1 := Nat.lt_of_le_of_ne inside last
    have width : (text.take (debugLogSize - 1)).length = min (debugLogSize - 1) text.length :=
      List.length_take
    rw [kept i (by omega), getD_cycle before]
    have front {j : Nat} (low : j < min (debugLogSize - 1) text.length) :
        (text.take (debugLogSize - 1)).getD j 0 = text.getD j 0 := by
      rw [List.getD_eq_getElem _ _ (width ▸ low), List.getD_eq_getElem _ _ (by omega),
        List.getElem_take]
    by_cases first : i < text.length
    · rw [List.getD_append _ _ _ _ first, width, Nat.mod_eq_of_lt (by omega), front (by omega)]
    · -- Here the loop reads what it wrote a round before.
      have round : i - text.length < i := by omega
      have back : (shown.take i).getD (i - text.length) 0 = shown.getD (i - text.length) 0 := by
        rw [List.getD_eq_getElem _ _ (by rw [List.length_take]; omega),
          List.getD_eq_getElem _ _ (by omega), List.getElem_take]
      rw [List.getD_append_right _ _ _ _ (Nat.not_lt.mp first), back, getD_cycle (by omega), width,
        Nat.min_eq_right (by omega), ← Nat.mod_eq_sub_mod (Nat.not_lt.mp first)]

/-- What the loop finds in a log that is off. -/
theorem found_off {o : Console} {text : List UInt8} (recorded : Recorded o.log text)
    (off : o.log.debugLogEnabled = false) {i : Nat}
    (inside : i ≤ (text.take (debugLogSize - 1)).length) :
    (o.print ((text.take (debugLogSize - 1)).take i)).log.debugLog i =
      (text.take (debugLogSize - 1)).getD i 0 := by
  obtain ⟨pos, kept, ended, -⟩ := recorded
  have width : (text.take (debugLogSize - 1)).length = min (debugLogSize - 1) text.length :=
    List.length_take
  rw [print_log_off off]
  by_cases last : i = o.log.debugLogPos
  · rw [last, ended, List.getD_eq_default _ _ (by omega)]
  · rw [kept i (by omega), List.getD_eq_getElem _ _ (by omega), List.getD_eq_getElem _ _ (by omega),
      List.getElem_take]

/-- `debug_log_dump` returns, and does what printing its text does. -/
theorem dump_prints {o : Console} {text : List UInt8} (recorded : Recorded o.log text) :
    debugLogDump o = some (o.print (dumpText o.log.debugLogEnabled text)) := by
  have loop : printLog debugLogSize 0 (o.print (ascii "\n[DEBUG LOG] ")) =
      some (o.print (ascii "\n[DEBUG LOG] " ++ dumped o.log.debugLogEnabled text)) := by
    rw [print_append]
    cases enabled : o.log.debugLogEnabled with
    | true =>
        have again := recorded.print enabled (ascii "\n[DEBUG LOG] ")
        have size (t : List UInt8) : (cycle t (debugLogSize - 1)).length = debugLogSize - 1 := by
          simp [cycle]
        have some_ : text ++ ascii "\n[DEBUG LOG] " ≠ [] :=
          List.append_ne_nil_of_right_ne_nil _ (by decide)
        have short (t : List UInt8) : (cycle t (debugLogSize - 1)).length < debugLogSize := by
          rw [size]
          decide
        refine printLog_all (short _) fun i inside => ?_
        exact found_on again ((print_enabled _ _).trans enabled) some_
          (inside.trans_eq (size _))
    | false =>
        have same := print_log_off enabled (ascii "\n[DEBUG LOG] ")
        have most : (text.take (debugLogSize - 1)).length < debugLogSize :=
          (List.length_take ..).trans_lt (Nat.lt_of_le_of_lt (Nat.min_le_left _ _) (by decide))
        exact printLog_all most fun i inside => found_off (same.symm ▸ recorded)
          ((print_enabled _ _).trans enabled) inside
  have flag : (o.print (dumpHead o.log.debugLogEnabled text)).log.debugLogOverflow =
      decide (debugLogSize - 1 < (text ++ if o.log.debugLogEnabled then
        dumpHead o.log.debugLogEnabled text else []).length) := by
    cases enabled : o.log.debugLogEnabled with
    | true => exact (recorded.print enabled (dumpHead true text)).overflow
    | false =>
        rw [print_log_off enabled, recorded.overflow]
        simp
  unfold debugLogDump
  rw [loop]
  dsimp only
  rw [← print_append]
  change some (if (o.print (dumpHead o.log.debugLogEnabled text)).log.debugLogOverflow then _
    else _) = _
  rw [flag, dumpText]
  by_cases more : debugLogSize - 1 < (text ++ if o.log.debugLogEnabled then
      dumpHead o.log.debugLogEnabled text else []).length
  · rw [if_pos more, if_pos (decide_eq_true more), print_append, print_append, dumpHead,
      print_append, print_append, print_append]
  · rw [if_neg more, if_neg (by simpa using more), List.append_nil]
    rfl

/-! ## Runs -/

/-- What the kernel does with the console. -/
inductive ConsoleOp where
  | print (text : List UInt8)
  | setEnabled (enabled : Bool)
  | dump

def Console.step (o : Console) : ConsoleOp → Option Console
  | .print text => some (o.print text)
  | .setEnabled enabled => some { o with log := debugLogSetEnabled o.log enabled }
  | .dump => debugLogDump o

def Console.run (o : Console) : List ConsoleOp → Option Console
  | [] => some o
  | op :: ops => (o.step op).bind fun o => Console.run o ops

/-- Printing keeps the log in step with the serial port. -/
theorem print_logs {o : Console} {text : List UInt8} (recorded : Recorded o.log text)
    (more : List UInt8) : ∃ logged, (o.print more).serial = o.serial ++ logged ∧
      Recorded (o.print more).log (text ++ logged) := by
  refine ⟨_, print_serial o more, ?_⟩
  cases enabled : o.log.debugLogEnabled with
  | true => exact recorded.print enabled more
  | false =>
      rw [print_log_off enabled]
      simpa using recorded

theorem step_logs {o : Console} {text : List UInt8} (recorded : Recorded o.log text)
    (op : ConsoleOp) : ∃ o' logged, o.step op = some o' ∧ o'.serial = o.serial ++ logged ∧
      Recorded o'.log (text ++ logged) := by
  cases op with
  | print more =>
      obtain ⟨logged, serial, after⟩ := print_logs recorded more
      exact ⟨_, logged, rfl, serial, after⟩
  | setEnabled enabled =>
      refine ⟨_, [], rfl, (List.append_nil _).symm, ?_⟩
      rw [List.append_nil]
      exact ⟨recorded.pos, recorded.kept, recorded.ended, recorded.overflow⟩
  | dump =>
      obtain ⟨logged, serial, after⟩ := print_logs recorded (dumpText o.log.debugLogEnabled text)
      exact ⟨_, logged, dump_prints recorded, serial, after⟩

theorem run_logs {ops : List ConsoleOp} : ∀ {o : Console} {text : List UInt8},
    Recorded o.log text → ∃ o' logged, o.run ops = some o' ∧ o'.serial = o.serial ++ logged ∧
      Recorded o'.log (text ++ logged) := by
  induction ops with
  | nil =>
      intro o text recorded
      exact ⟨o, [], rfl, (List.append_nil _).symm, by rwa [List.append_nil]⟩
  | cons op ops ih =>
      intro o text recorded
      obtain ⟨o₁, first, stepped, serial₁, recorded₁⟩ := step_logs recorded op
      obtain ⟨o₂, second, ran, serial₂, recorded₂⟩ := ih recorded₁
      refine ⟨o₂, first ++ second, ?_, ?_, ?_⟩
      · rw [Console.run, stepped]
        exact ran
      · rw [serial₂, serial₁, List.append_assoc]
      · rwa [List.append_assoc] at recorded₂

/-- After `debug_log_init` every run of prints, of switching the log on and off, and of dumps
ends.  The log has then the first 16383 characters of what the serial port got, ended by a zero,
and its flag says whether there were more.  A dump of a log that is on and has no zero in it
prints it over and over, with its own heading in it, until the log is full, and says that it
overflowed. -/
theorem console_logs (logDefault printDefault : Bool) (o : Console) (ops : List ConsoleOp) :
    ∃ o' logged,
      Console.run { o with log := debugLogInit logDefault printDefault o.log } ops = some o' ∧
      o'.serial = o.serial ++ logged ∧ Recorded o'.log logged ∧
      (o'.log.debugLogEnabled = true → 0 ∉ logged →
        o'.step .dump = some (o'.print (ascii "\n[DEBUG LOG] " ++
          cycle ((logged ++ ascii "\n[DEBUG LOG] ").take (debugLogSize - 1)) (debugLogSize - 1) ++
          ascii "\n" ++ ascii "[DEBUG LOG] buffer overflowed\n"))) := by
  obtain ⟨o', logged, ran, serial, recorded⟩ := @run_logs ops
    { o with log := debugLogInit logDefault printDefault o.log } []
    (recorded_init logDefault printDefault o.log)
  rw [List.nil_append] at recorded
  refine ⟨o', logged, ran, serial, recorded, fun on plain => ?_⟩
  rw [Console.step, dump_prints recorded, on]
  have heading : (0 : UInt8) ∉ ascii "\n[DEBUG LOG] " := by decide
  have whole : dumped true logged =
      cycle ((logged ++ ascii "\n[DEBUG LOG] ").take (debugLogSize - 1)) (debugLogSize - 1) := by
    rw [dumped, if_pos rfl]
    refine List.takeWhile_eq_self_iff.mpr fun c member => bne_iff_ne.mpr ?_
    rintro rfl
    obtain ⟨i, -, is⟩ := List.mem_map.mp member
    have least : 0 < ((logged ++ ascii "\n[DEBUG LOG] ").take (debugLogSize - 1)).length := by
      have some_ : 0 < (ascii "\n[DEBUG LOG] ").length := by decide
      rw [List.length_take, List.length_append]
      unfold debugLogSize
      omega
    rw [List.getD_eq_getElem _ _ (Nat.mod_lt i least)] at is
    have inText := List.mem_of_mem_take (is ▸ List.getElem_mem (Nat.mod_lt i least))
    exact (List.mem_append.mp inText).elim plain heading
  have full : debugLogSize - 1 < (logged ++ if true then dumpHead true logged else []).length := by
    rw [if_pos rfl, dumpHead, whole]
    simp only [List.length_append, cycle, List.length_map, List.length_range]
    have heading : 0 < (ascii "\n[DEBUG LOG] ").length := by decide
    omega
  rw [dumpText, if_pos full, dumpHead, whole]

end XosKernel.Lib
