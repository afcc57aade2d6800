/-
# Drivers.AtaProtocol -- what the transfers of `ata.c` do at the ports

One lemma for each command of the driver, against any device: the accesses it makes, that they
obey the watch of the channel, and the task file they lead to.  Waits and delays read status
registers and nothing else (`Aside`); a transfer moves whole sectors (`Moved`).
-/
import XosKernel.Drivers.AtaPorts

namespace XosKernel.Drivers

open XosKernel.Theory
open XosKernel.Fat32 (Channel DriveSelect)

set_option autoImplicit false

variable {dev : Device} {base ctrl : Nat} {h t u : List Access}

@[simp] theorem wordsIn_append : wordsIn base (t ++ u) = wordsIn base t ++ wordsIn base u :=
  List.filterMap_append

@[simp] theorem wordsOut_append : wordsOut base (t ++ u) = wordsOut base t ++ wordsOut base u :=
  List.filterMap_append

@[simp] theorem wordsIn_nil : wordsIn base [] = [] := rfl

@[simp] theorem wordsOut_nil : wordsOut base [] = [] := rfl

@[simp] theorem wordsIn_output {bits port value : Nat} :
    wordsIn base (.output bits port value :: t) = wordsIn base t := rfl

@[simp] theorem wordsOut_input {bits port value : Nat} :
    wordsOut base (.input bits port value :: t) = wordsOut base t := rfl

@[simp] theorem wordsOut_byte {port value : Nat} :
    wordsOut base (.output 8 port value :: t) = wordsOut base t := by
  simp [wordsOut]

@[simp] theorem wordsIn_word {value : Nat} :
    wordsIn base (.input 16 base value :: t) = value :: wordsIn base t := by
  simp [wordsIn]

@[simp] theorem wordsOut_word {value : Nat} :
    wordsOut base (.output 16 base value :: t) = value :: wordsOut base t := by
  simp [wordsOut]

/-! ## Waits -/

/-- Only the status and the alternate status are read. -/
def Aside (base ctrl : Nat) (t : List Access) : Prop :=
  ∀ a ∈ t, ∃ s, a = .input 8 (base + 7) s ∨ a = .input 8 ctrl s

theorem Aside.append (first : Aside base ctrl t) (second : Aside base ctrl u) :
    Aside base ctrl (t ++ u) := by
  intro a member
  exact (List.mem_append.mp member).elim (first a) (second a)

theorem Aside.obeys (aside : Aside base ctrl t) : ∀ f, (ataWatch base).Obeys f t := by
  induction t with
  | nil => exact fun _ => trivial
  | cons a t ih =>
      intro f
      refine ⟨?_, ih (fun b member => aside b (List.mem_cons_of_mem _ member)) _⟩
      obtain ⟨s, rfl | rfl⟩ := aside a List.mem_cons_self
      · exact fun wide => absurd wide (by decide)
      · exact fun wide => absurd wide (by decide)

/-- Reading a status leaves the transfer as it is. -/
theorem Aside.after (aside : Aside base ctrl t) (f : TaskFile) :
    (ataWatch base).after f t = { f with status := ((ataWatch base).after f t).status } := by
  induction t generalizing f with
  | nil => rfl
  | cons a t ih =>
      have rest := ih (fun b member => aside b (List.mem_cons_of_mem _ member))
      have first : (ataWatch base).step f a =
          { f with status := ((ataWatch base).step f a).status } := by
        obtain ⟨s, rfl | rfl⟩ := aside a List.mem_cons_self
        · simp [ataWatch, TaskFile.step]
        · by_cases same : ctrl = base + 7
          · simp [ataWatch, TaskFile.step, same]
          · simp [ataWatch, TaskFile.step, same]
      rw [Watch.after_cons, rest, first]

theorem Aside.words (aside : Aside base ctrl t) : wordsIn base t = [] ∧ wordsOut base t = [] := by
  constructor
  · refine List.filterMap_eq_nil_iff.mpr fun a member => ?_
    obtain ⟨s, rfl | rfl⟩ := aside a member
    · exact if_neg (by simp)
    · exact if_neg (by simp)
  · refine List.filterMap_eq_nil_iff.mpr fun a member => ?_
    obtain ⟨s, rfl | rfl⟩ := aside a member <;> rfl

theorem aside_status (s : Nat) : Aside base ctrl [.input 8 (base + 7) s] := by
  intro a member
  rw [List.mem_singleton] at member
  exact ⟨s, .inl member⟩

theorem aside_nil : Aside base ctrl [] := fun _ member => absurd member List.not_mem_nil

theorem aside_cons {a : Access} (first : ∃ s, a = .input 8 (base + 7) s ∨ a = .input 8 ctrl s)
    (rest : Aside base ctrl t) : Aside base ctrl (a :: t) := by
  intro b member
  rcases List.mem_cons.mp member with rfl | later
  · exact first
  · exact rest b later

theorem ataDelay400ns_talks (base : Nat) : Talks dev (ataDelay400ns dev ctrl) h fun _ t =>
    Aside base ctrl t ∧ t.length = 4 := by
  unfold ataDelay400ns ataRead
  refine Talks.input_bind fun s₁ => Talks.input_bind fun s₂ => Talks.input_bind fun s₃ =>
    Talks.input_bind fun s₄ => Talks.pure ⟨?_, rfl⟩
  exact aside_cons ⟨s₁, .inr rfl⟩ (aside_cons ⟨s₂, .inr rfl⟩ (aside_cons ⟨s₃, .inr rfl⟩
    (aside_cons ⟨s₄, .inr rfl⟩ aside_nil)))

theorem ataDeviceExists_talks (ctrl : Nat) : Talks dev (ataDeviceExists dev base) h fun _ t =>
    Aside base ctrl t ∧ t.length = 2 := by
  unfold ataDeviceExists ataRead
  refine Talks.input_bind fun s₁ => Talks.input_bind fun s₂ => Talks.pure ⟨?_, rfl⟩
  exact aside_cons ⟨s₁, .inl rfl⟩ (aside_cons ⟨s₂, .inl rfl⟩ aside_nil)

theorem ataWaitBsyClear_talks (ctrl timeout : Nat) {h : List Access} :
    Talks dev (ataWaitBsyClear dev base timeout) h fun r t => Aside base ctrl t ∧
      t.length ≤ timeout ∧ (r = 0 → ∀ f, ((ataWatch base).after f t).Idle) := by
  induction timeout generalizing h with
  | zero => exact Talks.pure ⟨aside_nil, Nat.le_refl 0, fun impossible => by cases impossible⟩
  | succ timeout ih =>
      unfold ataWaitBsyClear ataRead
      refine Talks.input_bind fun s => ?_
      have status : Aside base ctrl [.input 8 (base + 7) s] := aside_status s
      split
      · rename_i idle
        split
        · exact Talks.pure ⟨status, Nat.succ_le_succ (Nat.zero_le _),
            fun impossible => by cases impossible⟩
        · refine Talks.pure ⟨status, Nat.succ_le_succ (Nat.zero_le _), fun _ f => ⟨s, ?_, idle⟩⟩
          simp [ataWatch, TaskFile.step]
      · refine Talks.mono ih ?_
        rintro r t ⟨aside, length, idle⟩
        exact ⟨aside_cons ⟨s, .inl rfl⟩ aside, Nat.succ_le_succ length,
          fun zero f => idle zero _⟩

theorem ataWaitDrq_talks (ctrl timeout : Nat) {h : List Access} :
    Talks dev (ataWaitDrq dev base timeout) h fun r t => Aside base ctrl t ∧
      t.length ≤ timeout ∧ (r = 0 → ∀ f, ((ataWatch base).after f t).Ready) := by
  induction timeout generalizing h with
  | zero => exact Talks.pure ⟨aside_nil, Nat.le_refl 0, fun impossible => by cases impossible⟩
  | succ timeout ih =>
      unfold ataWaitDrq ataRead
      refine Talks.input_bind fun s => ?_
      have status : Aside base ctrl [.input 8 (base + 7) s] := aside_status s
      split
      · exact Talks.pure ⟨status, Nat.succ_le_succ (Nat.zero_le _),
          fun impossible => by cases impossible⟩
      rename_i works
      split
      · rename_i ready
        refine Talks.pure ⟨status, Nat.succ_le_succ (Nat.zero_le _), fun _ f =>
          ⟨s, ?_, ready.1, ready.2, not_not.mp works⟩⟩
        simp [ataWatch, TaskFile.step]
      · refine Talks.mono ih ?_
        rintro r t ⟨aside, length, ready⟩
        exact ⟨aside_cons ⟨s, .inl rfl⟩ aside, Nat.succ_le_succ length,
          fun zero f => ready zero _⟩

/-! ## The command -/

/-- The task file when a command was just given. -/
def loaded (drive : DriveSelect) (lba count command : Nat) : TaskFile where
  count := (count &&& 0xFF) % 2 ^ 8
  lba0 := (lba &&& 0xFF) % 2 ^ 8
  lba1 := (lba >>> 8 &&& 0xFF) % 2 ^ 8
  lba2 := (lba >>> 16 &&& 0xFF) % 2 ^ 8
  device := (0xE0 ||| driveBit drive <<< 4 ||| (lba >>> 24 &&& 0x0F)) % 2 ^ 8
  command := command

/-- Both transfers begin politely, move no word, and leave the task file loaded. -/
theorem ataSelect_talks (channel : Channel) (drive : DriveSelect) (lba count : Nat)
    {command : Nat} (small : command < 256) (other : command ≠ ataCmdCacheFlush) :
    Talks dev (ataSelect dev channel drive lba count command) h fun ok t =>
      (∀ f, (ataWatch (ataGetIoBase channel)).Obeys f t) ∧ t.length ≤ 200012 ∧
        wordsIn (ataGetIoBase channel) t = [] ∧ wordsOut (ataGetIoBase channel) t = [] ∧
        (ok = true → ∀ f,
          (ataWatch (ataGetIoBase channel)).after f t = loaded drive lba count command) := by
  unfold ataSelect
  simp only
  generalize ataGetIoBase channel = base
  generalize ataGetCtrlBase channel = ctrl
  refine Talks.bind (ataDeviceExists_talks ctrl) ?_
  rintro exists_ t₁ ⟨aside₁, length₁⟩
  have done : ∀ u : List Access, Aside base ctrl u → u.length ≤ 200012 →
      (∀ f, (ataWatch base).Obeys f u) ∧ u.length ≤ 200012 ∧ wordsIn base u = [] ∧
        wordsOut base u = [] ∧ (false = true → ∀ f,
          (ataWatch base).after f u = loaded drive lba count command) :=
    fun u aside length => ⟨aside.obeys, length, aside.words.1, aside.words.2,
      fun impossible => by cases impossible⟩
  split
  swap
  · exact Talks.pure (by
      rw [List.append_nil]
      exact done t₁ aside₁ (by omega))
  refine Talks.bind (ataWaitBsyClear_talks ctrl 100000) ?_
  rintro r₂ t₂ ⟨aside₂, length₂, idle₂⟩
  split
  · refine Talks.pure ?_
    rw [List.append_nil]
    exact done _ (aside₁.append aside₂) (by rw [List.length_append]; omega)
  rename_i zero₂
  have idle := idle₂ (not_not.mp zero₂)
  refine Talks.output_bind (Talks.bind (ataDelay400ns_talks base) ?_)
  rintro _ t₃ ⟨aside₃, length₃⟩
  refine Talks.bind (ataWaitBsyClear_talks ctrl 100000) ?_
  rintro r₄ t₄ ⟨aside₄, length₄, idle₄⟩
  have selects : ∀ f value, (ataWatch base).allows ((ataWatch base).after ((ataWatch base).after f t₁) t₂)
      (.output 8 (base + 6) value) :=
    fun f value => ⟨fun wide => absurd wide (by decide), fun _ _ _ _ => idle _⟩
  split
  · refine Talks.pure ⟨fun f => ?_, ?_, ?_, ?_, fun impossible => by cases impossible⟩
    · simp only [Watch.obeys_append, Watch.obeys_cons, aside₁.obeys, aside₂.obeys, aside₃.obeys,
        aside₄.obeys, Watch.obeys_nil, selects, and_self]
    · simp only [List.length_append, List.length_cons, List.length_nil]
      omega
    · simp [aside₁.words.1, aside₂.words.1, aside₃.words.1, aside₄.words.1]
    · simp [aside₁.words.2, aside₂.words.2, aside₃.words.2, aside₄.words.2]
  rename_i zero₄
  have idle' := idle₄ (not_not.mp zero₄)
  refine Talks.output_bind (Talks.output_bind (Talks.output_bind (Talks.output_bind
    (Talks.output_bind (Talks.pure ⟨fun f => ?_, ?_, ?_, ?_, fun _ f => ?_⟩)))))
  · simp only [Watch.obeys_append, Watch.obeys_cons, aside₁.obeys, aside₂.obeys, aside₃.obeys,
      aside₄.obeys, selects, true_and]
    -- the registers do not change the status that was waited for
    generalize (ataWatch base).step _ _ = g
    obtain ⟨s, status, clear⟩ := idle' ((ataWatch base).after g t₃)
    generalize (ataWatch base).after _ t₄ = g₄ at status
    simp [ataWatch, TaskFile.allows, TaskFile.step, TaskFile.Idle, status, clear]
  · simp only [List.length_append, List.length_cons, List.length_nil]
    omega
  · simp [aside₁.words.1, aside₂.words.1, aside₃.words.1, aside₄.words.1]
  · simp [aside₁.words.2, aside₂.words.2, aside₃.words.2, aside₄.words.2]
  · simp only [Watch.after_append, Watch.after_cons, Watch.after_nil]
    rw [aside₄.after, aside₃.after]
    simp [ataWatch, TaskFile.step, loaded, other, Nat.mod_eq_of_lt small]

/-! ## Reading -/

/-- Words stored one behind the other. -/
def putWords (buffer : Buf) (at_ : Nat) : List Nat → Buf
  | [] => buffer
  | word :: words => putWords (buffer.putLe at_ 2 word) (at_ + 2) words

theorem putWords_append (buffer : Buf) (at_ : Nat) (ws vs : List Nat) :
    putWords buffer at_ (ws ++ vs) = putWords (putWords buffer at_ ws) (at_ + 2 * ws.length) vs := by
  induction ws generalizing buffer at_ with
  | nil => rfl
  | cons w ws ih =>
      rw [List.cons_append, putWords, putWords, ih, List.length_cons]
      congr 1
      omega

/-- Nothing is written. -/
def Reads (t : List Access) : Prop := ∀ a ∈ t, ∃ bits port value, a = .input bits port value

theorem Reads.append (first : Reads t) (second : Reads u) : Reads (t ++ u) := by
  intro a member
  exact (List.mem_append.mp member).elim (first a) (second a)

theorem Aside.reads (aside : Aside base ctrl t) : Reads t := by
  intro a member
  obtain ⟨s, rfl | rfl⟩ := aside a member
  · exact ⟨_, _, _, rfl⟩
  · exact ⟨_, _, _, rfl⟩

theorem TaskFile.Ready.moved {f : TaskFile} (ready : f.Ready) (more : (f.words + 1) % 256 ≠ 0) :
    f.moved.Ready := by
  obtain ⟨s, status, rest⟩ := ready
  exact ⟨s, by rw [TaskFile.moved, if_neg more]; exact status, rest⟩

/-- The words of a sector, read while the drive is ready. -/
theorem ataReadWords_talks (n : Nat) {buffer : Buf} {at_ : Nat} {h : List Access} {f : TaskFile}
    (ready : 0 < n → f.Ready) (fits : f.words % 256 + n ≤ 256) :
    Talks dev (ataReadWords dev base n buffer at_) h fun b t =>
      (ataWatch base).Obeys f t ∧ Reads t ∧ t.length = n ∧ (wordsIn base t).length = n ∧
        wordsOut base t = [] ∧ b = putWords buffer at_ (wordsIn base t) ∧
        ((ataWatch base).after f t).words = f.words + n := by
  induction n generalizing buffer at_ h f with
  | zero => exact Talks.pure ⟨trivial, by simp [Reads], rfl, rfl, rfl, rfl, rfl⟩
  | succ n ih =>
      unfold ataReadWords ataReadWord
      refine Talks.input_bind fun word => ?_
      have here : (ataWatch base).step f (.input 16 base word) = f.moved := by
        simp [ataWatch, TaskFile.step]
      have ready' : 0 < n → f.moved.Ready := fun more =>
        (ready (Nat.succ_pos n)).moved (by omega)
      have fits' : f.moved.words % 256 + n ≤ 256 ∨ n = 0 := by
        change (f.words + 1) % 256 + n ≤ 256 ∨ n = 0
        omega
      have rest : f.moved.words % 256 + n ≤ 256 := by
        rcases fits' with small | rfl
        · exact small
        · have := Nat.mod_lt f.moved.words (show 0 < 256 by decide)
          omega
      refine Talks.mono (ih ready' rest) ?_
      rintro b t ⟨obeys, reads, length, count, out, stored, words⟩
      have allowed : (ataWatch base).allows f (.input 16 base word) :=
        fun _ _ => ready (Nat.succ_pos n)
      refine ⟨⟨allowed, by rw [Nat.add_zero, here]; exact obeys⟩, ?_, by rw [List.length_cons, length],
        ?_, ?_, ?_,
        ?_⟩
      · intro a member
        rcases List.mem_cons.mp member with rfl | later
        · exact ⟨_, _, _, rfl⟩
        · exact reads a later
      · rw [Nat.add_zero, wordsIn_word, List.length_cons, count]
      · rw [wordsOut_input, out]
      · rw [Nat.add_zero, wordsIn_word, putWords]
        exact stored
      · rw [Watch.after_cons, Nat.add_zero, here, words]
        change f.words + 1 + n = _
        omega

/-- The loop over the sectors moves whole sectors, each after the drive was ready for it. -/
theorem ataReadLoop_talks (sectors : Nat) {buffer : Buf} {at_ : Nat} {h : List Access}
    {f : TaskFile} (whole : f.words % 256 = 0) :
    Talks dev (ataReadLoop dev base ctrl sectors buffer at_) h fun r t =>
      (ataWatch base).Obeys f t ∧ Reads t ∧ t.length ≤ sectors * 500264 ∧ wordsOut base t = [] ∧
        r.2 = putWords buffer at_ (wordsIn base t) ∧
        ∃ k, (wordsIn base t).length = 256 * k ∧
          (r.1 = true ∧ k = sectors ∨ r.1 = false ∧ k < sectors) := by
  induction sectors generalizing buffer at_ h f with
  | zero =>
      exact Talks.pure ⟨trivial, by simp [Reads], Nat.le_refl _, rfl, rfl, 0, rfl, .inl ⟨rfl, rfl⟩⟩
  | succ sectors ih =>
      unfold ataReadLoop
      refine Talks.bind (ataDelay400ns_talks base) ?_
      rintro _ t₁ ⟨aside₁, length₁⟩
      refine Talks.bind (ataWaitDrq_talks ctrl 500000) ?_
      rintro r₂ t₂ ⟨aside₂, length₂, ready₂⟩
      have aside := aside₁.append aside₂
      split
      · refine Talks.pure ⟨?_, ?_, ?_, ?_, ?_, 0, ?_, .inr ⟨rfl, Nat.succ_pos _⟩⟩
        · simp only [Watch.obeys_append, aside₁.obeys, aside₂.obeys, Watch.obeys_nil, and_self]
        · rw [List.append_nil]
          exact aside.reads
        · simp only [List.length_append, List.length_nil]
          omega
        · simp [aside₁.words.2, aside₂.words.2]
        · simp [aside₁.words.1, aside₂.words.1, putWords]
        · simp [aside₁.words.1, aside₂.words.1]
      rename_i zero₂
      -- the status that was waited for lets a sector through
      have words : ∀ f', f' = (ataWatch base).after f (t₁ ++ t₂) → f'.words = f.words := by
        rintro f' rfl
        rw [aside.after]
      obtain ⟨g, is⟩ : ∃ g, g = (ataWatch base).after f (t₁ ++ t₂) := ⟨_, rfl⟩
      have ready : g.Ready := by
        rw [is, Watch.after_append]
        exact ready₂ (not_not.mp zero₂) _
      have same := words g is
      refine Talks.bind (ataReadWords_talks 256 (f := g) (fun _ => ready) (by omega)) ?_
      rintro b t₃ ⟨obeys₃, reads₃, length₃, count₃, out₃, stored₃, words₃⟩
      refine Talks.bind (ataDelay400ns_talks base) ?_
      rintro _ t₄ ⟨aside₄, length₄⟩
      have whole' : ((ataWatch base).after ((ataWatch base).after g t₃) t₄).words % 256 = 0 := by
        rw [aside₄.after]
        change ((ataWatch base).after g t₃).words % 256 = 0
        omega
      refine Talks.mono (ih whole') ?_
      rintro ⟨ok, buffer'⟩ t₅ ⟨obeys₅, reads₅, length₅, out₅, stored₅, k, count₅, how⟩
      refine ⟨?_, ?_, ?_, ?_, ?_, k + 1, ?_, ?_⟩
      · simp only [Watch.obeys_append, aside₁.obeys, aside₂.obeys, aside₄.obeys, true_and]
        rw [← Watch.after_append, ← is]
        exact ⟨obeys₃, obeys₅⟩
      · exact aside₁.reads.append (aside₂.reads.append (reads₃.append (aside₄.reads.append reads₅)))
      · simp only [List.length_append]
        omega
      · simp [aside₁.words.2, aside₂.words.2, out₃, aside₄.words.2, out₅]
      · simp only at stored₅ ⊢
        simp only [wordsIn_append, aside₁.words.1, aside₂.words.1, aside₄.words.1, List.nil_append]
        rw [putWords_append, stored₅, stored₃, count₃]
      · simp only [wordsIn_append, aside₁.words.1, aside₂.words.1, aside₄.words.1, List.nil_append,
          List.length_append, count₃, count₅]
        omega
      · rcases how with ⟨all, rfl⟩ | ⟨part, less⟩
        · exact .inl ⟨all, rfl⟩
        · exact .inr ⟨part, Nat.succ_lt_succ less⟩

/-! ## Writing -/

/-- The words of a buffer from an offset on. -/
def bufferWords (buffer : Buf) (at_ : Nat) : Nat → List Nat
  | 0 => []
  | n + 1 => buffer.le at_ 2 :: bufferWords buffer (at_ + 2) n

theorem bufferWords_add (buffer : Buf) (at_ m n : Nat) :
    bufferWords buffer at_ (m + n) =
      bufferWords buffer at_ m ++ bufferWords buffer (at_ + 2 * m) n := by
  induction m generalizing at_ with
  | zero => rw [Nat.zero_add]; rfl
  | succ m ih =>
      rw [Nat.succ_add, bufferWords, bufferWords, ih, List.cons_append]
      congr 3
      omega

/-- What is written are data words and flushes. -/
def Transfers (base : Nat) (t : List Access) : Prop :=
  ∀ a ∈ t, (∃ bits port value, a = .input bits port value) ∨ (∃ value, a = .output 16 base value) ∨
    a = .output 8 (base + 7) ataCmdCacheFlush

theorem Transfers.append (first : Transfers base t) (second : Transfers base u) :
    Transfers base (t ++ u) := by
  intro a member
  exact (List.mem_append.mp member).elim (first a) (second a)

theorem Reads.transfers (reads : Reads t) : Transfers base t := fun a member => .inl (reads a member)

theorem ataWriteWords_talks (n : Nat) {buffer : Buf} {at_ : Nat} {h : List Access} {f : TaskFile}
    (ready : 0 < n → f.Ready) (fits : f.words % 256 + n ≤ 256) :
    Talks dev (ataWriteWords base buffer n at_) h fun _ t =>
      (ataWatch base).Obeys f t ∧ Transfers base t ∧ t.length = n ∧ wordsIn base t = [] ∧
        wordsOut base t = bufferWords buffer at_ n ∧
        ((ataWatch base).after f t).words = f.words + n := by
  induction n generalizing at_ h f with
  | zero => exact Talks.pure ⟨trivial, by simp [Transfers], rfl, rfl, rfl, rfl⟩
  | succ n ih =>
      unfold ataWriteWords ataWriteWord
      refine Talks.output_bind ?_
      have small : buffer.le at_ 2 % 2 ^ 16 = buffer.le at_ 2 :=
        Nat.mod_eq_of_lt (Buf.le_lt buffer at_ 2)
      rw [small]
      simp only [Nat.add_zero]
      have here : (ataWatch base).step f (.output 16 base (buffer.le at_ 2)) = f.moved := by
        simp [ataWatch, TaskFile.step]
      have ready' : 0 < n → f.moved.Ready := fun more =>
        (ready (Nat.succ_pos n)).moved (by omega)
      have rest : f.moved.words % 256 + n ≤ 256 := by
        change (f.words + 1) % 256 + n ≤ 256
        omega
      refine Talks.mono (ih ready' rest) ?_
      rintro _ t ⟨obeys, transfers, length, in_, out, words⟩
      have allowed : (ataWatch base).allows f (.output 16 base (buffer.le at_ 2)) :=
        ⟨fun _ _ => ready (Nat.succ_pos n), fun narrow => absurd narrow (by decide)⟩
      refine ⟨⟨allowed, by rw [here]; exact obeys⟩, ?_, by rw [List.length_cons, length], ?_, ?_, ?_⟩
      · intro a member
        rcases List.mem_cons.mp member with rfl | later
        · exact .inr (.inl ⟨_, rfl⟩)
        · exact transfers a later
      · rw [wordsIn_output, in_]
      · rw [wordsOut_word, out, bufferWords]
      · rw [Watch.after_cons, here, words]
        change f.words + 1 + n = _
        omega

/-- The loop over the sectors sends whole sectors of the buffer, each after the drive was ready
for it and with a flush behind it. -/
theorem ataWriteLoop_talks (sectors : Nat) {buffer : Buf} {at_ : Nat} {h : List Access}
    {f : TaskFile} (whole : f.words % 256 = 0) :
    Talks dev (ataWriteLoop dev base buffer sectors at_) h fun ok t =>
      (ataWatch base).Obeys f t ∧ Transfers base t ∧ t.length ≤ sectors * 1000257 ∧
        wordsIn base t = [] ∧ ∃ k, wordsOut base t = bufferWords buffer at_ (256 * k) ∧
          (ok = true ∧ k = sectors ∨ ok = false ∧ k ≤ sectors) := by
  induction sectors generalizing at_ h f with
  | zero =>
      exact Talks.pure ⟨trivial, by simp [Transfers], Nat.le_refl _, rfl, 0, rfl, .inl ⟨rfl, rfl⟩⟩
  | succ sectors ih =>
      unfold ataWriteLoop
      refine Talks.bind (ataWaitDrq_talks (ataGetCtrlBase .primary) 500000) ?_
      rintro r₁ t₁ ⟨aside₁, length₁, ready₁⟩
      split
      · refine Talks.pure ⟨?_, ?_, ?_, ?_, 0, ?_, .inr ⟨rfl, Nat.zero_le _⟩⟩
        · simp only [Watch.obeys_append, aside₁.obeys, Watch.obeys_nil, and_self]
        · rw [List.append_nil]
          exact aside₁.reads.transfers
        · simp only [List.length_append, List.length_nil]
          omega
        · simp [aside₁.words.1]
        · simp [aside₁.words.2, bufferWords]
      rename_i zero₁
      have ready := ready₁ (not_not.mp zero₁) f
      obtain ⟨g, is⟩ : ∃ g, g = (ataWatch base).after f t₁ := ⟨_, rfl⟩
      have same : g.words = f.words := by
        rw [is, aside₁.after]
      rw [← is] at ready
      refine Talks.bind (ataWriteWords_talks 256 (f := g) (fun _ => ready) (by omega)) ?_
      rintro _ t₂ ⟨obeys₂, transfers₂, length₂, in₂, out₂, words₂⟩
      refine Talks.output_bind (Talks.bind
        (ataWaitBsyClear_talks (ataGetCtrlBase .primary) 500000) ?_)
      rintro r₃ t₃ ⟨aside₃, length₃, idle₃⟩
      have flush : ataCmdCacheFlush % 2 ^ 8 = ataCmdCacheFlush := rfl
      rw [flush]
      obtain ⟨g₂, is₂⟩ : ∃ g₂, g₂ = (ataWatch base).after g t₂ := ⟨_, rfl⟩
      have allowed : (ataWatch base).allows g₂ (.output 8 (base + 7) ataCmdCacheFlush) :=
        ⟨fun wide => absurd wide (by decide), fun _ _ _ other => absurd rfl other⟩
      have flushed : ((ataWatch base).step g₂ (.output 8 (base + 7) ataCmdCacheFlush)).words =
          g₂.words := by
        simp [ataWatch, TaskFile.step]
      have sends : Transfers base (.output 8 (base + 7) ataCmdCacheFlush :: t₃) := by
        intro a member
        rcases List.mem_cons.mp member with rfl | later
        · exact .inr (.inr rfl)
        · exact aside₃.reads.transfers a later
      split
      · refine Talks.pure ⟨?_, ?_, ?_, ?_, 1, ?_, .inr ⟨rfl, by omega⟩⟩
        · simp only [Watch.obeys_append, Watch.obeys_cons, aside₁.obeys, aside₃.obeys,
            Watch.obeys_nil, true_and, and_true]
          rw [← is, ← is₂]
          exact ⟨obeys₂, allowed⟩
        · rw [List.append_nil]
          exact aside₁.reads.transfers.append (transfers₂.append sends)
        · simp only [List.length_append, List.length_cons, List.length_nil]
          omega
        · simp [aside₁.words.1, in₂, aside₃.words.1]
        · simp [aside₁.words.2, out₂, aside₃.words.2]
      have whole' : ((ataWatch base).after ((ataWatch base).step g₂
          (.output 8 (base + 7) ataCmdCacheFlush)) t₃).words % 256 = 0 := by
        rw [aside₃.after]
        change ((ataWatch base).step g₂ _).words % 256 = 0
        rw [flushed, is₂, words₂]
        omega
      refine Talks.mono (ih whole') ?_
      rintro ok t₄ ⟨obeys₄, transfers₄, length₄, in₄, k, out₄, how⟩
      refine ⟨?_, ?_, ?_, ?_, k + 1, ?_, ?_⟩
      · simp only [Watch.obeys_append, Watch.obeys_cons, aside₁.obeys, aside₃.obeys, true_and]
        rw [← is, ← is₂]
        exact ⟨obeys₂, allowed, obeys₄⟩
      · rw [← List.cons_append]
        exact aside₁.reads.transfers.append (transfers₂.append (sends.append transfers₄))
      · simp only [List.length_append, List.length_cons]
        omega
      · simp [aside₁.words.1, in₂, aside₃.words.1, in₄]
      · simp only [wordsOut_append, wordsOut_byte, aside₁.words.2, aside₃.words.2, out₂, out₄,
          List.nil_append]
        rw [show 256 * (k + 1) = 256 + 256 * k by omega, bufferWords_add]
      · rcases how with ⟨all, rfl⟩ | ⟨part, less⟩
        · exact .inl ⟨all, rfl⟩
        · exact .inr ⟨part, Nat.succ_le_succ less⟩

end XosKernel.Drivers
