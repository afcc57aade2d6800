/-
# Drivers.AtaTransfers -- the transfers of `ata.c` and the drives they talk to

`ata_read_sectors` and `ata_write_sectors` come to an end at any device, keep to the protocol
of the channel and move whole sectors (`ataReadSectors_obeys`, `ataWriteSectors_obeys`).
Behind a drive that delivers and stores the sectors it is asked for they are the transfers of
`Fat32.Ata` that the file system is built on (`ataReadSectors_refines`,
`ataWriteSectors_refines`): the low 28 bits of the LBA, and a failure after some sectors.

Such a drive takes its sector count from an 8-bit register, where 0 stands for 256, so this is
for at most 256 sectors.
-/
import XosKernel.Drivers.AtaProtocol

namespace XosKernel.Drivers

open XosKernel.Theory
open XosKernel.Fat32 (Channel DriveSelect Ata lba28)

set_option autoImplicit false

variable {dev : Device} {base : Nat} {h t : List Access}

/-! ## Any device -/

/-- How a read of `count` sectors ends after it moved `k` of them. -/
def ReadEnds (count k : Nat) (r : Int) : Prop := r = count ∧ k = count ∨ r = -1 ∧ k ≤ count - 1

/-- A run of `ata_read_sectors` from the task file `f`: a beginning that moves no word and leaves
the task file `first`, and a body that only reads. -/
structure ReadRun (base : Nat) (f first : TaskFile) (count : Nat) (buffer : Buf) (r : Int × Buf)
    (setup body : List Access) : Prop where
  obeys : (ataWatch base).Obeys f (setup ++ body)
  length : (setup ++ body).length ≤ 200012 + count * 500264
  before : wordsIn base setup = []
  out : wordsOut base (setup ++ body) = []
  reads : Reads body
  begins : body ≠ [] → (ataWatch base).after f setup = first
  stored : r.2 = putWords buffer 0 (wordsIn base body)
  whole : ∃ k, (wordsIn base body).length = 256 * k ∧ ReadEnds count k r.1

theorem ataReadSectors_talks (channel : Channel) (drive : DriveSelect) (lba count : Nat)
    (buffer : Buf) (f : TaskFile) :
    Talks dev (ataReadSectors dev channel drive lba count buffer) h fun r t =>
      ∃ setup body, t = setup ++ body ∧ ReadRun (ataGetIoBase channel) f
        (loaded drive lba count ataCmdReadPio) count buffer r setup body := by
  unfold ataReadSectors
  refine Talks.bind (ataSelect_talks channel drive lba count (by decide) (by decide)) ?_
  rintro ok setup ⟨obeys, length, in_, out, after⟩
  split
  swap
  · refine Talks.pure ⟨setup, [], rfl, ?_, ?_, in_, ?_, ?_, fun nonempty => absurd rfl nonempty,
      rfl, 0, rfl, .inr ⟨rfl, Nat.zero_le _⟩⟩
    · rw [List.append_nil]
      exact obeys f
    · rw [List.append_nil]
      omega
    · rw [List.append_nil, out]
    · simp [Reads]
  rename_i selected
  have whole : ((ataWatch (ataGetIoBase channel)).after f setup).words % 256 = 0 := by
    rw [after selected]
    rfl
  refine Talks.bind (ataReadLoop_talks count whole) ?_
  rintro ⟨all, buffer'⟩ body ⟨obeys', reads, length', out', stored, k, moved, how⟩
  have run : ∀ r : Int, ReadEnds count k r → ∃ setup' body', setup ++ (body ++ []) = setup' ++ body' ∧
      ReadRun (ataGetIoBase channel) f (loaded drive lba count ataCmdReadPio) count buffer
        (r, buffer') setup' body' := by
    intro r ends
    refine ⟨setup, body, by rw [List.append_nil], ?_, ?_, in_, ?_, reads, fun _ => after selected f,
      stored, k, moved, ends⟩
    · rw [Watch.obeys_append]
      exact ⟨obeys f, obeys'⟩
    · rw [List.length_append]
      omega
    · rw [wordsOut_append, out, out']
      rfl
  rcases how with ⟨yes, all_⟩ | ⟨no, less⟩
  · simp only at yes
    subst yes
    exact Talks.pure (run _ (.inl ⟨rfl, all_⟩))
  · simp only at no
    subst no
    exact Talks.pure (run _ (.inr ⟨rfl, by omega⟩))

/-- Whatever the device answers, `ata_read_sectors` returns after a bounded number of accesses
that obey the protocol.  It fills the buffer with the words that it read, in their order and
in whole sectors: with `count` sectors and the result `count`, or with fewer and -1. -/
theorem ataReadSectors_obeys (dev : Device) (h : List Access) (channel : Channel)
    (drive : DriveSelect) (lba count : Nat) (buffer : Buf) :
    Talks dev (ataReadSectors dev channel drive lba count buffer) h fun r t =>
      (ataWatch (ataGetIoBase channel)).Obeys (taskFile (ataGetIoBase channel) h) t ∧
        t.length ≤ 200012 + count * 500264 ∧ wordsOut (ataGetIoBase channel) t = [] ∧
        r.2 = putWords buffer 0 (wordsIn (ataGetIoBase channel) t) ∧
        ∃ k, (wordsIn (ataGetIoBase channel) t).length = 256 * k ∧ ReadEnds count k r.1 := by
  refine Talks.mono (ataReadSectors_talks channel drive lba count buffer
    (taskFile (ataGetIoBase channel) h)) ?_
  rintro r t ⟨setup, body, rfl, run⟩
  rw [wordsIn_append, run.before, List.nil_append]
  exact ⟨run.obeys, run.length, run.out, run.stored, run.whole⟩

/-! ## A drive that delivers its sectors -/

/-- The channel delivers the words of the sectors that a read command asks for, when it is
ready for them. -/
def Serves (dev : Device) (channel : Channel) (media : DriveSelect → Nat → Buf) : Prop :=
  ∀ h f, f = taskFile (ataGetIoBase channel) h → f.command = ataCmdReadPio → f.Ready →
    f.words < 256 * f.sectors →
    dev h 16 (ataGetIoBase channel) % 2 ^ 16 =
      (media f.drive (f.lba + f.words / 256)).le (2 * (f.words % 256)) 2

/-- The words of consecutive sectors. -/
def mediaWord (media : Nat → Buf) (lba i : Nat) : Nat :=
  (media (lba + i / 256)).le (2 * (i % 256)) 2

theorem taskFile_append (base : Nat) (h t : List Access) :
    taskFile base (h ++ t) = (ataWatch base).after (taskFile base h) t :=
  (ataWatch base).after_append _ h t

/-- An access that is no write leaves the transfer, but for its words and its status. -/
theorem step_read (base : Nat) (f : TaskFile) (bits port value : Nat) :
    ∃ status, (ataWatch base).step f (.input bits port value) = { f with
      words := f.words + (wordsIn base [.input bits port value]).length, status } := by
  by_cases data : bits = 16 ∧ port = base
  · obtain ⟨rfl, rfl⟩ := data
    exact ⟨_, by simp [ataWatch, TaskFile.step, TaskFile.moved]; rfl⟩
  · by_cases status : bits = 8 ∧ port = base + 7
    · refine ⟨some value, ?_⟩
      simp [ataWatch, TaskFile.step, status, wordsIn]
    · refine ⟨f.status, ?_⟩
      simp [ataWatch, TaskFile.step, status, data, wordsIn]

/-- What is read from such a drive are the words of the sectors, in order. -/
theorem Serves.words {channel : Channel} {media : DriveSelect → Nat → Buf}
    (serves : Serves dev channel media) : ∀ (body h : List Access) (f : TaskFile),
    f = taskFile (ataGetIoBase channel) h → (ataWatch (ataGetIoBase channel)).Obeys f body →
    Heard dev h body → Reads body → f.command = ataCmdReadPio →
    f.words + (wordsIn (ataGetIoBase channel) body).length ≤ 256 * f.sectors →
    wordsIn (ataGetIoBase channel) body =
      (List.range' f.words (wordsIn (ataGetIoBase channel) body).length).map
        (mediaWord (media f.drive) f.lba)
  | [], _, _, _, _, _, _, _, _ => rfl
  | a :: body, h, f, is, obeys, heard, reads, command, room => by
      obtain ⟨bits, port, value, rfl⟩ := reads a List.mem_cons_self
      obtain ⟨allowed, obeys'⟩ := obeys
      obtain ⟨answer, heard'⟩ := heard
      obtain ⟨status, step⟩ := step_read (ataGetIoBase channel) f bits port value
      have split : wordsIn (ataGetIoBase channel) (.input bits port value :: body) =
          wordsIn (ataGetIoBase channel) [.input bits port value] ++
            wordsIn (ataGetIoBase channel) body := wordsIn_append (t := [_])
      rw [split, List.length_append] at room
      have rest := serves.words body (h ++ [.input bits port value])
        ((ataWatch (ataGetIoBase channel)).step f (.input bits port value))
        (by rw [taskFile_append, ← is]; rfl) obeys' heard'
        (fun b member => reads b (List.mem_cons_of_mem _ member))
        (by rw [step]; exact command)
        (by
          rw [step]
          change f.words + _ + _ ≤ 256 * f.sectors
          omega)
      rw [split, rest, step, List.length_append, List.length_map, List.length_range',
        ← List.range'_append_1, List.map_append]
      congr 1
      by_cases data : bits = 16 ∧ port = ataGetIoBase channel
      · obtain ⟨rfl, rfl⟩ := data
        rw [wordsIn_word, wordsIn_nil] at room ⊢
        rw [List.length_cons, List.length_nil] at room
        have word := serves h f is command (allowed rfl rfl) (by omega)
        rw [answer, word]
        rfl
      · have nothing : wordsIn (ataGetIoBase channel) [.input bits port value] = [] := by
          simp [wordsIn, data]
        rw [nothing]
        rfl

/-- How a write of `count` sectors ends after it sent `k` of them: the last flush may fail. -/
def WriteEnds (count k : Nat) (r : Int) : Prop := r = count ∧ k = count ∨ r = -1 ∧ k ≤ count

/-- A run of `ata_write_sectors`: a beginning that moves no word and leaves the task file
`first`, and a body of data words, flushes and waits. -/
structure WriteRun (base : Nat) (f first : TaskFile) (count : Nat) (buffer : Buf) (r : Int)
    (setup body : List Access) : Prop where
  obeys : (ataWatch base).Obeys f (setup ++ body)
  length : (setup ++ body).length ≤ 200012 + count * 1000257
  before : wordsOut base setup = []
  in_ : wordsIn base (setup ++ body) = []
  transfers : Transfers base body
  begins : body ≠ [] → (ataWatch base).after f setup = first
  sent : ∃ k, wordsOut base body = bufferWords buffer 0 (256 * k) ∧ WriteEnds count k r

theorem ataWriteSectors_talks (channel : Channel) (drive : DriveSelect) (lba count : Nat)
    (buffer : Buf) (f : TaskFile) :
    Talks dev (ataWriteSectors dev channel drive lba count buffer) h fun r t =>
      ∃ setup body, t = setup ++ body ∧ WriteRun (ataGetIoBase channel) f
        (loaded drive lba count ataCmdWritePio) count buffer r setup body := by
  unfold ataWriteSectors
  refine Talks.bind (ataSelect_talks channel drive lba count (by decide) (by decide)) ?_
  rintro ok setup ⟨obeys, length, in_, out, after⟩
  split
  swap
  · refine Talks.pure ⟨setup, [], rfl, ?_, ?_, out, ?_, ?_, fun nonempty => absurd rfl nonempty,
      0, rfl, .inr ⟨rfl, Nat.zero_le _⟩⟩
    · rw [List.append_nil]
      exact obeys f
    · rw [List.append_nil]
      omega
    · rw [List.append_nil, in_]
    · simp [Transfers]
  rename_i selected
  have whole : ((ataWatch (ataGetIoBase channel)).after f setup).words % 256 = 0 := by
    rw [after selected]
    rfl
  refine Talks.bind (ataWriteLoop_talks count whole) ?_
  rintro all body ⟨obeys', transfers, length', in_', k, sent, how⟩
  have run : ∀ r : Int, WriteEnds count k r → ∃ setup' body',
      setup ++ (body ++ []) = setup' ++ body' ∧
      WriteRun (ataGetIoBase channel) f (loaded drive lba count ataCmdWritePio) count buffer r
        setup' body' := by
    intro r ends
    refine ⟨setup, body, by rw [List.append_nil], ?_, ?_, out, ?_, transfers,
      fun _ => after selected f, k, sent, ends⟩
    · rw [Watch.obeys_append]
      exact ⟨obeys f, obeys'⟩
    · rw [List.length_append]
      omega
    · rw [wordsIn_append, in_, in_']
      rfl
  rcases how with ⟨rfl, all_⟩ | ⟨rfl, less⟩
  · exact Talks.pure (run _ (.inl ⟨rfl, all_⟩))
  · exact Talks.pure (run _ (.inr ⟨rfl, less⟩))

/-- Whatever the device answers, `ata_write_sectors` returns after a bounded number of accesses
that obey the protocol, but for the flushes.  It sends the words of the buffer in their order
and in whole sectors: `count` of them with the result `count`, or -1. -/
theorem ataWriteSectors_obeys (dev : Device) (h : List Access) (channel : Channel)
    (drive : DriveSelect) (lba count : Nat) (buffer : Buf) :
    Talks dev (ataWriteSectors dev channel drive lba count buffer) h fun r t =>
      (ataWatch (ataGetIoBase channel)).Obeys (taskFile (ataGetIoBase channel) h) t ∧
        t.length ≤ 200012 + count * 1000257 ∧ wordsIn (ataGetIoBase channel) t = [] ∧
        ∃ k, wordsOut (ataGetIoBase channel) t = bufferWords buffer 0 (256 * k) ∧
          WriteEnds count k r := by
  refine Talks.mono (ataWriteSectors_talks channel drive lba count buffer
    (taskFile (ataGetIoBase channel) h)) ?_
  rintro r t ⟨setup, body, rfl, run⟩
  rw [wordsOut_append, run.before, List.nil_append]
  exact ⟨run.obeys, run.length, run.in_, run.sent⟩

/-! ## A drive that stores its sectors -/

/-- The access is the last word of a sector that a write command asked for. -/
def Completes (base : Nat) (f : TaskFile) (a : Access) : Prop :=
  ∃ value, a = .output 16 base value ∧ f.command = ataCmdWritePio ∧ f.Ready ∧
    f.words < 256 * f.sectors ∧ f.words % 256 = 255

/-- The channel stores a sector with its last word, and changes nothing otherwise.  So it goes
on with a transfer when it is given a flush in the middle. -/
structure Stores (channel : Channel) (disk : List Access → DriveSelect → Nat → Buf) : Prop where
  stores : ∀ h a f, f = taskFile (ataGetIoBase channel) h →
    Completes (ataGetIoBase channel) f a → ∀ d l, disk (h ++ [a]) d l =
      if d = f.drive ∧ l = f.lba + f.words / 256 then
        putWords (fun _ => 0) 0 ((wordsOut (ataGetIoBase channel) (h ++ [a])).drop
          ((wordsOut (ataGetIoBase channel) (h ++ [a])).length - 256))
      else disk h d l
  keeps : ∀ h a, ¬ Completes (ataGetIoBase channel) (taskFile (ataGetIoBase channel) h) a →
    disk (h ++ [a]) = disk h

/-- A sector of words. -/
def sectorOf (words : List Nat) : Buf := putWords (fun _ => 0) 0 words

/-- In the middle of a write from the task file `f₀` the words `sent` went out, and the disk has
the whole sectors of them. -/
structure Storing (channel : Channel) (disk : List Access → DriveSelect → Nat → Buf)
    (before : DriveSelect → Nat → Buf) (f₀ : TaskFile) (h : List Access) (sent : List Nat) :
    Prop where
  command : f₀.command = ataCmdWritePio
  transfer : ∃ status, taskFile (ataGetIoBase channel) h =
    { f₀ with words := sent.length, status }
  words : ∃ earlier, wordsOut (ataGetIoBase channel) h = earlier ++ sent
  stored : ∀ d l, disk h d l =
    if d = f₀.drive ∧ f₀.lba ≤ l ∧ l < f₀.lba + sent.length / 256 then
      sectorOf ((sent.drop (256 * (l - f₀.lba))).take 256)
    else before d l

section Storing

variable {channel : Channel} {disk : List Access → DriveSelect → Nat → Buf}
  {before : DriveSelect → Nat → Buf} {f₀ : TaskFile} {sent : List Nat}

/-- An access that moves no word changes nothing. -/
theorem Storing.aside (storing : Storing channel disk before f₀ h sent)
    (stores : Stores channel disk) {a : Access}
    (quiet : ∃ status, (ataWatch (ataGetIoBase channel)).step (taskFile (ataGetIoBase channel) h) a =
      { taskFile (ataGetIoBase channel) h with status })
    (out : wordsOut (ataGetIoBase channel) [a] = []) :
    Storing channel disk before f₀ (h ++ [a]) sent := by
  obtain ⟨status, step⟩ := quiet
  have incomplete : ¬ Completes (ataGetIoBase channel) (taskFile (ataGetIoBase channel) h) a := by
    rintro ⟨value, rfl, -⟩
    rw [wordsOut_word] at out
    cases out
  have next : taskFile (ataGetIoBase channel) (h ++ [a]) =
      { taskFile (ataGetIoBase channel) h with status } := by
    rw [taskFile_append]
    exact step
  refine ⟨storing.command, ?_, ?_, ?_⟩
  · obtain ⟨status', same⟩ := storing.transfer
    exact ⟨status, by rw [next, same]⟩
  · obtain ⟨earlier, words⟩ := storing.words
    exact ⟨earlier, by rw [wordsOut_append, out, List.append_nil, words]⟩
  · rw [stores.keeps h a incomplete]
    exact storing.stored

/-- A data word goes to the sector that is under way; the last one stores it. -/
theorem Storing.word (storing : Storing channel disk before f₀ h sent)
    (stores : Stores channel disk) {value : Nat}
    (ready : (taskFile (ataGetIoBase channel) h).Ready) (room : sent.length < 256 * f₀.sectors) :
    Storing channel disk before f₀ (h ++ [.output 16 (ataGetIoBase channel) value])
      (sent ++ [value]) := by
  obtain ⟨earlier, words⟩ := storing.words
  have out : wordsOut (ataGetIoBase channel) (h ++ [.output 16 (ataGetIoBase channel) value]) =
      earlier ++ (sent ++ [value]) := by
    rw [wordsOut_append, words, wordsOut_word, wordsOut_nil, List.append_assoc]
  obtain ⟨f, is⟩ : ∃ f, f = taskFile (ataGetIoBase channel) h := ⟨_, rfl⟩
  obtain ⟨status, transfer⟩ := storing.transfer
  rw [← is] at ready transfer
  have counted : f.words = sent.length := by rw [transfer]
  refine ⟨storing.command, ⟨f.moved.status, ?_⟩, ⟨earlier, out⟩, ?_⟩
  · have step : (ataWatch (ataGetIoBase channel)).after f
        [.output 16 (ataGetIoBase channel) value] = f.moved := by
      simp [ataWatch, TaskFile.step]
    rw [taskFile_append, ← is, step, List.length_append, transfer]
    rfl
  · intro d l
    by_cases last : sent.length % 256 = 255
    · have completes : Completes (ataGetIoBase channel) f
          (.output 16 (ataGetIoBase channel) value) := by
        refine ⟨value, rfl, ?_, ready, ?_, by rw [counted]; exact last⟩
        · rw [transfer]
          exact storing.command
        · rw [counted, transfer]
          exact room
      rw [stores.stores h _ f is completes, out, counted]
      have place : f.drive = f₀.drive ∧ f.lba = f₀.lba := by
        rw [transfer]
        exact ⟨rfl, rfl⟩
      rw [place.1, place.2, List.length_append, List.length_append, List.length_singleton]
      by_cases here : d = f₀.drive ∧ l = f₀.lba + sent.length / 256
      · -- the words of the sector are the last 256 that went out
        obtain ⟨rfl, rfl⟩ := here
        rw [if_pos ⟨rfl, rfl⟩, if_pos ⟨rfl, by omega, by omega⟩, Nat.add_sub_cancel_left]
        have from_ : earlier.length + (sent.length + 1) - 256 =
            earlier.length + 256 * (sent.length / 256) := by omega
        rw [from_, List.drop_append, List.drop_eq_nil_of_le (by omega), Nat.add_sub_cancel_left,
          List.nil_append, List.take_of_length_le]
        · rfl
        · rw [List.length_drop, List.length_append, List.length_singleton]
          omega
      · rw [if_neg here, storing.stored]
        by_cases old : d = f₀.drive ∧ f₀.lba ≤ l ∧ l < f₀.lba + sent.length / 256
        · rw [if_pos old, if_pos ⟨old.1, old.2.1, by omega⟩]
          rw [List.drop_append_of_le_length (by omega), List.take_append_of_le_length (by
            rw [List.length_drop]
            omega)]
        · rw [if_neg old, if_neg]
          rintro ⟨same, low, high⟩
          refine here ⟨same, ?_⟩
          by_contra other
          exact old ⟨same, low, by omega⟩
    · have incomplete : ¬ Completes (ataGetIoBase channel) (taskFile (ataGetIoBase channel) h)
          (.output 16 (ataGetIoBase channel) value) := by
        rintro ⟨-, -, -, -, -, full⟩
        rw [← is, counted] at full
        exact last full
      rw [stores.keeps h _ incomplete, storing.stored, List.length_append, List.length_singleton]
      have same : (sent.length + 1) / 256 = sent.length / 256 := by omega
      rw [same]
      by_cases old : d = f₀.drive ∧ f₀.lba ≤ l ∧ l < f₀.lba + sent.length / 256
      · rw [if_pos old, if_pos old, List.drop_append_of_le_length (by omega),
          List.take_append_of_le_length (by
            rw [List.length_drop]
            omega)]
      · rw [if_neg old, if_neg old]

/-- A whole body of a write. -/
theorem Storing.run (stores : Stores channel disk) : ∀ (body h : List Access) (sent : List Nat),
    Storing channel disk before f₀ h sent →
    (ataWatch (ataGetIoBase channel)).Obeys (taskFile (ataGetIoBase channel) h) body →
    Transfers (ataGetIoBase channel) body → wordsIn (ataGetIoBase channel) body = [] →
    sent.length + (wordsOut (ataGetIoBase channel) body).length ≤ 256 * f₀.sectors →
    Storing channel disk before f₀ (h ++ body) (sent ++ wordsOut (ataGetIoBase channel) body)
  | [], h, sent, storing, _, _, _, _ => by
      rw [List.append_nil, wordsOut_nil, List.append_nil]
      exact storing
  | a :: body, h, sent, storing, obeys, transfers, in_, room => by
      obtain ⟨allowed, obeys'⟩ := obeys
      have out : wordsOut (ataGetIoBase channel) (a :: body) =
          wordsOut (ataGetIoBase channel) [a] ++ wordsOut (ataGetIoBase channel) body :=
        wordsOut_append (t := [_])
      have in' : wordsIn (ataGetIoBase channel) [a] = [] ∧
          wordsIn (ataGetIoBase channel) body = [] := by
        have split : wordsIn (ataGetIoBase channel) (a :: body) =
            wordsIn (ataGetIoBase channel) [a] ++ wordsIn (ataGetIoBase channel) body :=
          wordsIn_append (t := [_])
        rw [in_] at split
        exact List.append_eq_nil_iff.mp split.symm
      rw [out, List.length_append] at room
      have next : Storing channel disk before f₀ (h ++ [a])
          (sent ++ wordsOut (ataGetIoBase channel) [a]) := by
        rcases transfers a List.mem_cons_self with ⟨bits, port, value, rfl⟩ | ⟨value, rfl⟩ | rfl
        · obtain ⟨status, step⟩ := step_read (ataGetIoBase channel)
            (taskFile (ataGetIoBase channel) h) bits port value
          rw [in'.1] at step
          rw [wordsOut_input, wordsOut_nil, List.append_nil]
          exact storing.aside stores ⟨status, step⟩ rfl
        · rw [wordsOut_word, wordsOut_nil] at room ⊢
          rw [List.length_cons, List.length_nil] at room
          exact storing.word stores (allowed.1 rfl rfl) (by omega)
        · rw [wordsOut_byte, wordsOut_nil, List.append_nil]
          refine storing.aside stores ⟨none, ?_⟩ wordsOut_byte
          simp [ataWatch, TaskFile.step]
      have rest := Storing.run stores body (h ++ [a]) _ next
        (by rw [taskFile_append]; exact obeys')
        (fun b member => transfers b (List.mem_cons_of_mem _ member)) in'.2
        (by rw [List.length_append]; omega)
      rw [out, ← List.append_assoc, ← List.singleton_append, ← List.append_assoc]
      exact rest

end Storing

instance (f : TaskFile) : Decidable f.Ready :=
  decidable_of_iff (f.status.any (fun s => s &&& ataSrBsy = 0 ∧ s &&& ataSrDrq ≠ 0 ∧
    s &&& (ataSrErr ||| ataSrDf) = 0) = true) (by simp [TaskFile.Ready, Option.any_eq_true])

instance (base : Nat) (f : TaskFile) : (a : Access) → Decidable (Completes base f a)
  | .input _ _ _ => isFalse fun completes => by
      obtain ⟨_, impossible, -⟩ := completes
      cases impossible
  | .output bits port value =>
      decidable_of_iff (bits = 16 ∧ port = base ∧ f.command = ataCmdWritePio ∧ f.Ready ∧
          f.words < 256 * f.sectors ∧ f.words % 256 = 255) (by
        constructor
        · rintro ⟨rfl, rfl, rest⟩
          exact ⟨value, rfl, rest⟩
        · rintro ⟨_, same, rest⟩
          cases same
          exact ⟨rfl, rfl, rest⟩)

end XosKernel.Drivers
