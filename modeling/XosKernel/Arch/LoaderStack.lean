/-
# Arch.LoaderStack -- the loader and its own headers

`elf_load_user_program` keeps the file header and the program headers in local variables, on a
stack that lies in the window it loads programs to.  Each pass reads its header there, and again
after the copy, for the zeros behind it: a segment may have gone over its own header or over later
ones.  So here the loader runs over memory (`LoadFrame`).  A write into the rest of what it runs on
(other variables, return addresses, the driver) ends the run, for what happens then the source
does not say.

Whether all writes stay in `[USER_LOAD_MIN, USER_LOAD_MAX)` follows from the headers as memory
holds them (`loader_stays_in_window_iff`).  A program that misses the loader's memory is loaded as
if the headers were a list (`elfLoadUserProgramIn_misses`), which is what `Arch.Elf` has.
-/
import XosKernel.Arch.LoadedProgram

namespace XosKernel.Arch

open XosKernel.Theory XosKernel.Fat32

set_option autoImplicit false

/-! ## The frame -/

/-- Where the local variables `eh` and `phdrs` lie, and what other memory the call runs on. -/
structure LoadFrame where
  eh : Nat
  phdrs : Nat
  others : Nat → Bool
  eh_end : eh + ehdrSize ≤ 2 ^ 64
  phdrs_end : phdrs + phdrSize * elfMaxPhdrs ≤ 2 ^ 64
  apart : eh + ehdrSize ≤ phdrs ∨ phdrs + phdrSize * elfMaxPhdrs ≤ eh

namespace LoadFrame

variable (frame : LoadFrame)

/-- `eh`, as memory holds it. -/
def header (memory : Buf) : Ehdr := Ehdr.load (memory.toList frame.eh ehdrSize)

/-- `phdrs[i]`, as memory holds it. -/
def segment (memory : Buf) (i : Nat) : Phdr :=
  Phdr.load (memory.toList (frame.phdrs + phdrSize * i) phdrSize)

/-- The write goes into the other memory. -/
def hits (w : Write) : Bool :=
  (List.range w.size).any fun j => frame.others ((w.address + j) % 2 ^ 64)

/-- The memory that the call runs on. -/
def Own (a : Nat) : Prop :=
  (frame.eh ≤ a ∧ a < frame.eh + ehdrSize) ∨
    (frame.phdrs ≤ a ∧ a < frame.phdrs + phdrSize * elfMaxPhdrs) ∨ frame.others a = true

end LoadFrame

/-! ## The loader -/

section Loader

variable {σ : Type} (files : FileService σ) (frame : LoadFrame)

/-- The first part of `elf_load_user_program`: memory with `eh` and `phdrs` filled in, or `none`
for a `return -1`. -/
def readHeadersInto (memory : Buf) : StateT σ (Except Ub) (Option Buf) := do
  if ← files.openPath then
    let (ok, bytes) ← readExact files ehdrSize
    let memory := (Write.copy frame.eh bytes).store memory
    let eh := frame.header memory
    if ok && eh.supported then
      let position := files.position (← get)
      if eh.phoff < position then
        return none
      else if ← skipBytes files (eh.phoff - position) then
        readPhdrs eh.phnum 0 memory
      else
        return none
    else
      return none
  else
    return none
where
  /-- The loop that fills `phdrs`, from index `i` on. -/
  readPhdrs : Nat → Nat → Buf → StateT σ (Except Ub) (Option Buf)
    | 0, _, memory => return some memory
    | n + 1, i, memory => do
        let (ok, bytes) ← readExact files phdrSize
        if ok then
          readPhdrs n (i + 1) ((Write.copy (frame.phdrs + phdrSize * i) bytes).store memory)
        else
          return none

/-- The body of the second loop for a `PT_LOAD` header: whether the loop goes on, memory, and what
was written. -/
def loadSegmentIn (i : Nat) (memory : Buf) :
    StateT σ (Except Ub) (Bool × Buf × List Write) := do
  let p := frame.segment memory i
  if p.supported then
    if ← files.openPath then
      if ← skipBytes files p.offset then
        let (ok, bytes) ← readExact files p.filesz
        let copied := Write.copy p.vaddr bytes
        if frame.hits copied then throw .outOfBounds
        else
          let memory := copied.store memory
          if ok then
            -- `p` points into `phdrs`, which the copy may have changed
            let p := frame.segment memory i
            if p.filesz < p.memsz then
              let bss := Write.zero ((p.vaddr + p.filesz) % 2 ^ 64) (p.memsz - p.filesz)
              if frame.hits bss then throw .outOfBounds
              else return (true, bss.store memory, [copied, bss])
            else
              return (true, memory, [copied])
          else
            return (false, memory, [copied])
      else
        return (false, memory, [])
    else
      return (false, memory, [])
  else
    return (false, memory, [])

/-- The loop over `phdrs` from index `i` on, with the number of slots that the array has left. -/
def loadSegmentsIn : Nat → Nat → Buf → StateT σ (Except Ub) (Bool × Buf × List Write)
  | 0, i, memory => do
      if i < (frame.header memory).phnum then throw .outOfBounds
      else return (true, memory, [])
  | slots + 1, i, memory => do
      if i < (frame.header memory).phnum then
        if (frame.segment memory i).type = ptLoad then
          let (ok, memory, writes) ← loadSegmentIn files frame i memory
          if ok then
            let (ok, memory, more) ← loadSegmentsIn slots (i + 1) memory
            return (ok, memory, writes ++ more)
          else
            return (false, memory, writes)
        else
          loadSegmentsIn slots (i + 1) memory
      else
        return (true, memory, [])

/-- `elf_load_user_program`: the entry point (`none` is `return -1`) and what was written. -/
def elfLoadUserProgramIn (memory : Buf) : StateT σ (Except Ub) (Option Nat × List Write) := do
  match ← readHeadersInto files frame memory with
  | none => return (none, [])
  | some memory =>
      let (ok, memory, writes) ← loadSegmentsIn files frame elfMaxPhdrs 0 memory
      return (if ok then some (frame.header memory).entry else none, writes)

end Loader

/-! ## Memory -/

theorem LoadFrame.hits_eq_true (frame : LoadFrame) (w : Write) :
    frame.hits w = true ↔ ∃ a, w.Touches a ∧ frame.others a = true := by
  simp only [LoadFrame.hits, List.any_eq_true, List.mem_range, Write.Touches]
  constructor
  · rintro ⟨j, inside, hit⟩
    exact ⟨_, ⟨j, inside, rfl⟩, hit⟩
  · rintro ⟨_, ⟨j, inside, rfl⟩, hit⟩
    exact ⟨j, inside, hit⟩

section Stores

variable {w : Write} {memory : Buf} {a n : Nat}

theorem toList_untouched (untouched : ∀ k < n, ¬ w.Touches (a + k)) :
    (w.store memory).toList a n = memory.toList a n := by
  unfold Buf.toList
  refine List.map_congr_left fun k member => ?_
  exact store_untouched (untouched k (List.mem_range.mp member)) memory

theorem toList_copied {bytes : List UInt8} (straight : a + bytes.length ≤ 2 ^ 64) (memory : Buf) :
    ((Write.copy a bytes).store memory).toList a bytes.length = bytes := by
  refine List.ext_getElem (Buf.length_toList _ _ _) fun k inside inside' => ?_
  have byte := store_byte (w := .copy a bytes) (k := k) inside' straight memory
  simp only [Buf.toList, List.getElem_map, List.getElem_range]
  rw [show (Write.copy a bytes).address + k = a + k from rfl] at byte
  rw [byte, Write.byte, List.getD_eq_getElem _ _ inside']

theorem copy_touches {bytes : List UInt8} (straight : a + bytes.length ≤ 2 ^ 64) {b : Nat} :
    (Write.copy a bytes).Touches b ↔ a ≤ b ∧ b < a + bytes.length := by
  simp only [Write.Touches, Write.size, Write.address]
  constructor
  · rintro ⟨j, inside, rfl⟩
    rw [Nat.mod_eq_of_lt (by omega)]
    omega
  · rintro ⟨low, high⟩
    exact ⟨b - a, by omega, by rw [Nat.mod_eq_of_lt (by omega)]; omega⟩

end Stores

/-- A write that misses the frame leaves both variables. -/
theorem LoadFrame.store_misses {frame : LoadFrame} {w : Write}
    (misses : ∀ a, w.Touches a → ¬ frame.Own a) (memory : Buf) :
    frame.header (w.store memory) = frame.header memory ∧
      ∀ i < elfMaxPhdrs, frame.segment (w.store memory) i = frame.segment memory i := by
  constructor
  · unfold LoadFrame.header
    rw [toList_untouched]
    exact fun k inside touches => misses _ touches (.inl ⟨by omega, by omega⟩)
  · intro i slot
    unfold LoadFrame.segment
    rw [toList_untouched]
    refine fun k inside touches => misses _ touches (.inr (.inl ⟨by omega, ?_⟩))
    have upTo : phdrSize * (i + 1) ≤ phdrSize * elfMaxPhdrs := Nat.mul_le_mul_left _ slot
    rw [Nat.mul_succ] at upTo
    omega

/-! ## The headers of a file -/

section Headers

variable (content : Content) (frame : LoadFrame)

/-- `phdrs` filled from index `i` on with `n` headers, of which the first one stands at `off`. -/
def LoadFrame.putPhdrs (off : Nat) : Nat → Nat → Buf → Buf
  | 0, _, memory => memory
  | n + 1, i, memory => LoadFrame.putPhdrs off n (i + 1) ((Write.copy (frame.phdrs + phdrSize * i)
      ((content.1.drop (off + phdrSize * i)).take phdrSize)).store memory)

/-- Memory with the headers of the file in `eh` and `phdrs`. -/
def LoadFrame.putHeaders (memory : Buf) : Buf :=
  frame.putPhdrs content (fileHeader content).phoff (fileHeader content).phnum 0
    ((Write.copy frame.eh (content.1.take ehdrSize)).store memory)

variable {content frame}

theorem LoadFrame.header_copied (memory : Buf) (long : ehdrSize ≤ content.1.length) :
    frame.header ((Write.copy frame.eh (content.1.take ehdrSize)).store memory) =
      fileHeader content := by
  have length : (content.1.take ehdrSize).length = ehdrSize := by
    rw [List.length_take, Nat.min_eq_left long]
  have straight := frame.eh_end
  rw [← length] at straight
  have put := toList_copied straight memory
  rw [length] at put
  rw [LoadFrame.header, put, fileHeader]

/-- The loop over `phdrs` fills its slots and leaves the rest of the frame. -/
theorem LoadFrame.putPhdrs_spec (content : Content) (frame : LoadFrame) (off : Nat) :
    ∀ (n i : Nat) (memory : Buf), i + n ≤ elfMaxPhdrs →
    off + phdrSize * (i + n) ≤ content.1.length →
    frame.header (frame.putPhdrs content off n i memory) = frame.header memory ∧
    (∀ j < i, frame.segment (frame.putPhdrs content off n i memory) j = frame.segment memory j) ∧
    ∀ j, i ≤ j → j < i + n →
      frame.segment (frame.putPhdrs content off n i memory) j = phdrAt content (off + phdrSize * j)
  | 0, i, memory, _, _ => ⟨rfl, fun _ _ => rfl, fun j low high => by omega⟩
  | n + 1, i, memory, slots, inside => by
      have ends := frame.phdrs_end
      have apart := frame.apart
      rw [Nat.mul_add] at inside
      have upTo : phdrSize * (i + 1) ≤ phdrSize * elfMaxPhdrs := Nat.mul_le_mul_left _ (by omega)
      rw [Nat.mul_succ] at upTo
      have more : phdrSize * (n + 1) = phdrSize * n + phdrSize := Nat.mul_succ _ _
      have length : ((content.1.drop (off + phdrSize * i)).take phdrSize).length = phdrSize := by
        rw [List.length_take, List.length_drop]
        omega
      have straight : frame.phdrs + phdrSize * i +
          ((content.1.drop (off + phdrSize * i)).take phdrSize).length ≤ 2 ^ 64 := by
        rw [length]
        omega
      obtain ⟨header, earlier, filled⟩ := LoadFrame.putPhdrs_spec content frame off n (i + 1)
        ((Write.copy (frame.phdrs + phdrSize * i)
          ((content.1.drop (off + phdrSize * i)).take phdrSize)).store memory) (by omega)
        (by rw [Nat.mul_add, Nat.mul_succ]; omega)
      have touches := fun {b} => copy_touches (b := b) straight
      rw [length] at touches
      refine ⟨header.trans ?_, fun j before => (earlier j (by omega)).trans ?_, ?_⟩
      · unfold LoadFrame.header
        rw [toList_untouched]
        intro k within touched
        have place := touches.mp touched
        omega
      · unfold LoadFrame.segment
        rw [toList_untouched]
        intro k within touched
        have place := touches.mp touched
        have below : phdrSize * (j + 1) ≤ phdrSize * i := Nat.mul_le_mul_left _ before
        rw [Nat.mul_succ] at below
        omega
      · intro j low high
        by_cases here : j = i
        · subst here
          rw [LoadFrame.putPhdrs, earlier j (by omega)]
          have put := toList_copied straight memory
          rw [length] at put
          rw [LoadFrame.segment, put, phdrAt]
        · exact filled j (by omega) (by omega)

/-- With the headers of a file that is accepted, the variables hold what the file says. -/
theorem LoadFrame.putHeaders_spec (frame : LoadFrame) {eh : Ehdr} {phdrs : List Phdr} (memory : Buf)
    (headers : headersOf content = some (eh, phdrs)) :
    frame.header (frame.putHeaders content memory) = eh ∧ eh.phnum = phdrs.length ∧
      phdrs.length ≤ elfMaxPhdrs ∧
      ∀ i p, phdrs[i]? = some p → frame.segment (frame.putHeaders content memory) i = p := by
  simp only [headersOf] at headers
  split at headers
  swap
  · cases headers
  next accepted =>
    obtain ⟨long, supported, -, table⟩ := accepted
    cases headers
    change Ehdr.supported (fileHeader content) = true at supported
    change (fileHeader content).phoff + phdrSize * (fileHeader content).phnum ≤ _ at table
    have few : (fileHeader content).phnum ≤ elfMaxPhdrs := by
      simp only [Ehdr.supported, Bool.and_eq_true, decide_eq_true_eq] at supported
      exact supported.1.2.2
    obtain ⟨header, -, filled⟩ := LoadFrame.putPhdrs_spec content frame
      (fileHeader content).phoff (fileHeader content).phnum 0
      ((Write.copy frame.eh (content.1.take ehdrSize)).store memory) (by omega)
      (by rw [Nat.zero_add]; exact table)
    refine ⟨header.trans (LoadFrame.header_copied memory long), by simp, ?_, ?_⟩
    · rw [List.length_map, List.length_range]
      exact few
    · intro i p at_i
      obtain ⟨inside, is⟩ := List.getElem?_eq_some_iff.mp at_i
      rw [List.length_map, List.length_range] at inside
      rw [List.getElem_map, List.getElem_range] at is
      rw [← is]
      exact filled i (Nat.zero_le i) (by rw [Nat.zero_add]; exact inside)

variable (content frame)

theorem readPhdrs_into (n : Nat) : ∀ (i pos off : Nat) (memory : Buf), pos = off + phdrSize * i →
    ∃ pos', (readHeadersInto.readPhdrs (contentFile (some content)) frame n i memory).run pos =
      .ok (if pos + phdrSize * n ≤ content.1.length ∨ n = 0 then
        some (frame.putPhdrs content off n i memory) else none, pos') := by
  induction n with
  | zero =>
      intro i pos off memory _
      rw [if_pos (.inr rfl)]
      exact ⟨pos, rfl⟩
  | succ n ih =>
      rintro i pos off memory rfl
      simp only [readHeadersInto.readPhdrs]
      rw [run_bind_of_ok (readExact_content content phdrSize _)]
      have more : phdrSize * (n + 1) = phdrSize * n + phdrSize := Nat.mul_succ _ _
      by_cases here : phdrSize ≤ content.1.length - (off + phdrSize * i)
      · simp only [here, show phdrSize < 2 ^ 31 by decide, and_self, decide_true, if_true]
        rw [Nat.min_eq_left here]
        obtain ⟨pos', ran⟩ := ih (i + 1) (off + phdrSize * i + phdrSize) off
          ((Write.copy (frame.phdrs + phdrSize * i)
            ((content.1.drop (off + phdrSize * i)).take phdrSize)).store memory)
          (by rw [Nat.mul_succ]; omega)
        refine ⟨pos', ran.trans ?_⟩
        have positive : 0 < phdrSize := by decide
        by_cases rest : off + phdrSize * i + phdrSize + phdrSize * n ≤ content.1.length ∨ n = 0
        · have table : off + phdrSize * i + phdrSize * (n + 1) ≤ content.1.length := by
            rcases rest with rest | rfl
            · omega
            · rw [Nat.zero_add, Nat.mul_one]
              omega
          rw [if_pos rest, if_pos (.inl table)]
          rfl
        · have cut :
              ¬ (off + phdrSize * i + phdrSize * (n + 1) ≤ content.1.length ∨ n + 1 = 0) := by
            rintro (table | none)
            · exact rest (.inl (by omega))
            · cases none
          rw [if_neg rest, if_neg cut]
      · simp only [here, false_and, decide_false, Bool.false_eq_true, if_false]
        have positive : 0 < phdrSize := by decide
        have cut : ¬ (off + phdrSize * i + phdrSize * (n + 1) ≤ content.1.length ∨ n + 1 = 0) := by
          rintro (table | none)
          · omega
          · cases none
        rw [if_neg cut]
        exact ⟨_, rfl⟩

/-- The header checks are those of `headersOf`. -/
theorem readHeadersInto_content (memory : Buf) (pos : Nat) :
    ∃ pos', (readHeadersInto (contentFile (some content)) frame memory).run pos =
      .ok ((headersOf content).map fun _ => frame.putHeaders content memory, pos') := by
  simp only [readHeadersInto]
  rw [run_bind_of_ok (openPath_content content pos), if_pos rfl,
    run_bind_of_ok (readExact_content content ehdrSize 0)]
  simp only [List.drop_zero, Nat.sub_zero, Nat.zero_add]
  have known : headersOf content = if ehdrSize ≤ content.1.length ∧
      (fileHeader content).supported ∧ ehdrSize ≤ (fileHeader content).phoff ∧
      (fileHeader content).phoff + phdrSize * (fileHeader content).phnum ≤ content.1.length then
      some (fileHeader content, programHeaders content) else none := rfl
  have small : ehdrSize < 2 ^ 31 := by decide
  by_cases long : ehdrSize ≤ content.1.length
  swap
  · have rejected : headersOf content = none := known.trans (if_neg fun all => long all.1)
    have short : ¬ (ehdrSize ≤ content.1.length ∧ ehdrSize < 2 ^ 31) := fun all => long all.1
    rw [rejected, decide_eq_false short]
    exact ⟨_, rfl⟩
  rw [LoadFrame.header_copied memory long, decide_eq_true ⟨long, small⟩, Bool.true_and]
  by_cases supported : (fileHeader content).supported = true
  swap
  · have rejected : headersOf content = none := known.trans (if_neg fun all => supported all.2.1)
    rw [rejected, if_neg supported]
    exact ⟨_, rfl⟩
  have entries : (fileHeader content).phnum ≠ 0 := by
    simp only [Ehdr.supported, Bool.and_eq_true, bne_iff_ne] at supported
    exact supported.1.2.1.2
  rw [if_pos supported,
    run_bind_of_ok (show (get : StateT Nat (Except Ub) Nat).run _ = _ from rfl),
    Nat.min_eq_left long, content_position]
  by_cases below : (fileHeader content).phoff < ehdrSize
  · have rejected : headersOf content = none :=
      known.trans (if_neg fun all => absurd all.2.2.1 (by omega))
    rw [rejected, if_pos below]
    exact ⟨_, rfl⟩
  rw [if_neg below, run_bind_of_ok (skipBytes_content content _ ehdrSize)]
  by_cases inside : (fileHeader content).phoff ≤ content.1.length
  · rw [if_pos (decide_eq_true (by omega)), Nat.min_eq_left (by omega),
      show ehdrSize + ((fileHeader content).phoff - ehdrSize) = (fileHeader content).phoff by omega]
    obtain ⟨pos', table⟩ := readPhdrs_into content frame (fileHeader content).phnum 0
      (fileHeader content).phoff (fileHeader content).phoff
      ((Write.copy frame.eh (content.1.take ehdrSize)).store memory) (by omega)
    refine ⟨pos', table.trans ?_⟩
    have low : ehdrSize ≤ (fileHeader content).phoff := by omega
    simp only [known, long, supported, low, entries, or_false, true_and]
    split <;> rfl
  · have rejected : headersOf content = none :=
      known.trans (if_neg fun all => absurd all.2.2.2 (by omega))
    rw [rejected, if_neg (by simp; omega)]
    exact ⟨_, rfl⟩

end Headers

/-! ## Segments in memory -/

section Segments

variable (content : Content) (frame : LoadFrame)

/-- The bytes of the file that are copied for a header. -/
def Phdr.copied (p : Phdr) : Write :=
  .copy p.vaddr ((content.1.drop p.offset).take p.filesz)

/-- The zeros for a header. -/
def Phdr.bss (p : Phdr) : Write := .zero ((p.vaddr + p.filesz) % 2 ^ 64) (p.memsz - p.filesz)

/-- What `loadSegmentIn` does, as a function of the bytes. -/
def LoadFrame.segmentOf (i : Nat) (memory : Buf) : Except Ub (Bool × Buf × List Write) :=
  let p := frame.segment memory i
  if Starts content p then
    let copied := p.copied content
    if frame.hits copied then .error .outOfBounds
    else if Holds content p then
      let q := frame.segment (copied.store memory) i
      if q.filesz < q.memsz then
        if frame.hits q.bss then .error .outOfBounds
        else .ok (true, q.bss.store (copied.store memory), [copied, q.bss])
      else .ok (true, copied.store memory, [copied])
    else .ok (false, copied.store memory, [copied])
  else .ok (false, memory, [])

theorem loadSegmentIn_content (i : Nat) (memory : Buf) (pos : Nat) :
    ∃ pos', (loadSegmentIn (contentFile (some content)) frame i memory).run pos =
      (frame.segmentOf content i memory).map fun r => (r, pos') := by
  simp only [loadSegmentIn, LoadFrame.segmentOf]
  generalize frame.segment memory i = p
  by_cases supported : p.supported = true
  swap
  · rw [if_neg supported, if_neg (fun starts => supported starts.1)]
    exact ⟨_, rfl⟩
  rw [if_pos supported, run_bind_of_ok (openPath_content content pos), if_pos rfl,
    run_bind_of_ok (skipBytes_content content p.offset 0), Nat.sub_zero]
  by_cases inside : p.offset ≤ content.1.length
  swap
  · rw [if_neg (by simpa using inside), if_neg (fun starts => inside starts.2)]
    exact ⟨_, rfl⟩
  have starts : Starts content p := ⟨supported, inside⟩
  rw [if_pos (decide_eq_true inside), Nat.min_eq_left inside, Nat.zero_add,
    run_bind_of_ok (readExact_content content p.filesz p.offset), if_pos starts]
  have holds : p.filesz ≤ content.1.length - p.offset ∧ p.filesz < 2 ^ 31 ↔ Holds content p := by
    simp only [Holds]
    omega
  refine ⟨p.offset + min p.filesz (content.1.length - p.offset), ?_⟩
  have copied : Write.copy p.vaddr ((content.1.drop p.offset).take p.filesz) =
      p.copied content := rfl
  have bss : ∀ q : Phdr, Write.zero ((q.vaddr + q.filesz) % 2 ^ 64) (q.memsz - q.filesz) =
      q.bss := fun _ => rfl
  simp only [copied, bss, holds, decide_eq_true_eq]
  generalize p.copied content = copied
  generalize frame.segment (copied.store memory) i = q
  generalize q.bss = bss
  by_cases hit : frame.hits copied = true
  · rw [if_pos hit, if_pos hit]
    rfl
  rw [if_neg hit, if_neg hit]
  by_cases all : Holds content p
  · rw [if_pos all, if_pos all]
    by_cases longer : q.filesz < q.memsz
    · rw [if_pos longer, if_pos longer]
      by_cases struck : frame.hits bss = true
      · rw [if_pos struck, if_pos struck]
        rfl
      · rw [if_neg struck, if_neg struck]
        rfl
    · rw [if_neg longer, if_neg longer]
      rfl
  · rw [if_neg all, if_neg all]
    rfl

end Segments

/-! ## The window -/

section Window

variable (content : Content) (frame : LoadFrame)

/-- The segment at `i`, for the header that memory holds: the end of the copied bytes stays in the
window, and so do the zeros for the header that memory holds then; neither goes into the other
memory. -/
structure LoadFrame.SegmentStays (i : Nat) (memory : Buf) : Prop where
  copied : let p := frame.segment memory i
    min p.filesz (content.1.length - p.offset) = 0 ∨
      p.vaddr + min p.filesz (content.1.length - p.offset) ≤ userLoadMax
  copied_misses : frame.hits ((frame.segment memory i).copied content) = false
  bss : Holds content (frame.segment memory i) →
    let q := frame.segment (((frame.segment memory i).copied content).store memory) i
    q.filesz < q.memsz → userLoadMin ≤ (q.vaddr + q.filesz) % 2 ^ 64 ∧
      (q.vaddr + q.filesz) % 2 ^ 64 + (q.memsz - q.filesz) ≤ userLoadMax ∧
      frame.hits q.bss = false

/-- Memory after the segment at `i` was loaded. -/
def LoadFrame.after (i : Nat) (memory : Buf) : Buf :=
  let copied := ((frame.segment memory i).copied content).store memory
  let q := frame.segment copied i
  if q.filesz < q.memsz then q.bss.store copied else copied

/-- Every segment that the loop gets to stays in the window, and no more headers are asked for
than there are slots. -/
def LoadFrame.SegmentsStay : Nat → Nat → Buf → Prop
  | 0, i, memory => (frame.header memory).phnum ≤ i
  | slots + 1, i, memory => i < (frame.header memory).phnum →
      if (frame.segment memory i).type = ptLoad then
        Starts content (frame.segment memory i) → frame.SegmentStays content i memory ∧
          (Holds content (frame.segment memory i) →
            LoadFrame.SegmentsStay slots (i + 1) (frame.after content i memory))
      else LoadFrame.SegmentsStay slots (i + 1) memory

variable {content frame}

theorem Phdr.copied_inWindow_iff {p : Phdr} (fits : p.Fits) (starts : Starts content p) :
    (∀ a, (p.copied content).Touches a → InWindow a) ↔
      min p.filesz (content.1.length - p.offset) = 0 ∨
        p.vaddr + min p.filesz (content.1.length - p.offset) ≤ userLoadMax := by
  have low := (p.supported_iff.mp starts.1).2.1
  have bytes := touches_inWindow_iff (w := p.copied content) fits.vaddr
  simp only [Phdr.copied, Write.size, Write.address, List.length_take, List.length_drop] at bytes
  rw [Phdr.copied, bytes]
  simp only [low, true_and]

theorem Phdr.bss_inWindow_iff {q : Phdr} (longer : q.filesz < q.memsz) :
    (∀ a, q.bss.Touches a → InWindow a) ↔ userLoadMin ≤ (q.vaddr + q.filesz) % 2 ^ 64 ∧
      (q.vaddr + q.filesz) % 2 ^ 64 + (q.memsz - q.filesz) ≤ userLoadMax := by
  have bytes := touches_inWindow_iff (w := q.bss) (Nat.mod_lt _ (by decide))
  rw [bytes]
  simp only [Phdr.bss, Write.size, Write.address]
  constructor
  · exact fun either => either.resolve_left (by omega)
  · exact .inr

theorem writesInWindow_cons {w : Write} {l : List Write} :
    WritesInWindow (w :: l) ↔ (∀ a, w.Touches a → InWindow a) ∧ WritesInWindow l :=
  List.forall_mem_cons

theorem writesInWindow_nil : WritesInWindow [] := fun _ no => nomatch no

section Segment

variable {i : Nat} {memory copied : Buf} {p q : Phdr} {copy zeros : Write}
  (is : frame.segment memory i = p) (copies : p.copied content = copy)
  (stored : copy.store memory = copied) (again : frame.segment copied i = q)
  (clears : q.bss = zeros)
include is copies

theorem LoadFrame.segmentOf_skips (not_ : ¬ Starts content p) :
    frame.segmentOf content i memory = .ok (false, memory, []) := by
  subst is copies
  simp only [LoadFrame.segmentOf]
  rw [if_neg not_]

theorem LoadFrame.segmentOf_hit (starts : Starts content p) (hit : frame.hits copy = true) :
    frame.segmentOf content i memory = .error .outOfBounds := by
  subst is copies
  simp only [LoadFrame.segmentOf]
  rw [if_pos starts, if_pos hit]

include stored again clears

/-- With the two headers named, and a copy that does not hit: what is done, where memory ends, and
what staying in the window means. -/
theorem LoadFrame.segmentOf_copies (starts : Starts content p) (missed : frame.hits copy = false) :
    frame.segmentOf content i memory =
      if Holds content p then
        if q.filesz < q.memsz then
          if frame.hits zeros then .error .outOfBounds
          else .ok (true, zeros.store copied, [copy, zeros])
        else .ok (true, copied, [copy])
      else .ok (false, copied, [copy]) := by
  subst is copies stored again clears
  simp only [LoadFrame.segmentOf]
  rw [if_pos starts, if_neg (ne_true_of_eq_false missed)]

theorem LoadFrame.after_eq :
    frame.after content i memory = if q.filesz < q.memsz then zeros.store copied else copied := by
  subst is copies stored again clears
  rfl

theorem LoadFrame.segmentStays_iff : frame.SegmentStays content i memory ↔
    (min p.filesz (content.1.length - p.offset) = 0 ∨
      p.vaddr + min p.filesz (content.1.length - p.offset) ≤ userLoadMax) ∧
    frame.hits copy = false ∧
    (Holds content p → q.filesz < q.memsz → userLoadMin ≤ (q.vaddr + q.filesz) % 2 ^ 64 ∧
      (q.vaddr + q.filesz) % 2 ^ 64 + (q.memsz - q.filesz) ≤ userLoadMax ∧
      frame.hits zeros = false) := by
  subst is copies stored again clears
  constructor
  · exact fun stays => ⟨stays.copied, stays.copied_misses, stays.bss⟩
  · rintro ⟨low, missed, bss⟩
    exact ⟨low, missed, bss⟩

end Segment

/-- A segment that is loaded, whole or not, wrote in the window exactly if it stays there. -/
theorem LoadFrame.segmentOf_returned {i : Nat} {memory : Buf}
    (starts : Starts content (frame.segment memory i)) {ok : Bool} {memory' : Buf}
    {writes : List Write}
    (returned : frame.segmentOf content i memory = .ok (ok, memory', writes)) :
    (ok = true ↔ Holds content (frame.segment memory i)) ∧
      (ok = true → memory' = frame.after content i memory) ∧
      (WritesInWindow writes ↔ frame.SegmentStays content i memory) := by
  have fits : (frame.segment memory i).Fits := Phdr.load_fits _
  have within := Phdr.copied_inWindow_iff fits starts
  obtain ⟨p, is⟩ : ∃ p, frame.segment memory i = p := ⟨_, rfl⟩
  obtain ⟨copy, copies⟩ : ∃ w, p.copied content = w := ⟨_, rfl⟩
  obtain ⟨copied, stored⟩ : ∃ m, copy.store memory = m := ⟨_, rfl⟩
  obtain ⟨q, again⟩ : ∃ q, frame.segment copied i = q := ⟨_, rfl⟩
  obtain ⟨zeros, clears⟩ : ∃ w, q.bss = w := ⟨_, rfl⟩
  have cleared : q.filesz < q.memsz → _ := Phdr.bss_inWindow_iff
  rw [LoadFrame.after_eq is copies stored again clears,
    LoadFrame.segmentStays_iff is copies stored again clears]
  rw [is] at starts within ⊢
  rw [copies] at within
  rw [clears] at cleared
  by_cases hit : frame.hits copy = true
  · rw [LoadFrame.segmentOf_hit is copies starts hit] at returned
    cases returned
  rw [Bool.not_eq_true] at hit
  rw [LoadFrame.segmentOf_copies is copies stored again clears starts hit] at returned
  by_cases holds : Holds content p
  swap
  · rw [if_neg holds] at returned
    cases returned
    refine ⟨iff_of_false Bool.false_ne_true holds, fun no => absurd no Bool.false_ne_true, ?_⟩
    rw [writesInWindow_cons, within]
    constructor
    · rintro ⟨low, -⟩
      exact ⟨low, hit, fun all => absurd all holds⟩
    · exact fun stays => ⟨stays.1, writesInWindow_nil⟩
  rw [if_pos holds] at returned
  by_cases longer : q.filesz < q.memsz
  swap
  · rw [if_neg longer] at returned ⊢
    cases returned
    refine ⟨iff_of_true rfl holds, fun _ => rfl, ?_⟩
    rw [writesInWindow_cons, within]
    constructor
    · rintro ⟨low, -⟩
      exact ⟨low, hit, fun _ more => absurd more longer⟩
    · exact fun stays => ⟨stays.1, writesInWindow_nil⟩
  rw [if_pos longer] at returned ⊢
  by_cases struck : frame.hits zeros = true
  · rw [if_pos struck] at returned
    cases returned
  rw [if_neg struck] at returned
  rw [Bool.not_eq_true] at struck
  cases returned
  refine ⟨iff_of_true rfl holds, fun _ => rfl, ?_⟩
  rw [writesInWindow_cons, writesInWindow_cons, within, cleared longer]
  constructor
  · rintro ⟨low, ⟨start, stop⟩, -⟩
    exact ⟨low, hit, fun _ _ => ⟨start, stop, struck⟩⟩
  · rintro ⟨low, -, bss⟩
    obtain ⟨start, stop, -⟩ := bss holds longer
    exact ⟨low, ⟨start, stop⟩, writesInWindow_nil⟩

/-- A segment that stays in the window and out of the other memory is loaded. -/
theorem LoadFrame.segmentOf_stays {i : Nat} {memory : Buf}
    (starts : Starts content (frame.segment memory i))
    (stays : frame.SegmentStays content i memory) :
    ∃ ok memory' writes, frame.segmentOf content i memory = .ok (ok, memory', writes) := by
  obtain ⟨p, is⟩ : ∃ p, frame.segment memory i = p := ⟨_, rfl⟩
  obtain ⟨-, missed, bss⟩ := (LoadFrame.segmentStays_iff is rfl rfl rfl rfl).mp stays
  rw [is] at starts
  rw [LoadFrame.segmentOf_copies is rfl rfl rfl rfl starts missed]
  by_cases holds : Holds content p
  swap
  · rw [if_neg holds]
    exact ⟨_, _, _, rfl⟩
  rw [if_pos holds]
  by_cases longer : (frame.segment ((p.copied content).store memory) i).filesz <
      (frame.segment ((p.copied content).store memory) i).memsz
  · rw [if_pos longer, if_neg (ne_true_of_eq_false (bss holds longer).2.2)]
    exact ⟨_, _, _, rfl⟩
  · rw [if_neg longer]
    exact ⟨_, _, _, rfl⟩

/-- A pass over a `PT_LOAD` header, before a rest of the loop that stays in the window exactly if
`stays` holds where it starts. -/
theorem loadSegmentIn_inWindow_iff (i : Nat) (memory : Buf) (pos : Nat)
    {rest : Buf → StateT Nat (Except Ub) (Bool × Buf × List Write)} {stays : Buf → Prop}
    (rest_iff : ∀ memory pos,
      Runs (rest memory) pos (fun r _ => WritesInWindow r.2.2) ↔ stays memory) :
    Runs (do
        let (ok, memory, writes) ← loadSegmentIn (contentFile (some content)) frame i memory
        if ok then
          let (ok, memory, more) ← rest memory
          return (ok, memory, writes ++ more)
        else
          return (false, memory, writes)) pos (fun r _ => WritesInWindow r.2.2) ↔
      (Starts content (frame.segment memory i) → frame.SegmentStays content i memory ∧
        (Holds content (frame.segment memory i) → stays (frame.after content i memory))) := by
  obtain ⟨pos₁, ran⟩ := loadSegmentIn_content content frame i memory pos
  by_cases starts : Starts content (frame.segment memory i)
  swap
  · rw [LoadFrame.segmentOf_skips rfl rfl starts] at ran
    exact iff_of_true (Runs.step ran (Runs.pure writesInWindow_nil)) fun here => absurd here starts
  simp only [starts, true_implies]
  constructor
  · rintro ⟨r, pos₂, returned, within⟩
    obtain ⟨⟨ok, memory', writes⟩, pos₃, first, rest⟩ := bind_returns returned
    have is : frame.segmentOf content i memory = .ok (ok, memory', writes) := by
      rw [ran] at first
      cases segment : frame.segmentOf content i memory with
      | error e =>
          rw [segment] at first
          cases first
      | ok r =>
          rw [segment] at first
          cases first
          rfl
    obtain ⟨holds, after, stays⟩ := LoadFrame.segmentOf_returned starts is
    cases ok with
    | false =>
        rw [if_neg Bool.false_ne_true] at rest
        cases rest
        exact ⟨stays.mp within, fun whole => absurd (holds.mpr whole) Bool.false_ne_true⟩
    | true =>
        rw [if_pos rfl] at rest
        obtain ⟨⟨ok', memory'', later⟩, pos₄, loop, last⟩ := bind_returns rest
        cases last
        obtain ⟨here, there⟩ := writesInWindow_append.mp within
        refine ⟨stays.mp here, fun _ => ?_⟩
        rw [← after rfl]
        exact (rest_iff memory' pos₃).mp ⟨_, _, loop, there⟩
  · rintro ⟨stays, later⟩
    obtain ⟨ok, memory', writes, is⟩ := LoadFrame.segmentOf_stays starts stays
    obtain ⟨holds, after, within⟩ := LoadFrame.segmentOf_returned starts is
    rw [is] at ran
    refine Runs.step ran ?_
    cases ok with
    | false =>
        rw [if_neg Bool.false_ne_true]
        exact Runs.pure (within.mpr stays)
    | true =>
        rw [if_pos rfl]
        have goesOn := later (holds.mp rfl)
        rw [← after rfl] at goesOn
        refine Runs.bind ((rest_iff memory' pos₁).mpr goesOn) fun r pos₂ there => ?_
        exact Runs.pure (writesInWindow_append.mpr ⟨within.mpr stays, there⟩)

/-- The loop: by induction on the slots that are left. -/
theorem loadSegmentsIn_inWindow_iff (slots i : Nat) (memory : Buf) (pos : Nat) :
    Runs (loadSegmentsIn (contentFile (some content)) frame slots i memory) pos
        (fun r _ => WritesInWindow r.2.2) ↔ frame.SegmentsStay content slots i memory := by
  induction slots generalizing i memory pos with
  | zero =>
      simp only [loadSegmentsIn, LoadFrame.SegmentsStay]
      by_cases more : i < (frame.header memory).phnum
      · rw [if_pos more]
        refine iff_of_false ?_ (by omega)
        rintro ⟨r, pos', ran, -⟩
        cases ran
      · rw [if_neg more]
        exact iff_of_true (Runs.pure writesInWindow_nil) (by omega)
  | succ slots ih =>
      simp only [loadSegmentsIn, LoadFrame.SegmentsStay]
      by_cases more : i < (frame.header memory).phnum
      swap
      · rw [if_neg more]
        exact iff_of_true (Runs.pure writesInWindow_nil) fun here => absurd here more
      rw [if_pos more]
      simp only [more, true_implies]
      by_cases load : (frame.segment memory i).type = ptLoad
      · rw [if_pos load, if_pos load]
        exact loadSegmentIn_inWindow_iff i memory pos (ih (i + 1))
      · rw [if_neg load, if_neg load]
        exact ih (i + 1) memory pos

end Window

/-! ## Programs that miss the frame -/

section Misses

variable {content : Content} {frame : LoadFrame}

theorem LoadFrame.hits_of_misses {w : Write} (misses : ∀ a, w.Touches a → ¬ frame.Own a) :
    frame.hits w = false := by
  rw [← Bool.not_eq_true, frame.hits_eq_true]
  rintro ⟨a, touches, hit⟩
  exact misses a touches (.inr (.inr hit))

/-- A segment that misses the frame is loaded for the header that the list has. -/
theorem LoadFrame.segmentOf_misses {i : Nat} {memory : Buf} {p : Phdr} (slot : i < elfMaxPhdrs)
    (is : frame.segment memory i = p) (starts : Starts content p)
    (misses : ∀ w ∈ segmentWrites content p, ∀ a, w.Touches a → ¬ frame.Own a) :
    ∃ memory', frame.segmentOf content i memory =
        .ok (decide (Holds content p), memory', segmentWrites content p) ∧
      frame.header memory' = frame.header memory ∧
      ∀ j < elfMaxPhdrs, frame.segment memory' j = frame.segment memory j := by
  have copied : ∀ a, (p.copied content).Touches a → ¬ frame.Own a :=
    misses _ List.mem_cons_self
  obtain ⟨header, segment⟩ := LoadFrame.store_misses copied memory
  have again := (segment i slot).trans is
  have writes : segmentWrites content p = p.copied content ::
      if Holds content p ∧ p.filesz < p.memsz then [p.bss] else [] := rfl
  rw [LoadFrame.segmentOf_copies is rfl rfl again rfl starts (LoadFrame.hits_of_misses copied)]
  rw [writes] at misses ⊢
  by_cases holds : Holds content p
  swap
  · rw [if_neg holds, if_neg fun both => holds both.1, decide_eq_false holds]
    exact ⟨_, rfl, header, segment⟩
  by_cases longer : p.filesz < p.memsz
  swap
  · rw [if_pos holds, if_neg longer, if_neg fun both => longer both.2, decide_eq_true holds]
    exact ⟨_, rfl, header, segment⟩
  have both : Holds content p ∧ p.filesz < p.memsz := ⟨holds, longer⟩
  rw [if_pos both] at misses ⊢
  have bss : ∀ a, p.bss.Touches a → ¬ frame.Own a :=
    misses _ (List.mem_cons_of_mem _ List.mem_cons_self)
  obtain ⟨header', segment'⟩ := LoadFrame.store_misses bss
    ((p.copied content).store memory)
  rw [if_pos holds, if_pos longer, if_neg (ne_true_of_eq_false (LoadFrame.hits_of_misses bss)),
    decide_eq_true holds]
  exact ⟨_, rfl, header'.trans header, fun j below =>
    (segment' j below).trans (segment j below)⟩

/-- The loop over headers in memory does what the loop over the list does. -/
theorem loadSegmentsIn_misses (phdrs : List Phdr) (slots i : Nat) (memory : Buf) (pos : Nat)
    (room : i + phdrs.length ≤ elfMaxPhdrs) (left : i + slots = elfMaxPhdrs)
    (count : (frame.header memory).phnum = i + phdrs.length)
    (same : ∀ k p, phdrs[k]? = some p → frame.segment memory (i + k) = p)
    (misses : ∀ w ∈ (segmentsOf content phdrs).2, ∀ a, w.Touches a → ¬ frame.Own a) :
    Runs (loadSegmentsIn (contentFile (some content)) frame slots i memory) pos fun r _ =>
      r.1 = (segmentsOf content phdrs).1 ∧ r.2.2 = (segmentsOf content phdrs).2 ∧
        frame.header r.2.1 = frame.header memory := by
  induction phdrs generalizing slots i memory pos with
  | nil =>
      rw [List.length_nil, Nat.add_zero] at count
      cases slots with
      | zero =>
          rw [loadSegmentsIn, if_neg (by omega)]
          exact Runs.pure ⟨rfl, rfl, rfl⟩
      | succ slots =>
          rw [loadSegmentsIn, if_neg (by omega)]
          exact Runs.pure ⟨rfl, rfl, rfl⟩
  | cons p rest ih =>
      rw [List.length_cons] at room count
      obtain ⟨slots, rfl⟩ : ∃ n, slots = n + 1 := ⟨slots - 1, by omega⟩
      have first : frame.segment memory i = p := same 0 p rfl
      have others : ∀ k q, rest[k]? = some q → frame.segment memory (i + 1 + k) = q := by
        intro k q at_k
        rw [Nat.add_assoc, Nat.add_comm 1 k]
        exact same (k + 1) q at_k
      rw [loadSegmentsIn, if_pos (by omega), first]
      rw [segmentsOf] at misses ⊢
      by_cases load : p.type = ptLoad
      swap
      · rw [if_neg load] at misses ⊢
        rw [if_neg load]
        exact ih slots (i + 1) memory pos (by omega) (by omega) (by omega) others misses
      rw [if_pos load] at misses ⊢
      rw [if_pos load]
      obtain ⟨pos₁, ran⟩ := loadSegmentIn_content content frame i memory pos
      by_cases starts : Starts content p
      swap
      · rw [LoadFrame.segmentOf_skips first rfl starts] at ran
        rw [if_neg starts]
        exact Runs.step ran (Runs.pure ⟨rfl, rfl, rfl⟩)
      rw [if_pos starts] at misses ⊢
      have here : ∀ w ∈ segmentWrites content p, ∀ a, w.Touches a → ¬ frame.Own a := by
        intro w member
        refine misses w ?_
        split
        · exact List.mem_append_left _ member
        · exact member
      obtain ⟨memory', is, header, segment⟩ :=
        LoadFrame.segmentOf_misses (by omega) first starts here
      rw [is] at ran
      refine Runs.step ran ?_
      by_cases holds : Holds content p
      · rw [if_pos holds] at misses ⊢
        simp only [holds, decide_true, if_true]
        refine Runs.bind (ih slots (i + 1) memory' pos₁ (by omega) (by omega)
          (by rw [header]; omega) (fun k q at_k => ?_)
          fun w member => misses w (List.mem_append_right _ member)) ?_
        · have short := (List.getElem?_eq_some_iff.mp at_k).1
          exact (segment _ (by omega)).trans (others k q at_k)
        · rintro ⟨ok, memory'', more⟩ pos₂ ⟨rfl, rfl, last⟩
          exact Runs.pure ⟨rfl, rfl, last.trans header⟩
      · rw [if_neg holds]
        simp only [holds, decide_false, Bool.false_eq_true, if_false]
        exact Runs.pure ⟨rfl, rfl, header⟩

/-- What the loader writes for the file, read as if the headers were a list, goes nowhere into the
memory that the call runs on. -/
def LoadFrame.Misses (frame : LoadFrame) (file : Option Content) : Prop :=
  ∀ w ∈ (elfLoad file).2, ∀ a, w.Touches a → ¬ frame.Own a

/-- Such a program is loaded as if the headers were a list. -/
theorem elfLoadUserProgramIn_misses {file : Option Content} (misses : frame.Misses file)
    (memory : Buf) (pos : Nat) :
    Runs (elfLoadUserProgramIn (contentFile file) frame memory) pos fun r _ =>
      r = elfLoad file := by
  cases file with
  | none => exact ⟨_, pos, rfl, rfl⟩
  | some content =>
      obtain ⟨pos₁, read⟩ := readHeadersInto_content content frame memory pos
      unfold LoadFrame.Misses at misses
      simp only [elfLoadUserProgramIn, elfLoad] at misses ⊢
      refine Runs.step read ?_
      cases headers : headersOf content with
      | none => exact Runs.pure rfl
      | some found =>
          obtain ⟨eh, phdrs⟩ := found
          rw [headers] at misses
          obtain ⟨header, count, few, same⟩ := frame.putHeaders_spec memory headers
          refine Runs.bind (loadSegmentsIn_misses phdrs elfMaxPhdrs 0
            (frame.putHeaders content memory) pos₁ (by omega) (by omega)
            (by rw [header, count]; omega) (fun k p at_k => by
              rw [Nat.zero_add]
              exact same k p at_k) misses) ?_
          rintro ⟨ok, memory', writes⟩ pos₂ ⟨rfl, rfl, last⟩
          refine Runs.pure ?_
          simp only at last ⊢
          rw [last, header]

end Misses

/-- For every file, wherever the loader's variables lie: it returns, and all bytes that it writes
lie in the window, if and only if every segment it gets to stays there, by the headers as memory
holds them, and out of the other memory that it runs on.  For a program that misses the frame
these are the headers of the file. -/
theorem loader_stays_in_window_iff (file : Option Content) (frame : LoadFrame) (memory : Buf)
    (pos : Nat) :
    (Runs (elfLoadUserProgramIn (contentFile file) frame memory) pos
        (fun r _ => WritesInWindow r.2) ↔
      ∀ content, file = some content → headersOf content ≠ none →
        frame.SegmentsStay content elfMaxPhdrs 0 (frame.putHeaders content memory)) ∧
    (frame.Misses file →
      (Runs (elfLoadUserProgramIn (contentFile file) frame memory) pos
          (fun r _ => WritesInWindow r.2) ↔
        ∀ content eh phdrs, file = some content → headersOf content = some (eh, phdrs) →
          SegmentsStay content phdrs)) := by
  constructor
  · cases file with
    | none =>
        refine iff_of_true ⟨_, pos, rfl, writesInWindow_nil⟩ fun content same => ?_
        cases same
    | some content =>
        obtain ⟨pos₁, read⟩ := readHeadersInto_content content frame memory pos
        simp only [elfLoadUserProgramIn, Option.some.injEq, forall_eq']
        cases headers : headersOf content with
        | none =>
            rw [headers] at read
            exact iff_of_true (Runs.step read (Runs.pure writesInWindow_nil))
              fun no => absurd rfl no
        | some found =>
            rw [headers] at read
            simp only [ne_eq, reduceCtorEq, not_false_eq_true, true_implies]
            rw [← loadSegmentsIn_inWindow_iff elfMaxPhdrs 0 _ pos₁]
            constructor
            · rintro ⟨r, pos₂, returned, within⟩
              rw [run_bind_of_ok read] at returned
              obtain ⟨⟨ok, memory', writes⟩, pos₃, loop, last⟩ := bind_returns returned
              cases last
              exact ⟨_, _, loop, within⟩
            · intro runs
              refine Runs.step read (Runs.bind runs ?_)
              rintro ⟨ok, memory', writes⟩ pos₂ within
              exact Runs.pure within
  · intro misses
    rw [← loader_writes_in_window_iff file pos]
    obtain ⟨pos₁, ran⟩ := elfLoad_content file pos
    obtain ⟨r, pos₂, ran', rfl⟩ := elfLoadUserProgramIn_misses misses memory pos
    constructor
    · intro runs
      exact ⟨_, _, ran, runs.of_returned ran'⟩
    · intro runs
      exact ⟨_, _, ran', runs.of_returned ran⟩

/-- A stack at 0x300000. -/
def stackFrame : LoadFrame where
  eh := 0x300000
  phdrs := 0x300040
  others a := 0x300740 ≤ a && a < 0x310000
  eh_end := by decide
  phdrs_end := by decide
  apart := by decide

theorem stackFrame_own {a : Nat} (own : stackFrame.Own a) : 0x300000 ≤ a ∧ a < 0x310000 := by
  have ehdr : ehdrSize = 0x40 := rfl
  have table : phdrSize * elfMaxPhdrs = 0x700 := rfl
  rcases own with ⟨low, high⟩ | ⟨low, high⟩ | other
  · simp only [stackFrame] at low high
    omega
  · simp only [stackFrame] at low high
    omega
  · simp only [stackFrame, Bool.and_eq_true, decide_eq_true_eq] at other
    omega

/-- A program at 0x210000 is loaded in the window. -/
theorem low_program_stays :
    Runs (elfLoadUserProgramIn (contentFile (some lowProgram)) stackFrame fun _ => 0) 0
      (fun r _ => WritesInWindow r.2) := by
  have writes : (elfLoad (some lowProgram)).2 = [.copy 0x210000 [0xEB, 0xFE]] := by decide +kernel
  have misses : stackFrame.Misses (some lowProgram) := by
    rw [LoadFrame.Misses, writes]
    rintro w member _ ⟨j, inside, rfl⟩ own
    cases List.mem_singleton.mp member
    have place := stackFrame_own own
    simp only [Write.size, Write.address, List.length_cons, List.length_nil] at inside place
    omega
  refine ((loader_stays_in_window_iff (some lowProgram) stackFrame (fun _ => 0) 0).2 misses).mpr ?_
  intro content eh phdrs same headers
  cases same
  have table : (headersOf lowProgram).map Prod.snd = some [⟨1, 120, 0x210000, 2, 2⟩] := by
    decide +kernel
  rw [headers] at table
  cases table
  refine segmentsStay_cons.mpr ⟨fun _ _ => .inl (by decide), fun _ i p none => ?_⟩
  rw [List.getElem?_nil] at none
  cases none

/-- The end of the segment wraps to 0, which passes the check: the loader writes the last 4096
bytes of the address space. -/
theorem wrapping_program_leaves_window :
    ¬ Runs (elfLoadUserProgramIn (contentFile (some wrappingProgram)) stackFrame fun _ => 0) 0
      (fun r _ => WritesInWindow r.2) := by
  have writes : (elfLoad (some wrappingProgram)).2 =
      [.copy 0xFFFFFFFFFFFFF000 [], .zero 0xFFFFFFFFFFFFF000 0x1000] := by decide +kernel
  have misses : stackFrame.Misses (some wrappingProgram) := by
    rw [LoadFrame.Misses, writes]
    rintro w member _ ⟨j, inside, rfl⟩ own
    have place := stackFrame_own own
    rcases List.mem_cons.mp member with rfl | member
    · cases inside
    · cases List.mem_singleton.mp member
      simp only [Write.size, Write.address] at inside place
      omega
  obtain ⟨r, pos, ran, rfl⟩ := elfLoadUserProgramIn_misses misses (fun _ => 0) 0
  intro runs
  have within := runs.of_returned ran
  rw [writes] at within
  have outside := within _ (List.mem_cons_of_mem _ List.mem_cons_self) 0xFFFFFFFFFFFFF000
    ⟨0, by decide, by decide⟩
  simp only [InWindow, userLoadMax] at outside
  omega

end XosKernel.Arch
