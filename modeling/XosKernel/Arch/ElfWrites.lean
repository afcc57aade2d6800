/-
# Arch.ElfWrites -- what the loader writes

Over a file that is its bytes every step of the loader has a closed form: `read_exact` takes the
next bytes and succeeds if all are there, `skip_bytes` succeeds if the file is long enough.  So
the headers (`headersOf`) and the writes (`segmentWrites`) are functions of the bytes
(`elfLoad_content`), and a segment stays in `[USER_LOAD_MIN, USER_LOAD_MAX)` exactly when its
end does not wrap, or the file ends before the segment leaves the window
(`loader_writes_in_window_iff`).
-/
import XosKernel.Arch.Elf
import XosKernel.Fat32.ReadSpec

namespace XosKernel.Arch

open XosKernel.Theory XosKernel.Fat32

set_option autoImplicit false

/-! ## Reading -/

section Reading

variable (content : Content)

theorem content_read (count pos : Nat) :
    ((contentFile (some content)).read count).run pos =
      .ok ((toInt32 (min count (content.1.length - pos)), (content.1.drop pos).take count),
        pos + min count (content.1.length - pos)) := by
  have length : ((content.1.drop pos).take count).length = min count (content.1.length - pos) := by
    rw [List.length_take, List.length_drop]
  rw [← length]
  rfl

/-- The sign that `(int)bytes_read` gets. -/
theorem toInt32_pos_iff {n : Nat} (small : n < 2 ^ 32) :
    0 < toInt32 n ↔ 0 < n ∧ n < 2 ^ 31 := by
  unfold toInt32
  rw [Int.bmod_def]
  split <;> omega

theorem readExact_content (count pos : Nat) :
    (readExact (contentFile (some content)) count).run pos =
      .ok ((decide (count ≤ content.1.length - pos ∧ count < 2 ^ 31),
        (content.1.drop pos).take count), pos + min count (content.1.length - pos)) := by
  have small := content.2
  cases count with
  | zero =>
      simp only [readExact, readExactLoop, List.take_zero, Nat.zero_min, Nat.add_zero]
      rfl
  | succ passes =>
      simp only [readExact, readExactLoop, Nat.sub_zero, Nat.zero_lt_succ, if_true,
        List.nil_append]
      rw [run_bind_of_ok (content_read content (passes + 1) pos)]
      have sign := toInt32_pos_iff (n := min (passes + 1) (content.1.length - pos)) (by omega)
      by_cases positive : 0 < toInt32 (min (passes + 1) (content.1.length - pos))
      · have short := sign.mp positive
        have value := toInt32_of_small short.2
        simp only [not_le.mpr positive, if_false]
        by_cases all : passes + 1 ≤ content.1.length - pos
        · -- everything came at once, and the loop stops
          rw [Nat.min_eq_left all] at value short ⊢
          rw [value, Int.toNat_natCast, Nat.zero_add, decide_eq_true ⟨all, short.2⟩]
          cases passes with
          | zero => rfl
          | succ passes =>
              simp only [readExactLoop, Nat.lt_irrefl, if_false]
              rfl
        · -- the file ended, and the next read returns nothing
          rw [Nat.min_eq_right (by omega)] at value short ⊢
          rw [value, Int.toNat_natCast, Nat.zero_add, decide_eq_false (by omega)]
          obtain ⟨passes, rfl⟩ : ∃ p, passes = p + 1 := ⟨passes - 1, by omega⟩
          simp only [readExactLoop]
          rw [if_pos (by omega), run_bind_of_ok (content_read content _ _)]
          have nothing : content.1.length - (pos + (content.1.length - pos)) = 0 := by omega
          have empty : content.1.drop (pos + (content.1.length - pos)) = [] :=
            List.drop_eq_nil_of_le (by omega)
          rw [nothing, Nat.min_zero, empty]
          simp only [show toInt32 0 = 0 from rfl, Int.le_refl, if_true, List.take_nil,
            List.append_nil]
          rfl
      · simp only [not_lt.mp positive, if_true]
        rw [decide_eq_false (by omega)]
        rfl

theorem skipBytesLoop_content (passes : Nat) : ∀ (count pos : Nat), count ≤ passes →
    (skipBytesLoop (contentFile (some content)) passes count).run pos =
      .ok (decide (count ≤ content.1.length - pos), pos + min count (content.1.length - pos)) := by
  induction passes with
  | zero =>
      intro count pos bound
      obtain rfl : count = 0 := by omega
      simp only [skipBytesLoop, Nat.zero_le, decide_true, Nat.zero_min, Nat.add_zero]
      rfl
  | succ passes ih =>
      intro count pos bound
      simp only [skipBytesLoop]
      by_cases left : 0 < count
      · rw [if_pos left, run_bind_of_ok (content_read content _ _)]
        generalize chunk : min (min count elfScratchChunk) (content.1.length - pos) = n
        have short : n ≤ 128 := by simp only [elfScratchChunk] at chunk; omega
        simp only [elfScratchChunk] at chunk
        rw [toInt32_of_small (by omega)]
        by_cases ended : n = 0
        · have none : ¬ count ≤ content.1.length - pos := by omega
          have nothing : min count (content.1.length - pos) = 0 := by omega
          rw [decide_eq_false none, nothing, ended]
          simp only [Nat.cast_zero, Int.le_refl, if_true]
          rfl
        · rw [if_neg (by omega), Int.toNat_natCast, ih (count - n) (pos + n) (by omega)]
          congr 2
          · rw [decide_eq_decide]
            omega
          · omega
      · obtain rfl : count = 0 := by omega
        rw [if_neg left]
        simp only [Nat.zero_le, decide_true, Nat.zero_min, Nat.add_zero]
        rfl

theorem skipBytes_content (count pos : Nat) :
    (skipBytes (contentFile (some content)) count).run pos =
      .ok (decide (count ≤ content.1.length - pos), pos + min count (content.1.length - pos)) :=
  skipBytesLoop_content content count count pos (Nat.le_refl _)

end Reading

/-! ## Headers and segments as functions of the bytes -/

/-- The header at an offset. -/
def phdrAt (content : Content) (off : Nat) : Phdr :=
  Phdr.load ((content.1.drop off).take phdrSize)

/-- The file header and the program headers of a file that the loader accepts. -/
def headersOf (content : Content) : Option (Ehdr × List Phdr) :=
  let eh := Ehdr.load (content.1.take ehdrSize)
  if ehdrSize ≤ content.1.length ∧ eh.supported ∧ ehdrSize ≤ eh.phoff ∧
      eh.phoff + phdrSize * eh.phnum ≤ content.1.length then
    some (eh, (List.range eh.phnum).map fun i => phdrAt content (eh.phoff + phdrSize * i))
  else
    none

/-- The file holds all bytes of the segment, and `fat32_read` can return their number. -/
def Holds (content : Content) (p : Phdr) : Prop :=
  p.offset + p.filesz ≤ content.1.length ∧ p.filesz < 2 ^ 31

instance (content : Content) (p : Phdr) : Decidable (Holds content p) := instDecidableAnd

/-- What loading a segment writes, if its header is supported and it starts within the file. -/
def segmentWrites (content : Content) (p : Phdr) : List Write :=
  .copy p.vaddr ((content.1.drop p.offset).take p.filesz) ::
    if Holds content p ∧ p.filesz < p.memsz then
      [.zero ((p.vaddr + p.filesz) % 2 ^ 64) (p.memsz - p.filesz)]
    else []

/-- The loader gets as far as to read the segment. -/
def Starts (content : Content) (p : Phdr) : Prop :=
  p.supported = true ∧ p.offset ≤ content.1.length

instance (content : Content) (p : Phdr) : Decidable (Starts content p) := instDecidableAnd

/-- The loop over the headers, on the bytes. -/
def segmentsOf (content : Content) : List Phdr → Bool × List Write
  | [] => (true, [])
  | p :: rest =>
      if p.type = ptLoad then
        if Starts content p then
          if Holds content p then
            ((segmentsOf content rest).1, segmentWrites content p ++ (segmentsOf content rest).2)
          else (false, segmentWrites content p)
        else (false, [])
      else segmentsOf content rest

section Closed

variable (content : Content)

theorem readPhdrs_content (n pos : Nat) :
    ∃ pos', (readHeaders.readPhdrs (contentFile (some content)) n).run pos =
      .ok (if pos + phdrSize * n ≤ content.1.length ∨ n = 0 then
        some ((List.range n).map fun i => phdrAt content (pos + phdrSize * i))
        else none, pos') := by
  induction n generalizing pos with
  | zero =>
      rw [if_pos (.inr rfl)]
      exact ⟨pos, rfl⟩
  | succ n ih =>
      simp only [readHeaders.readPhdrs]
      rw [run_bind_of_ok (readExact_content content phdrSize pos)]
      by_cases here : phdrSize ≤ content.1.length - pos
      · simp only [here, show phdrSize < 2 ^ 31 by decide, and_self, decide_true, if_true]
        rw [Nat.min_eq_left here]
        obtain ⟨pos', ran⟩ := ih (pos + phdrSize)
        rw [run_bind_of_ok ran]
        refine ⟨pos', ?_⟩
        have enough : pos + phdrSize + phdrSize * n ≤ content.1.length ∨ n = 0 ↔
            pos + phdrSize * (n + 1) ≤ content.1.length ∨ n + 1 = 0 := by
          simp only [phdrSize] at here ⊢
          omega
        simp only [enough]
        split
        · rw [List.range_succ_eq_map, List.map_cons, List.map_map]
          have shift : ((fun i => phdrAt content (pos + phdrSize * i)) ∘ Nat.succ) =
              fun i => phdrAt content (pos + phdrSize + phdrSize * i) := by
            funext i
            simp only [Function.comp, Nat.mul_succ]
            rw [Nat.add_right_comm, Nat.add_assoc]
          rw [shift]
          rfl
        · rfl
      · have short : ¬ (pos + phdrSize * (n + 1) ≤ content.1.length ∨ n + 1 = 0) := by
          simp only [phdrSize] at here ⊢
          omega
        rw [if_neg short]
        simp only [here, false_and, decide_false, Bool.false_eq_true, if_false]
        exact ⟨_, rfl⟩

theorem content_position (pos : Nat) : (contentFile (some content)).position pos = pos := rfl

theorem openPath_content (pos : Nat) :
    (contentFile (some content)).openPath.run pos = .ok (true, 0) := rfl

/-- The header checks are those of `headersOf`. -/
theorem readHeaders_content (pos : Nat) :
    ∃ pos', (readHeaders (contentFile (some content))).run pos =
      .ok (headersOf content, pos') := by
  simp only [readHeaders]
  rw [run_bind_of_ok (openPath_content content pos), if_pos rfl,
    run_bind_of_ok (readExact_content content ehdrSize 0)]
  simp only [List.drop_zero, Nat.sub_zero, Nat.zero_add, headersOf]
  generalize eh_eq : Ehdr.load (content.1.take ehdrSize) = eh
  by_cases accepted : ehdrSize ≤ content.1.length ∧ eh.supported = true
  · obtain ⟨long, supported⟩ := accepted
    have entries : eh.phnum ≠ 0 := by
      simp only [Ehdr.supported, Bool.and_eq_true, bne_iff_ne] at supported
      exact supported.1.2.1.2
    have small : ehdrSize < 2 ^ 31 := by decide
    simp only [long, small, supported, and_self, decide_true, Bool.and_self, if_true, true_and]
    rw [run_bind_of_ok (show (get : StateT Nat (Except Ub) Nat).run _ = _ from rfl),
      Nat.min_eq_left long]
    rw [content_position]
    by_cases below : eh.phoff < ehdrSize
    · rw [if_pos below, if_neg (by omega)]
      exact ⟨_, rfl⟩
    · rw [if_neg below]
      rw [run_bind_of_ok (skipBytes_content content (eh.phoff - ehdrSize) ehdrSize)]
      by_cases inside : eh.phoff ≤ content.1.length
      · rw [if_pos (decide_eq_true (by omega)), Nat.min_eq_left (by omega),
          show ehdrSize + (eh.phoff - ehdrSize) = eh.phoff by omega]
        obtain ⟨pos'', table⟩ := readPhdrs_content content eh.phnum eh.phoff
        rw [run_bind_of_ok table]
        refine ⟨pos'', ?_⟩
        have low : ehdrSize ≤ eh.phoff := by omega
        simp only [entries, or_false, low, true_and]
        split <;> rfl
      · have short : ¬ (ehdrSize ≤ eh.phoff ∧
            eh.phoff + phdrSize * eh.phnum ≤ content.1.length) := by omega
        rw [if_neg (by simp; omega), if_neg short]
        exact ⟨_, rfl⟩
  · rw [if_neg (by
      simp only [Bool.and_eq_true, decide_eq_true_eq]
      exact fun both => accepted ⟨both.1.1, both.2⟩),
      if_neg (fun all => accepted ⟨all.1, all.2.1⟩)]
    exact ⟨_, rfl⟩

theorem loadSegment_content (p : Phdr) (pos : Nat) :
    ∃ pos', (loadSegment (contentFile (some content)) p).run pos =
      .ok (if Starts content p then (decide (Holds content p), segmentWrites content p)
        else (false, []), pos') := by
  simp only [loadSegment]
  by_cases supported : p.supported = true
  · rw [if_pos supported, run_bind_of_ok (openPath_content content pos), if_pos rfl]
    rw [run_bind_of_ok (skipBytes_content content p.offset 0), Nat.sub_zero]
    by_cases inside : p.offset ≤ content.1.length
    · have starts : Starts content p := ⟨supported, inside⟩
      rw [if_pos (decide_eq_true inside), Nat.min_eq_left inside, Nat.zero_add,
        run_bind_of_ok (readExact_content content p.filesz p.offset)]
      have holds : p.filesz ≤ content.1.length - p.offset ∧ p.filesz < 2 ^ 31 ↔
          Holds content p := by
        simp only [Holds]
        omega
      simp only [holds, starts, if_true, decide_eq_true_eq, segmentWrites]
      refine ⟨p.offset + min p.filesz (content.1.length - p.offset), ?_⟩
      by_cases all : Holds content p
      · by_cases bss : p.filesz < p.memsz
        · simp only [all, bss, and_self, if_true, decide_true]
          rfl
        · simp only [all, bss, and_false, if_true, if_false, decide_true]
          rfl
      · simp only [all, false_and, if_false, decide_false]
        rfl
    · rw [if_neg (by simpa using inside), if_neg (fun starts => inside starts.2)]
      exact ⟨_, rfl⟩
  · rw [if_neg supported, if_neg (fun starts => supported starts.1)]
    exact ⟨_, rfl⟩

theorem loadSegments_content (phdrs : List Phdr) (pos : Nat) :
    ∃ pos', (loadSegments (contentFile (some content)) phdrs).run pos =
      .ok (segmentsOf content phdrs, pos') := by
  induction phdrs generalizing pos with
  | nil => exact ⟨pos, rfl⟩
  | cons p rest ih =>
      simp only [loadSegments, segmentsOf]
      by_cases load : p.type = ptLoad
      · obtain ⟨pos₁, ran⟩ := loadSegment_content content p pos
        rw [if_pos load, if_pos load, run_bind_of_ok ran]
        by_cases starts : Starts content p
        · by_cases holds : Holds content p
          · obtain ⟨pos₂, more⟩ := ih pos₁
            simp only [starts, holds, if_true, decide_true]
            rw [run_bind_of_ok more]
            exact ⟨pos₂, rfl⟩
          · simp only [starts, holds, if_true, if_false, decide_false]
            exact ⟨pos₁, rfl⟩
        · simp only [starts, if_false]
          exact ⟨pos₁, rfl⟩
      · rw [if_neg load, if_neg load]
        exact ih pos

end Closed

/-- What `elf_load_user_program` returns and writes, as a function of the bytes. -/
def elfLoad : Option Content → Option Nat × List Write
  | none => (none, [])
  | some content =>
      match headersOf content with
      | none => (none, [])
      | some (eh, phdrs) =>
          (if (segmentsOf content phdrs).1 then some eh.entry else none,
            (segmentsOf content phdrs).2)

/-- The loader computes `elfLoad`. -/
theorem elfLoad_content (file : Option Content) (pos : Nat) :
    ∃ pos', (elfLoadUserProgram (contentFile file)).run pos = .ok (elfLoad file, pos') := by
  cases file with
  | none => exact ⟨pos, rfl⟩
  | some content =>
      obtain ⟨pos₁, headers⟩ := readHeaders_content content pos
      simp only [elfLoadUserProgram, elfLoad]
      rw [run_bind_of_ok headers]
      cases headersOf content with
      | none => exact ⟨pos₁, rfl⟩
      | some found =>
          obtain ⟨pos₂, segments⟩ := loadSegments_content content found.2 pos₁
          simp only
          rw [run_bind_of_ok segments]
          exact ⟨pos₂, rfl⟩

/-! ## The window -/

/-- The bytes a program may be loaded to. -/
def InWindow (a : Nat) : Prop := userLoadMin ≤ a ∧ a < userLoadMax

/-- Every byte that is written lies in the window. -/
def WritesInWindow (writes : List Write) : Prop := ∀ w ∈ writes, ∀ a, w.Touches a → InWindow a

/-- The end of the segment does not wrap, or the file ends inside of it, at a byte that still
lies in the window. -/
def StaysInWindow (content : Content) (p : Phdr) : Prop :=
  p.vaddr + p.memsz < 2 ^ 64 ∨
    content.1.length < p.offset + p.filesz ∧
      (content.1.length = p.offset ∨
        p.vaddr + (content.1.length - p.offset) ≤ userLoadMax)

theorem Phdr.supported_iff (p : Phdr) :
    p.supported = true ↔ p.filesz ≤ p.memsz ∧ userLoadMin ≤ p.vaddr ∧
      (p.vaddr + p.memsz) % 2 ^ 64 < userLoadMax := by
  simp only [Phdr.supported, Bool.and_eq_true, decide_eq_true_eq]

/-- The fields of a header have 64 bits. -/
structure Phdr.Fits (p : Phdr) : Prop where
  vaddr : p.vaddr < 2 ^ 64
  memsz : p.memsz < 2 ^ 64

theorem Phdr.load_fits (bytes : List UInt8) : (Phdr.load bytes).Fits :=
  ⟨Buf.le_lt _ 16 8, Buf.le_lt _ 40 8⟩

/-- A write stays in the window exactly if its ends do: a write that wraps covers the last
byte of the address space. -/
theorem touches_inWindow_iff {w : Write} (low : w.address < 2 ^ 64) :
    (∀ a, w.Touches a → InWindow a) ↔
      w.size = 0 ∨ userLoadMin ≤ w.address ∧ w.address + w.size ≤ userLoadMax := by
  simp only [userLoadMin, userLoadMax]
  constructor
  · intro within
    by_cases empty : w.size = 0
    · exact .inl empty
    · have first := within w.address ⟨0, by omega, by omega⟩
      simp only [InWindow, userLoadMin, userLoadMax] at first
      by_cases wraps : 2 ^ 64 ≤ w.address + w.size
      · have last := within (2 ^ 64 - 1) ⟨2 ^ 64 - 1 - w.address, by omega, by omega⟩
        simp only [InWindow, userLoadMax] at last
        omega
      · have last := within (w.address + w.size - 1) ⟨w.size - 1, by omega, by omega⟩
        simp only [InWindow, userLoadMax] at last
        omega
  · rintro fits a ⟨j, inside, rfl⟩
    rw [Nat.mod_eq_of_lt (by omega)]
    simp only [InWindow, userLoadMin, userLoadMax]
    omega

theorem segmentWrites_inWindow_iff {content : Content} {p : Phdr} (fits : p.Fits)
    (starts : Starts content p) :
    WritesInWindow (segmentWrites content p) ↔ StaysInWindow content p := by
  obtain ⟨sizes, low, high⟩ := p.supported_iff.mp starts.1
  have ⟨vaddr, memsz⟩ := fits
  have inside := starts.2
  have copied := touches_inWindow_iff
    (w := .copy p.vaddr ((content.1.drop p.offset).take p.filesz)) vaddr
  have bss := touches_inWindow_iff (w := .zero ((p.vaddr + p.filesz) % 2 ^ 64) (p.memsz - p.filesz))
    (Nat.mod_lt _ (by decide))
  simp only [Write.size, Write.address, List.length_take, List.length_drop] at copied bss
  simp only [WritesInWindow, segmentWrites, StaysInWindow]
  simp only [userLoadMin, userLoadMax] at *
  by_cases whole : Holds content p ∧ p.filesz < p.memsz
  · rw [if_pos whole]
    simp only [List.mem_cons, List.not_mem_nil, or_false, forall_eq_or_imp, forall_eq, copied, bss]
    simp only [Holds] at whole
    omega
  · rw [if_neg whole]
    simp only [List.mem_singleton, forall_eq, copied]
    simp only [Holds] at whole
    omega

/-- The loop gets to the header at `i`: every segment before it is loaded whole. -/
def Reaches (content : Content) (phdrs : List Phdr) (i : Nat) : Prop :=
  ∀ j < i, ∀ p, phdrs[j]? = some p → p.type = ptLoad → Starts content p ∧ Holds content p

theorem reaches_zero (content : Content) (phdrs : List Phdr) : Reaches content phdrs 0 :=
  fun j before => absurd before (Nat.not_lt_zero j)

theorem reaches_succ {content : Content} {p : Phdr} {rest : List Phdr} {i : Nat} :
    Reaches content (p :: rest) (i + 1) ↔
      (p.type = ptLoad → Starts content p ∧ Holds content p) ∧ Reaches content rest i := by
  constructor
  · intro reaches
    exact ⟨reaches 0 (Nat.succ_pos _) p rfl,
      fun j before q at_j => reaches (j + 1) (Nat.succ_lt_succ before) q at_j⟩
  · rintro ⟨first, later⟩ j before q at_j load
    cases j with
    | zero =>
        cases at_j
        exact first load
    | succ j => exact later j (Nat.lt_of_succ_lt_succ before) q at_j load

/-- Every segment that the loop gets to stays in the window. -/
def SegmentsStay (content : Content) (phdrs : List Phdr) : Prop :=
  ∀ i p, phdrs[i]? = some p → Reaches content phdrs i → p.type = ptLoad → Starts content p →
    StaysInWindow content p

theorem segmentsStay_cons {content : Content} {p : Phdr} {rest : List Phdr} :
    SegmentsStay content (p :: rest) ↔
      (p.type = ptLoad → Starts content p → StaysInWindow content p) ∧
        ((p.type = ptLoad → Starts content p ∧ Holds content p) → SegmentsStay content rest) := by
  constructor
  · intro stay
    exact ⟨stay 0 p rfl (reaches_zero _ _), fun loaded i q at_i reaches =>
      stay (i + 1) q at_i (reaches_succ.mpr ⟨loaded, reaches⟩)⟩
  · rintro ⟨first, later⟩ i q at_i reaches
    cases i with
    | zero =>
        cases at_i
        exact first
    | succ i =>
        obtain ⟨loaded, reaches'⟩ := reaches_succ.mp reaches
        exact later loaded i q at_i reaches'

theorem writesInWindow_append {l l' : List Write} :
    WritesInWindow (l ++ l') ↔ WritesInWindow l ∧ WritesInWindow l' :=
  List.forall_mem_append

theorem segmentsOf_inWindow_iff {content : Content} {phdrs : List Phdr}
    (fits : ∀ p ∈ phdrs, p.Fits) :
    WritesInWindow (segmentsOf content phdrs).2 ↔ SegmentsStay content phdrs := by
  induction phdrs with
  | nil => simp [segmentsOf, WritesInWindow, SegmentsStay]
  | cons p rest ih =>
      have later := ih fun q member => fits q (List.mem_cons_of_mem _ member)
      rw [segmentsStay_cons, segmentsOf]
      by_cases load : p.type = ptLoad
      · by_cases starts : Starts content p
        · have here := segmentWrites_inWindow_iff (fits p List.mem_cons_self) starts
          by_cases holds : Holds content p
          · simp only [load, starts, holds, if_true, writesInWindow_append, here, later, and_self,
              true_implies]
          · simp only [load, starts, holds, if_true, if_false, here, and_false, true_implies,
              false_implies, and_true]
        · simp [load, starts, WritesInWindow]
      · simp only [load, if_false, later, false_implies, true_implies, true_and]

theorem headersOf_fits {content : Content} {eh : Ehdr} {phdrs : List Phdr}
    (headers : headersOf content = some (eh, phdrs)) : ∀ p ∈ phdrs, p.Fits := by
  simp only [headersOf] at headers
  split at headers
  · cases headers
    intro p member
    obtain ⟨i, -, rfl⟩ := List.mem_map.mp member
    exact Phdr.load_fits _
  · cases headers

/-- For every file: all bytes that `elf_load_user_program` writes lie in the window if and only
if every segment it gets to stays in the window. -/
theorem loader_writes_in_window_iff (file : Option Content) (pos : Nat) :
    Runs (elfLoadUserProgram (contentFile file)) pos (fun r _ => WritesInWindow r.2) ↔
      ∀ content eh phdrs, file = some content → headersOf content = some (eh, phdrs) →
        SegmentsStay content phdrs := by
  obtain ⟨pos', ran⟩ := elfLoad_content file pos
  have runs : Runs (elfLoadUserProgram (contentFile file)) pos (fun r _ => WritesInWindow r.2) ↔
      WritesInWindow (elfLoad file).2 :=
    ⟨fun h => h.of_returned ran, fun h => ⟨_, _, ran, h⟩⟩
  rw [runs]
  cases file with
  | none => simp [elfLoad, WritesInWindow]
  | some content =>
      simp only [elfLoad, Option.some.injEq]
      cases headers : headersOf content with
      | none =>
          refine ⟨fun _ content' eh phdrs same found => ?_, fun _ => by simp [WritesInWindow]⟩
          rw [← same, headers] at found
          cases found
      | some found =>
          obtain ⟨eh, phdrs⟩ := found
          simp only
          rw [segmentsOf_inWindow_iff (headersOf_fits headers)]
          constructor
          · rintro stay content' eh' phdrs' rfl same
            rw [headers] at same
            cases same
            exact stay
          · intro stay
            exact stay content eh phdrs rfl headers

/-- An executable of one segment: 4096 zero bytes, up to the last byte of the address space. -/
def wrappingProgram : Content :=
  ⟨[0x7F, 0x45, 0x4C, 0x46, 2, 1, 1, 0, 0, 0, 0, 0, 0, 0, 0, 0,
    2, 0, 62, 0, 1, 0, 0, 0,
    0, 0, 0x20, 0, 0, 0, 0, 0,
    64, 0, 0, 0, 0, 0, 0, 0,
    0, 0, 0, 0, 0, 0, 0, 0,
    0, 0, 0, 0, 64, 0, 56, 0, 1, 0, 64, 0, 0, 0, 0, 0,
    1, 0, 0, 0, 6, 0, 0, 0,
    0, 0, 0, 0, 0, 0, 0, 0,
    0, 0xF0, 0xFF, 0xFF, 0xFF, 0xFF, 0xFF, 0xFF,
    0, 0xF0, 0xFF, 0xFF, 0xFF, 0xFF, 0xFF, 0xFF,
    0, 0, 0, 0, 0, 0, 0, 0,
    0, 0x10, 0, 0, 0, 0, 0, 0,
    0, 0x10, 0, 0, 0, 0, 0, 0], by decide⟩

end XosKernel.Arch
