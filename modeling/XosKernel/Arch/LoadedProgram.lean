/-
# Arch.LoadedProgram -- memory after a program was loaded

The writes of the loader are put into memory byte by byte (`Write.store`).  A segment that does
not wrap then holds its bytes of the file and zeros behind them, segments that are disjoint do
not disturb each other, and a byte that belongs to no segment keeps its value
(`program_loaded`).

The loader is taken over any file service that delivers the bytes of the file in order.  Its
two `while` loops, `read_exact` and `skip_bytes`, end on every file: each pass that goes on has
read a byte.
-/
import XosKernel.Arch.FileReads
import XosKernel.Arch.ProgramMemory
import XosKernel.Theory.Loop

namespace XosKernel.Arch

open XosKernel.Theory XosKernel.Fat32

set_option autoImplicit false

/-! ## The loops end -/

section Loops

variable {σ : Type} (files : FileService σ)

/-- One pass of the loop of `read_exact`, over `total` and the bytes put so far. -/
def readExactPass (count : Nat) :
    Nat × List UInt8 → StateT σ (Except Ub) ((Nat × List UInt8) ⊕ (Bool × List UInt8))
  | (total, out) => do
      if total < count then
        let (n, bytes) ← files.read (count - total)
        if n ≤ 0 then
          return .inr (false, out ++ bytes)
        else
          return .inl (total + n.toNat, out ++ bytes)
      else
        return .inr (true, out)

/-- One pass of the loop of `skip_bytes`. -/
def skipBytesPass (count : Nat) : StateT σ (Except Ub) (Nat ⊕ Bool) := do
  if 0 < count then
    let (n, _) ← files.read (min count elfScratchChunk)
    if n ≤ 0 then
      return .inr false
    else
      return .inl (count - n.toNat)
  else
    return .inr true

/-- `read_exact` ends with what the model says, whenever the reads return. -/
theorem readExact_ends {count : Nat} {s s' : σ} {r : Bool × List UInt8}
    (ran : (readExact files count).run s = .ok (r, s')) :
    Ends (readExactPass files count) (0, []) s r s' := by
  refine Ends.of_bounded (fun n (a : Nat × List UInt8) => readExactLoop files count n a.1 a.2)
    (fun a => count - a.1) ?_ ?_ ?_ (Nat.le_refl count) ran
  · rintro n ⟨total, out⟩
    simp only [readExactLoop, readExactPass]
    split
    · rw [bind_assoc]
      congr 1
      funext read
      split <;> rfl
    · rfl
  · rintro ⟨total, out⟩ s a' s' pass
    simp only [readExactPass] at pass
    split at pass
    · next below =>
        obtain ⟨read, t, -, rest⟩ := bind_returns pass
        split at rest
        · cases rest
        · cases rest
          simp only
          omega
    · cases pass
  · rintro ⟨total, out⟩ s r s' reached ended
    simp only [readExactPass]
    rw [if_neg (by simp only at reached; omega)]
    cases ended
    rfl

theorem skipBytes_ends {count : Nat} {s s' : σ} {r : Bool}
    (ran : (skipBytes files count).run s = .ok (r, s')) :
    Ends (skipBytesPass files) count s r s' := by
  refine Ends.of_bounded (skipBytesLoop files) id ?_ ?_ ?_ (Nat.le_refl count) ran
  · intro n count
    simp only [skipBytesLoop, skipBytesPass]
    split
    · rw [bind_assoc]
      congr 1
      funext read
      split <;> rfl
    · rfl
  · intro count s left s' pass
    simp only [skipBytesPass] at pass
    split at pass
    · next positive =>
        obtain ⟨read, t, -, rest⟩ := bind_returns pass
        split at rest
        · cases rest
        · cases rest
          simp only [id]
          omega
    · cases pass
  · intro count s r s' reached ended
    simp only [skipBytesPass]
    rw [if_neg (by simp only [id] at reached; omega)]
    cases ended
    rfl

end Loops

/-! ## Any service that delivers the file -/

section Service

variable {σ : Type}

/-- The service opens the file and reads its bytes in order; `R` says at which position its
handle stands. -/
structure Delivers (files : FileService σ) (content : Content) (R : σ → Nat → Prop) : Prop where
  opens : ∀ s t, R s t → Matches R files.openPath (contentFile (some content)).openPath s t
  reads : SameReads files (contentFile (some content)) R
  position : ∀ s t, R s t → files.position s = t

/-- A file that is its bytes delivers them. -/
theorem contentFile_delivers (content : Content) :
    Delivers (contentFile (some content)) content Eq where
  opens := by
    rintro s _ rfl
    exact ⟨true, 0, 0, rfl, rfl, rfl⟩
  reads := by
    rintro count s _ rfl
    exact ⟨_, _, _, content_read content count s, content_read content count s, rfl⟩
  position := by
    rintro s _ rfl
    rfl

variable {files : FileService σ} {content : Content} {R : σ → Nat → Prop}

theorem readExact_matches (delivers : Delivers files content R) (count : Nat) {s : σ} {t : Nat}
    (related : R s t) :
    Matches R (readExact files count) (readExact (contentFile (some content)) count) s t :=
  readExactLoop_matches delivers.reads count count 0 [] s t related

theorem skipBytes_matches (delivers : Delivers files content R) (count : Nat) {s : σ} {t : Nat}
    (related : R s t) :
    Matches R (skipBytes files count) (skipBytes (contentFile (some content)) count) s t :=
  skipBytesLoop_matches delivers.reads count count s t related

theorem readPhdrs_matches (delivers : Delivers files content R) (n : Nat) {s : σ} {t : Nat}
    (related : R s t) :
    Matches R (readHeaders.readPhdrs files n)
      (readHeaders.readPhdrs (contentFile (some content)) n) s t := by
  induction n generalizing s t with
  | zero => exact Matches.pure _ related
  | succ n ih =>
      refine Matches.bind (readExact_matches delivers phdrSize related) ?_
      rintro ⟨ok, bytes⟩ s' t' related'
      simp only
      split
      · exact Matches.bind (ih related') fun _ _ _ last => Matches.pure _ last
      · exact Matches.pure _ related'

theorem readHeaders_matches (delivers : Delivers files content R) {s : σ} {t : Nat}
    (related : R s t) :
    Matches R (readHeaders files) (readHeaders (contentFile (some content))) s t := by
  refine Matches.bind (delivers.opens s t related) fun opened s₁ t₁ related₁ => ?_
  split
  · refine Matches.bind (readExact_matches delivers ehdrSize related₁) ?_
    rintro ⟨ok, bytes⟩ s₂ t₂ related₂
    simp only
    split
    · refine Matches.get_bind ?_
      rw [delivers.position s₂ t₂ related₂, content_position]
      split
      · exact Matches.pure _ related₂
      · refine Matches.bind (skipBytes_matches delivers _ related₂) fun sought s₃ t₃ related₃ => ?_
        split
        · exact Matches.bind (readPhdrs_matches delivers _ related₃)
            fun _ _ _ last => Matches.pure _ last
        · exact Matches.pure _ related₃
    · exact Matches.pure _ related₂
  · exact Matches.pure _ related₁

theorem loadSegment_matches (delivers : Delivers files content R) (p : Phdr) {s : σ} {t : Nat}
    (related : R s t) :
    Matches R (loadSegment files p) (loadSegment (contentFile (some content)) p) s t := by
  rw [loadSegment, loadSegment]
  split
  · refine Matches.bind (delivers.opens s t related) fun opened s₁ t₁ related₁ => ?_
    split
    · refine Matches.bind (skipBytes_matches delivers _ related₁) fun sought s₂ t₂ related₂ => ?_
      split
      · refine Matches.bind (readExact_matches delivers _ related₂) ?_
        rintro ⟨ok, bytes⟩ s₃ t₃ related₃
        simp only
        split
        · split
          · exact Matches.pure _ related₃
          · exact Matches.pure _ related₃
        · exact Matches.pure _ related₃
      · exact Matches.pure _ related₂
    · exact Matches.pure _ related₁
  · exact Matches.pure _ related

theorem loadSegments_matches (delivers : Delivers files content R) (phdrs : List Phdr) {s : σ}
    {t : Nat} (related : R s t) :
    Matches R (loadSegments files phdrs) (loadSegments (contentFile (some content)) phdrs) s t := by
  induction phdrs generalizing s t with
  | nil => exact Matches.pure _ related
  | cons p rest ih =>
      rw [loadSegments, loadSegments]
      split
      · refine Matches.bind (loadSegment_matches delivers p related) ?_
        rintro ⟨ok, writes⟩ s₁ t₁ related₁
        simp only
        split
        · exact Matches.bind (ih related₁) fun _ _ _ last => Matches.pure _ last
        · exact Matches.pure _ related₁
      · exact ih related

/-- Over any such service the loader returns and writes what the bytes say. -/
theorem elfLoad_delivered (delivers : Delivers files content R) {s : σ} {t : Nat}
    (related : R s t) :
    Runs (elfLoadUserProgram files) s fun r _ => r = elfLoad (some content) := by
  have matched : Matches R (elfLoadUserProgram files)
      (elfLoadUserProgram (contentFile (some content))) s t := by
    refine Matches.bind (readHeaders_matches delivers related) fun headers s₁ t₁ related₁ => ?_
    cases headers with
    | none => exact Matches.pure _ related₁
    | some found =>
        exact Matches.bind (loadSegments_matches delivers found.2 related₁)
          fun _ _ _ last => Matches.pure _ last
  obtain ⟨t', ran⟩ := elfLoad_content (some content) t
  exact (matched.runs ran).mono fun _ _ both => both.1

end Service

/-! ## Memory -/

/-- Byte `j` of what is written. -/
def Write.byte : Write → Nat → UInt8
  | .copy _ bytes, j => bytes.getD j 0
  | .zero _ _, _ => 0

/-- Memory after a write, which puts its bytes one after the other; addresses wrap. -/
def Write.store (memory : Buf) (w : Write) : Buf :=
  (List.range w.size).foldl
    (fun m j => Function.update m ((w.address + j) % 2 ^ 64) (w.byte j)) memory

/-- Memory after all writes of the loader. -/
def storeAll (memory : Buf) (writes : List Write) : Buf := writes.foldl Write.store memory

theorem store_untouched {w : Write} {a : Nat} (untouched : ¬ w.Touches a) (memory : Buf) :
    w.store memory a = memory a := by
  have upto : ∀ n ≤ w.size, ((List.range n).foldl
      (fun m j => Function.update m ((w.address + j) % 2 ^ 64) (w.byte j)) memory) a =
        memory a := by
    intro n
    induction n with
    | zero => exact fun _ => rfl
    | succ n ih =>
        intro inside
        rw [List.range_succ, List.foldl_append, List.foldl_cons, List.foldl_nil,
          Function.update_of_ne fun same => untouched ⟨n, inside, same⟩]
        exact ih (Nat.le_of_succ_le inside)
  exact upto w.size (Nat.le_refl _)

/-- A write that does not wrap puts byte `k` at its place, and nothing over it. -/
theorem store_byte {w : Write} {k : Nat} (inside : k < w.size)
    (straight : w.address + w.size ≤ 2 ^ 64) (memory : Buf) :
    w.store memory (w.address + k) = w.byte k := by
  have upto : ∀ n ≤ w.size, k < n → ((List.range n).foldl
      (fun m j => Function.update m ((w.address + j) % 2 ^ 64) (w.byte j)) memory)
        (w.address + k) = w.byte k := by
    intro n
    induction n with
    | zero => exact fun _ none => absurd none (Nat.not_lt_zero k)
    | succ n ih =>
        intro within before
        rw [List.range_succ, List.foldl_append, List.foldl_cons, List.foldl_nil,
          Nat.mod_eq_of_lt (by omega)]
        by_cases here : k = n
        · subst here
          exact Function.update_self _ _ _
        · rw [Function.update_of_ne (by omega)]
          exact ih (by omega) (by omega)
  exact upto w.size (Nat.le_refl _) inside

theorem storeAll_untouched {writes : List Write} {a : Nat}
    (untouched : ∀ w ∈ writes, ¬ w.Touches a) (memory : Buf) :
    storeAll memory writes a = memory a := by
  induction writes generalizing memory with
  | nil => rfl
  | cons w rest ih =>
      have later := ih (fun v member => untouched v (List.mem_cons_of_mem _ member))
        (w.store memory)
      exact later.trans (store_untouched (untouched w List.mem_cons_self) memory)

/-! ## Segments in memory -/

/-- The file header. -/
def fileHeader (content : Content) : Ehdr := Ehdr.load (content.1.take ehdrSize)

/-- The program headers, in the order of the file. -/
def programHeaders (content : Content) : List Phdr :=
  (List.range (fileHeader content).phnum).map fun i =>
    phdrAt content ((fileHeader content).phoff + phdrSize * i)

/-- The `PT_LOAD` headers among them. -/
def loadHeaders (content : Content) : List Phdr :=
  (programHeaders content).filter fun p => p.type = ptLoad

/-- Memory holds the segments of the file, and else what it held before. -/
structure HoldsProgram (content : Content) (before memory : Buf) : Prop where
  file : ∀ p ∈ loadHeaders content, ∀ k < p.filesz,
    content.1[p.offset + k]? = some (memory (p.vaddr + k))
  bss : ∀ p ∈ loadHeaders content, ∀ k, p.filesz ≤ k → k < p.memsz → memory (p.vaddr + k) = 0
  outside : ∀ a, (∀ p ∈ loadHeaders content, ¬ p.Covers a) → memory a = before a

theorem storeAll_append (memory : Buf) (l l' : List Write) :
    storeAll memory (l ++ l') = storeAll (storeAll memory l) l' :=
  List.foldl_append

section Segment

variable {content : Content} {p : Phdr} (starts : Starts content p) (holds : Holds content p)
  (straight : p.vaddr + p.memsz ≤ 2 ^ 64) (memory : Buf)

include starts holds straight

theorem storeAll_segment_file {k : Nat} (inside : k < p.filesz) :
    content.1[p.offset + k]? =
      some (storeAll memory (segmentWrites content p) (p.vaddr + k)) := by
  have sizes := (p.supported_iff.mp starts.1).1
  have there : p.offset + k < content.1.length := by
    have whole := holds.1
    omega
  set bytes := (content.1.drop p.offset).take p.filesz with bytes_eq
  have length : bytes.length = p.filesz := by
    have whole := holds.1
    rw [bytes_eq, List.length_take, List.length_drop]
    omega
  have copied : (Write.copy p.vaddr bytes).store memory (p.vaddr + k) =
      content.1[p.offset + k] := by
    have put := store_byte (w := .copy p.vaddr bytes) (k := k)
      (by rw [Write.size, length]; exact inside)
      (by rw [Write.size, Write.address, length]; omega) memory
    rw [Write.address] at put
    rw [put, Write.byte, List.getD_eq_getElem _ _ (by omega)]
    simp [bytes_eq]
  -- the zeros come behind the bytes of the file
  have kept : storeAll memory (segmentWrites content p) (p.vaddr + k) =
      (Write.copy p.vaddr bytes).store memory (p.vaddr + k) := by
    rw [segmentWrites, ← bytes_eq]
    refine storeAll_untouched ?_ ((Write.copy p.vaddr bytes).store memory)
    intro w member
    split at member
    · obtain rfl := List.mem_singleton.mp member
      rintro ⟨j, below, same⟩
      simp only [Write.size, Write.address] at below same
      rw [Nat.mod_add_mod, Nat.mod_eq_of_lt (by omega)] at same
      omega
    · cases member
  rw [kept, copied, List.getElem?_eq_getElem there]

theorem storeAll_segment_bss {k : Nat} (low : p.filesz ≤ k) (high : k < p.memsz) :
    storeAll memory (segmentWrites content p) (p.vaddr + k) = 0 := by
  obtain ⟨sizes, lowest, -⟩ := p.supported_iff.mp starts.1
  have longer : p.filesz < p.memsz := by omega
  have base : (p.vaddr + p.filesz) % 2 ^ 64 = p.vaddr + p.filesz := Nat.mod_eq_of_lt (by omega)
  rw [segmentWrites, if_pos ⟨holds, longer⟩, base]
  have put := store_byte (w := .zero (p.vaddr + p.filesz) (p.memsz - p.filesz)) (k := k - p.filesz)
    (by simp only [Write.size]; omega) (by simp only [Write.size, Write.address]; omega)
    ((Write.copy p.vaddr ((content.1.drop p.offset).take p.filesz)).store memory)
  rw [Write.address, show p.vaddr + p.filesz + (k - p.filesz) = p.vaddr + k by omega] at put
  exact put

end Segment

/-- Segments that are disjoint do not disturb each other: at a byte of one of them, memory is
as that segment alone leaves it. -/
theorem storeAll_segments {content : Content} {phdrs : List Phdr} {p : Phdr} {a : Nat}
    (member : p ∈ phdrs) (loaded : ∀ q ∈ phdrs, Starts content q ∧ Holds content q)
    (disjoint : phdrs.Pairwise fun q q' => ∀ a, q.Covers a → ¬ q'.Covers a) (covers : p.Covers a)
    (memory : Buf) :
    ∃ before, storeAll memory (phdrs.flatMap (segmentWrites content)) a =
      storeAll before (segmentWrites content p) a := by
  obtain ⟨l, r, rfl⟩ := List.append_of_mem member
  refine ⟨storeAll memory (l.flatMap (segmentWrites content)), ?_⟩
  rw [List.flatMap_append, List.flatMap_cons, storeAll_append, storeAll_append]
  apply storeAll_untouched
  intro w written touches
  obtain ⟨q, later, wrote⟩ := List.mem_flatMap.mp written
  have apart := (List.pairwise_cons.mp (List.pairwise_append.mp disjoint).2.1).1 q later
  obtain ⟨starts, holds⟩ := loaded q (by simp [later])
  exact apart a covers ((segmentWrites_touches_iff starts holds a).mp ⟨w, wrote, touches⟩)

/-- What a file that is loaded holds, and what was written. -/
theorem elfLoad_loaded {content : Content} {entry : Nat}
    (ok : (elfLoad (some content)).1 = some entry) :
    entry = (fileHeader content).entry ∧
      (∀ p ∈ loadHeaders content, Starts content p ∧ Holds content p) ∧
      (elfLoad (some content)).2 = (loadHeaders content).flatMap (segmentWrites content) := by
  simp only [elfLoad] at ok ⊢
  cases headers : headersOf content with
  | none => simp [headers] at ok
  | some found =>
      obtain ⟨eh, phdrs⟩ := found
      have parsed : eh = fileHeader content ∧ phdrs = programHeaders content := by
        simp only [headersOf] at headers
        split at headers
        · have same := Prod.mk.inj (Option.some.inj headers)
          exact ⟨same.1.symm, same.2.symm⟩
        · cases headers
      obtain ⟨rfl, rfl⟩ := parsed
      simp only [headers] at ok ⊢
      split at ok
      · next whole =>
          obtain ⟨all, writes⟩ := segmentsOf_loaded whole
          refine ⟨(Option.some.inj ok).symm, fun p member => ?_, writes⟩
          obtain ⟨inside, load⟩ := List.mem_filter.mp member
          exact all p inside (by simpa using load)
      · cases ok

theorem elfLoad_holdsProgram {content : Content} {entry : Nat}
    (ok : (elfLoad (some content)).1 = some entry)
    (straight : ∀ p ∈ loadHeaders content, p.vaddr + p.memsz ≤ 2 ^ 64)
    (disjoint : (loadHeaders content).Pairwise fun p q => ∀ a, p.Covers a → ¬ q.Covers a)
    (memory : Buf) :
    HoldsProgram content memory (storeAll memory (elfLoad (some content)).2) := by
  obtain ⟨-, loaded, writes⟩ := elfLoad_loaded ok
  rw [writes]
  have covers : ∀ p ∈ loadHeaders content, ∀ k < p.memsz, p.Covers (p.vaddr + k) := by
    intro p member k inside
    have bound := straight p member
    exact ⟨k, inside, (Nat.mod_eq_of_lt (by omega)).symm⟩
  refine ⟨fun p member k inside => ?_, fun p member k low high => ?_, fun a outside => ?_⟩
  · obtain ⟨starts, holds⟩ := loaded p member
    have sizes := (p.supported_iff.mp starts.1).1
    obtain ⟨before, same⟩ := storeAll_segments member loaded disjoint
      (covers p member k (by omega)) memory
    rw [same]
    exact storeAll_segment_file starts holds (straight p member) before inside
  · obtain ⟨starts, holds⟩ := loaded p member
    obtain ⟨before, same⟩ := storeAll_segments member loaded disjoint
      (covers p member k high) memory
    rw [same]
    exact storeAll_segment_bss starts holds (straight p member) before low high
  · apply storeAll_untouched
    intro w written touches
    obtain ⟨p, member, wrote⟩ := List.mem_flatMap.mp written
    obtain ⟨starts, holds⟩ := loaded p member
    exact outside p member ((segmentWrites_touches_iff starts holds a).mp ⟨w, wrote, touches⟩)

/-- For every file that is delivered in order: the loader returns, its loops end, and if it
returns 0 for segments that do not wrap, are disjoint and miss the stack that the loader runs
on, then memory holds the program, the stack is as it was, and the entry point is that of the
header. -/
theorem program_loaded {σ : Type} (files : FileService σ) (content : Content)
    (R : σ → Nat → Prop) (delivers : Delivers files content R) (s : σ) (pos : Nat)
    (related : R s pos) (memory : Buf) (stack : Nat → Prop) :
    (∀ s pos count, R s pos →
      (∃ r s', Ends (readExactPass files count) (0, []) s r s' ∧
        (readExact files count).run s = .ok (r, s')) ∧
      ∃ r s', Ends (skipBytesPass files) count s r s' ∧
        (skipBytes files count).run s = .ok (r, s')) ∧
    Runs (elfLoadUserProgram files) s fun r _ => ∀ entry, r.1 = some entry →
      (∀ p ∈ loadHeaders content, p.vaddr + p.memsz ≤ 2 ^ 64) →
      ((loadHeaders content).Pairwise fun p q => ∀ a, p.Covers a → ¬ q.Covers a) →
      (∀ p ∈ loadHeaders content, ∀ a, p.Covers a → ¬ stack a) →
        entry = (fileHeader content).entry ∧
        HoldsProgram content memory (storeAll memory r.2) ∧
        ∀ a, stack a → storeAll memory r.2 a = memory a := by
  constructor
  · intro s pos count related
    obtain ⟨r, s₁, -, ran, -, -⟩ := readExact_matches delivers count related
    obtain ⟨r', s₂, -, ran', -, -⟩ := skipBytes_matches delivers count related
    exact ⟨⟨r, s₁, readExact_ends files ran, ran⟩, ⟨r', s₂, skipBytes_ends files ran', ran'⟩⟩
  · refine (elfLoad_delivered delivers related).mono ?_
    rintro _ s' rfl entry ok straight disjoint missed
    have holds := elfLoad_holdsProgram ok straight disjoint memory
    refine ⟨(elfLoad_loaded ok).1, holds, fun a on => holds.outside a fun p member covers => ?_⟩
    exact missed p member a covers on

/-- An executable of two segments: two bytes of code, and one of data with two zeros behind it. -/
def dataProgram : Content :=
  ⟨[0x7F, 0x45, 0x4C, 0x46, 2, 1, 1, 0, 0, 0, 0, 0, 0, 0, 0, 0,
    2, 0, 62, 0, 1, 0, 0, 0,
    0, 0, 0x21, 0, 0, 0, 0, 0,
    64, 0, 0, 0, 0, 0, 0, 0,
    0, 0, 0, 0, 0, 0, 0, 0,
    0, 0, 0, 0, 64, 0, 56, 0, 2, 0, 64, 0, 0, 0, 0, 0,
    1, 0, 0, 0, 5, 0, 0, 0,
    176, 0, 0, 0, 0, 0, 0, 0,
    0, 0, 0x21, 0, 0, 0, 0, 0,
    0, 0, 0x21, 0, 0, 0, 0, 0,
    2, 0, 0, 0, 0, 0, 0, 0,
    2, 0, 0, 0, 0, 0, 0, 0,
    0, 0x10, 0, 0, 0, 0, 0, 0,
    1, 0, 0, 0, 6, 0, 0, 0,
    178, 0, 0, 0, 0, 0, 0, 0,
    0, 0, 0x22, 0, 0, 0, 0, 0,
    0, 0, 0x22, 0, 0, 0, 0, 0,
    1, 0, 0, 0, 0, 0, 0, 0,
    3, 0, 0, 0, 0, 0, 0, 0,
    0, 0x10, 0, 0, 0, 0, 0, 0,
    0xEB, 0xFE, 0x2A], by decide +kernel⟩

/-- It is loaded over memory that holds 1 everywhere, before a stack behind it. -/
theorem data_program_loaded :
    Runs (elfLoadUserProgram (contentFile (some dataProgram))) 0 fun r _ =>
      r.1 = some 0x210000 ∧ (storeAll (fun _ => 1) r.2).toList 0x210000 3 = [0xEB, 0xFE, 1] ∧
        (storeAll (fun _ => 1) r.2).toList 0x220000 4 = [0x2A, 0, 0, 1] := by
  have headers : loadHeaders dataProgram =
      [⟨1, 176, 0x210000, 2, 2⟩, ⟨1, 178, 0x220000, 1, 3⟩] := by decide +kernel
  obtain ⟨pos', ran⟩ := elfLoad_content (some dataProgram) 0
  have entry : (elfLoad (some dataProgram)).1 = some 0x210000 := by decide +kernel
  have covers : ∀ p ∈ loadHeaders dataProgram, ∀ a, p.Covers a →
      p.vaddr ≤ a ∧ a < p.vaddr + 3 := by
    rw [headers]
    rintro p member a ⟨j, inside, rfl⟩
    rcases List.mem_pair.mp member with rfl | rfl
    · simp only at inside ⊢
      omega
    · simp only at inside ⊢
      omega
  have loaded := (program_loaded (contentFile (some dataProgram)) dataProgram Eq
    (contentFile_delivers dataProgram) 0 0 rfl (fun _ => 1) (fun a => 0x300000 ≤ a)).2.of_returned
      ran 0x210000 entry (by rw [headers]; decide)
      (by
        rw [headers] at covers ⊢
        refine List.pairwise_pair.mpr fun a first second => ?_
        have here := covers _ List.mem_cons_self a first
        have there := covers _ (List.mem_cons_of_mem _ List.mem_cons_self) a second
        simp only at here there
        omega)
      (by
        intro p member a on
        have place := covers p member a on
        rw [headers] at member
        rcases List.mem_pair.mp member with rfl | rfl
        · simp only at place ⊢
          omega
        · simp only at place ⊢
          omega)
  obtain ⟨-, holds, -⟩ := loaded
  refine ⟨_, pos', ran, entry, ?_⟩
  generalize storeAll (fun _ => 1) (elfLoad (some dataProgram)).2 = memory at holds ⊢
  have code : (⟨1, 176, 0x210000, 2, 2⟩ : Phdr) ∈ loadHeaders dataProgram := by
    rw [headers]
    exact List.mem_cons_self
  have data : (⟨1, 178, 0x220000, 1, 3⟩ : Phdr) ∈ loadHeaders dataProgram := by
    rw [headers]
    exact List.mem_cons_of_mem _ List.mem_cons_self
  have bytes : dataProgram.1[176]? = some 0xEB ∧ dataProgram.1[177]? = some 0xFE ∧
      dataProgram.1[178]? = some 0x2A := by decide +kernel
  have first : memory 0x210000 = 0xEB :=
    Option.some.inj ((holds.file _ code 0 (by decide)).symm.trans bytes.1)
  have second : memory 0x210001 = 0xFE :=
    Option.some.inj ((holds.file _ code 1 (by decide)).symm.trans bytes.2.1)
  have third : memory 0x220000 = 0x2A :=
    Option.some.inj ((holds.file _ data 0 (by decide)).symm.trans bytes.2.2)
  have zero₁ : memory 0x220001 = 0 := holds.bss _ data 1 (Nat.le_refl 1) (by decide)
  have zero₂ : memory 0x220002 = 0 := holds.bss _ data 2 (by decide) (by decide)
  have behind : ∀ a, a = 0x210002 ∨ a = 0x220003 → memory a = 1 := by
    intro a at_
    refine holds.outside a fun p member on => ?_
    rw [headers] at member
    obtain ⟨j, inside, is⟩ := on
    rcases List.mem_pair.mp member with rfl | rfl
    · simp only at inside is
      omega
    · simp only at inside is
      omega
  have rest₁ := behind 0x210002 (.inl rfl)
  have rest₂ := behind 0x220003 (.inr rfl)
  simp [Buf.toList, List.range_succ, first, second, third, zero₁, zero₂, rest₁, rest₂]

end XosKernel.Arch
