/-
# Boot.Loading -- from the disk to the kernel

`boot.asm` asks the BIOS for one sector at a time and keeps what it needs for the next one among
its own bytes: the sector, how many are left, where it goes, and the packet of the call.  The BIOS
is a parameter: a call fails or not as it likes, and one that does not fail puts the sectors of the
packet where the packet says (`Serves`).  The loop ends, either at the first call that fails or with
255 sectors in memory, none of them over the loader; and with the page tables of `kernel_entry.asm`
the processor finds them where the kernel was linked to be (`boots`).

The characters that are sent and the change of modes are left out.
-/
import XosKernel.Theory.Loop
import XosKernel.Arch.Paging

namespace XosKernel.Boot

open XosKernel.Theory XosKernel.Arch

set_option autoImplicit false

/-! ## `boot.asm` -/

/-- The data area, behind a short jump of two bytes. -/
def lbaSector : Nat := 0x7C02
def sectorsToRead : Nat := 0x7C04
def loadSegment : Nat := 0x7C05
def bootDrive : Nat := 0x7C07
def dap : Nat := 0x7C08

/-- The bytes of the data area. -/
def dataArea : List UInt8 :=
  [1, 0, 255, 0x00, 0x08, 0, 0x10, 0x00, 1, 0, 0x00, 0x00, 0x00, 0x08, 1, 0, 0, 0, 0, 0, 0, 0]

/-- `int 0x13` with 0x42 in `ah`: the number of the call, `dl`, `si` and the memory, to the carry
flag and the memory. -/
abbrev Bios := Nat → UInt8 → Nat → Buf → Bool × Buf

/-- How the loop is left. -/
inductive Outcome where
  | doneLoading
  | diskError (calls : Nat)
  deriving DecidableEq

/-- The stores into the packet. -/
def fillDap (mem : Buf) : Buf :=
  let mem := mem.putLe (dap + 8) 4 (mem.le lbaSector 2)
  let mem := mem.putLe (dap + 12) 4 0
  let mem := mem.putLe (dap + 4) 2 0x0000
  mem.putLe (dap + 6) 2 (mem.le loadSegment 2)

/-- `.read_ok` -/
def readOk (mem : Buf) : Buf :=
  let mem := mem.putLe lbaSector 2 (mem.le lbaSector 2 + 1)
  let mem := mem.putLe sectorsToRead 1 (mem.le sectorsToRead 1 + 255)
  mem.putLe loadSegment 2 (mem.le loadSegment 2 + 0x0020)

/-- A pass of `.load_loop`, after so many calls. -/
def loadLoop (bios : Bios) (calls : Nat) : StateT Buf (Except Empty) (Nat ⊕ Outcome) := do
  let mem ← get
  if mem.le sectorsToRead 1 = 0 then return .inr .doneLoading
  else
    let mem := fillDap mem
    let answer := bios calls (mem bootDrive) dap mem
    set answer.2
    if answer.1 then return .inr (.diskError calls)
    else
      modify readOk
      return .inl (calls + 1)

/-- `start` saves the drive. -/
def start (dl : UInt8) (mem : Buf) : Buf := mem.putLe bootDrive 1 dl.toNat

/-- Memory at call `n`, if no call before it fails. -/
def atCall (bios : Bios) (dl : UInt8) (mem : Buf) : Nat → Buf
  | 0 => fillDap (start dl mem)
  | n + 1 => fillDap (readOk (bios n dl dap (atCall bios dl mem n)).2)

/-! ## The BIOS -/

/-- Where the packet at an address says that the sectors go. -/
def target (packet : Nat) (mem : Buf) : Nat := mem.le (packet + 6) 2 * 16 + mem.le (packet + 4) 2

/-- How many bytes the packet asks for. -/
def transferred (packet : Nat) (mem : Buf) : Nat := 512 * mem.le (packet + 2) 2

/-- A call that does not fail reads the sectors of the drive, and changes nothing else of what the
loader uses. -/
structure Serves (bios : Bios) (drive : UInt8) (disk : Nat → Buf) : Prop where
  reads : ∀ calls packet mem, mem.le packet 2 = 0x10 → (bios calls drive packet mem).1 = false →
    ∀ i, i < transferred packet mem →
      (bios calls drive packet mem).2 (target packet mem + i) =
        disk (mem.le (packet + 8) 8 + i / 512) (i % 512)
  keeps : ∀ calls packet mem, mem.le packet 2 = 0x10 → (bios calls drive packet mem).1 = false →
    ∀ a, 0x7C00 ≤ a → a < 0x80000 →
      a < target packet mem ∨ target packet mem + transferred packet mem ≤ a →
      (bios calls drive packet mem).2 a = mem a

/-! ## The loop -/

section Loop

variable {bios : Bios} {drive : UInt8} {disk : Nat → Buf} {mbr : Buf}

/-- The memory after so many sectors. -/
structure Loading (drive : UInt8) (disk : Nat → Buf) (mbr : Buf) (n : Nat) (mem : Buf) : Prop where
  sector : mem.le lbaSector 2 = 1 + n
  left : mem.le sectorsToRead 1 = 255 - n
  segment : mem.le loadSegment 2 = 0x0800 + 0x0020 * n
  from_ : mem bootDrive = drive
  packet : mem.le dap 2 = 0x10
  count : mem.le (dap + 2) 2 = 1
  loaded : ∀ i, i < 512 * n → mem (0x8000 + i) = disk (1 + i / 512) (i % 512)
  code : ∀ a, 0x7C18 ≤ a → a < 0x7E00 → mem a = mbr a

theorem fillDap_outside (mem : Buf) {a : Nat} (outside : a < dap + 4 ∨ dap + 16 ≤ a) :
    fillDap mem a = mem a := by
  unfold fillDap
  rw [Buf.putLe_of_outside (by omega), Buf.putLe_of_outside (by omega),
    Buf.putLe_of_outside (by omega), Buf.putLe_of_outside (by omega)]

theorem readOk_outside (mem : Buf) {a : Nat} (outside : a < lbaSector ∨ bootDrive ≤ a) :
    readOk mem a = mem a := by
  unfold lbaSector bootDrive at outside
  unfold readOk lbaSector sectorsToRead loadSegment
  rw [Buf.putLe_of_outside (by omega), Buf.putLe_of_outside (by omega),
    Buf.putLe_of_outside (by omega)]

theorem readOk_fields (mem : Buf) :
    (readOk mem).le lbaSector 2 = (mem.le lbaSector 2 + 1) % 256 ^ 2 ∧
      (readOk mem).le sectorsToRead 1 = (mem.le sectorsToRead 1 + 255) % 256 ^ 1 ∧
      (readOk mem).le loadSegment 2 = (mem.le loadSegment 2 + 0x0020) % 256 ^ 2 := by
  unfold readOk lbaSector sectorsToRead loadSegment
  refine ⟨?_, ?_, ?_⟩
  · rw [Buf.le_putLe_of_disjoint (by decide), Buf.le_putLe_of_disjoint (by decide), Buf.le_putLe]
  · rw [Buf.le_putLe_of_disjoint (by decide), Buf.le_putLe,
      Buf.le_putLe_of_disjoint (by decide)]
  · rw [Buf.le_putLe, Buf.le_putLe_of_disjoint (by decide), Buf.le_putLe_of_disjoint (by decide)]

/-- The packet that is filled asks for the next sector, behind those that are there. -/
theorem Loading.filled {n : Nat} {mem : Buf} (loading : Loading drive disk mbr n mem)
    (small : n < 255) :
    target dap (fillDap mem) = 0x8000 + 512 * n ∧ transferred dap (fillDap mem) = 512 ∧
      (fillDap mem).le (dap + 8) 8 = 1 + n ∧ (fillDap mem).le dap 2 = 0x10 := by
  have offset : (fillDap mem).le (dap + 4) 2 = 0 := by
    unfold fillDap
    rw [Buf.le_putLe_of_disjoint (by decide), Buf.le_putLe, Nat.zero_mod]
  have segment : (fillDap mem).le (dap + 6) 2 = 0x0800 + 0x0020 * n := by
    unfold fillDap
    rw [Buf.le_putLe, Buf.le_putLe_of_disjoint (by decide), Buf.le_putLe_of_disjoint (by decide),
      Buf.le_putLe_of_disjoint (by decide), loading.segment]
    omega
  have low : (fillDap mem).le (dap + 8) 4 = 1 + n := by
    unfold fillDap
    rw [Buf.le_putLe_of_disjoint (by decide), Buf.le_putLe_of_disjoint (by decide),
      Buf.le_putLe_of_disjoint (by decide), Buf.le_putLe, loading.sector]
    omega
  have high : (fillDap mem).le (dap + 8 + 4) 4 = 0 := by
    unfold fillDap
    rw [Buf.le_putLe_of_disjoint (by decide), Buf.le_putLe_of_disjoint (by decide), Buf.le_putLe,
      Nat.zero_mod]
  have size : (fillDap mem).le dap 2 = 0x10 := by
    rw [← loading.packet]
    exact Buf.le_congr fun i _ high => fillDap_outside mem (by omega)
  have count : (fillDap mem).le (dap + 2) 2 = 1 := by
    rw [← loading.count]
    exact Buf.le_congr fun i _ high => fillDap_outside mem (by omega)
  refine ⟨?_, ?_, ?_, size⟩
  · rw [target, segment, offset]
    omega
  · rw [transferred, count]
  · rw [Buf.le_add _ _ 4 4, low, high, Nat.mul_zero, Nat.add_zero]

/-- One sector more. -/
theorem Loading.next (serves : Serves bios drive disk) {n : Nat} {mem : Buf}
    (loading : Loading drive disk mbr n mem) (small : n < 255)
    (read : (bios n drive dap (fillDap mem)).1 = false) :
    Loading drive disk mbr (n + 1) (readOk (bios n drive dap (fillDap mem)).2) := by
  obtain ⟨goes, bytes, sector, size⟩ := loading.filled small
  have reads := serves.reads n dap _ size read
  have keeps := serves.keeps n dap _ size read
  rw [goes, bytes, sector] at reads
  rw [goes, bytes] at keeps
  generalize (bios n drive dap (fillDap mem)).2 = after at reads keeps
  -- The bytes of the loader, but for the packet, and the sectors before.
  have same (a : Nat) (low : 0x7C00 ≤ a) (high : a < 0x8000 + 512 * n)
      (outside : a < dap + 4 ∨ dap + 16 ≤ a) : after a = mem a := by
    rw [keeps a low (by omega) (.inl high), fillDap_outside mem outside]
  have field (off k : Nat) (low : 0x7C00 ≤ off) (high : off + k ≤ dap + 4) :
      after.le off k = mem.le off k := by
    refine Buf.le_congr fun i above below => same i (by omega) ?_ (.inl (by omega))
    unfold dap at high
    omega
  obtain ⟨lba, left, segment⟩ := readOk_fields after
  have packet (off : Nat) (low : dap ≤ off) (high : off + 2 ≤ dap + 4) :
      (readOk after).le off 2 = mem.le off 2 := by
    rw [← field off 2 (by unfold dap at low; omega) high]
    refine Buf.le_congr fun i above _ => readOk_outside after (.inr ?_)
    unfold dap at low
    unfold bootDrive
    omega
  refine ⟨?_, ?_, ?_, ?_, ?_, ?_, fun i below => ?_, fun a low high => ?_⟩
  · rw [lba, field lbaSector 2 (by decide) (by decide), loading.sector]
    omega
  · rw [left, field sectorsToRead 1 (by decide) (by decide), loading.left]
    omega
  · rw [segment, field loadSegment 2 (by decide) (by decide), loading.segment]
    omega
  · rw [readOk_outside after (.inr (Nat.le_refl _)),
      same bootDrive (by decide) (by unfold bootDrive; omega) (.inl (by decide)), loading.from_]
  · rw [packet dap (Nat.le_refl _) (by decide), loading.packet]
  · rw [packet (dap + 2) (by decide) (by decide), loading.count]
  · rw [readOk_outside after (.inr (by unfold bootDrive; omega))]
    by_cases old : i < 512 * n
    · rw [same (0x8000 + i) (by omega) (by omega) (.inr (by unfold dap; omega)),
        loading.loaded i old]
    · have placed := reads (i - 512 * n) (by omega)
      rw [show 0x8000 + 512 * n + (i - 512 * n) = 0x8000 + i by omega,
        show 1 + n + (i - 512 * n) / 512 = 1 + i / 512 by omega,
        show (i - 512 * n) % 512 = i % 512 by omega] at placed
      exact placed
  · rw [readOk_outside after (.inr (by unfold bootDrive; omega)),
      same a (by omega) (by omega) (.inr (by unfold dap; omega)), loading.code a low high]

/-- How the loop ends that has read some sectors. -/
theorem Loading.ends (serves : Serves bios drive disk) {left n : Nat} {mem : Buf}
    (loading : Loading drive disk mbr n mem) (all : n + left = 255)
    (here : fillDap mem = atCall bios drive mbr n)
    (read : ∀ j, j < n → (bios j drive dap (atCall bios drive mbr j)).1 = false) :
    (∃ mem', Ends (loadLoop bios) n mem .doneLoading mem' ∧ Loading drive disk mbr 255 mem') ∨
      ∃ k mem', k < 255 ∧
        (∀ j, j < k → (bios j drive dap (atCall bios drive mbr j)).1 = false) ∧
        (bios k drive dap (atCall bios drive mbr k)).1 = true ∧
        (atCall bios drive mbr k).le (dap + 8) 8 = 1 + k ∧
        Ends (loadLoop bios) n mem (.diskError k) mem' := by
  induction left generalizing n mem with
  | zero =>
      obtain rfl : n = 255 := all
      refine .inl ⟨mem, .exit ?_, loading⟩
      unfold loadLoop
      rw [run_bind_of_ok (rfl : (get : StateT Buf (Except Empty) Buf).run mem = .ok (mem, mem)),
        if_pos loading.left]
      rfl
  | succ left ih =>
      have more : mem.le sectorsToRead 1 ≠ 0 := by
        rw [loading.left]
        omega
      have asked : fillDap mem bootDrive = drive := by
        rw [fillDap_outside mem (.inl (by decide)), loading.from_]
      have entered : (loadLoop bios n).run mem = (do
          set (bios n drive dap (fillDap mem)).2
          if (bios n drive dap (fillDap mem)).1 then return .inr (.diskError n)
          else
            modify readOk
            return .inl (n + 1) : StateT Buf (Except Empty) (Nat ⊕ Outcome)).run mem := by
        unfold loadLoop
        rw [run_bind_of_ok (rfl : (get : StateT Buf (Except Empty) Buf).run mem = .ok (mem, mem)),
          if_neg more]
        dsimp only
        rw [asked]
      cases carry : (bios n drive dap (fillDap mem)).1 with
      | true =>
          rw [carry, if_pos rfl] at entered
          obtain ⟨-, -, sector, -⟩ := loading.filled (by omega)
          rw [here] at carry sector
          exact .inr ⟨n, _, by omega, read, carry, sector, .exit entered⟩
      | false =>
          rw [carry, if_neg Bool.false_ne_true] at entered
          have next := loading.next serves (by omega) carry
          have then_ : fillDap (readOk (bios n drive dap (fillDap mem)).2) =
              atCall bios drive mbr (n + 1) := by rw [here, atCall]
          have reads : ∀ j, j < n + 1 → (bios j drive dap (atCall bios drive mbr j)).1 = false := by
            intro j below
            obtain rfl | less := Nat.lt_succ_iff_lt_or_eq.mp below |>.symm
            · rw [← here]
              exact carry
            · exact read j less
          obtain ⟨mem', rest, loaded⟩ | ⟨k, mem', small, earlier, fails, sector, rest⟩ :=
            ih next (by omega) then_ reads
          · exact .inl ⟨mem', .again entered rest, loaded⟩
          · exact .inr ⟨k, mem', small, earlier, fails, sector, .again entered rest⟩

/-- The boot sector as the BIOS put it into memory. -/
def Placed (mem : Buf) : Prop := ∀ k, k < 22 → mem (0x7C02 + k) = Buf.ofList dataArea k

theorem Placed.field {mem : Buf} (placed : Placed mem) (off n : Nat)
    (apart : off + n ≤ 5 ∨ 6 ≤ off) (inside : off + n ≤ 22) :
    (start drive mem).le (0x7C02 + off) n = (Buf.ofList dataArea).le off n := by
  unfold start bootDrive
  rw [Buf.le_putLe_of_disjoint (by omega), ← Buf.le_shift]
  exact Buf.le_congr fun i _ high => placed i (by omega)

theorem Loading.start {mem : Buf} (placed : Placed mem) :
    Loading drive disk mem 0 (start drive mem) where
  sector := placed.field 0 2 (.inl (by decide)) (by decide)
  left := placed.field 2 1 (.inl (by decide)) (by decide)
  segment := placed.field 3 2 (.inl (by decide)) (by decide)
  from_ := by
    unfold Boot.start
    rw [Buf.putLe_of_inside (Nat.le_refl _) (Nat.lt_succ_self _), Nat.sub_self, Nat.pow_zero,
      Nat.div_one, UInt8.ofNat_toNat]
  packet := placed.field 6 2 (.inr (by decide)) (by decide)
  count := placed.field 8 2 (.inr (by decide)) (by decide)
  loaded i below := absurd below (Nat.not_lt_zero i)
  code a low _ := Buf.putLe_of_outside (.inr (by unfold bootDrive; omega))

end Loop

/-! ## The kernel in memory -/

/-- Double words that are stored below an address. -/
theorem storeDwords_below {stride step n edi eax a : Nat} (wide : 4 ≤ stride) (mem : Buf)
    (above : edi + stride * n ≤ a) : storeDwords stride step n edi eax mem a = mem a := by
  induction n generalizing edi eax mem with
  | zero => rfl
  | succ n ih =>
      rw [Nat.mul_succ] at above
      rw [storeDwords, ih _ (by omega)]
      exact Buf.putLe_of_outside (.inr (by omega))

theorem pageTables_above (mem : Buf) {a : Nat} (above : 0x4000 ≤ a) : pageTables mem a = mem a := by
  unfold pageTables buildVmm repStosd
  rw [storeDwords_below (by decide) _ (by omega), Buf.putLe_of_outside (by omega),
    Buf.putLe_of_outside (by omega), storeDwords_below (by decide) _ (by omega)]

/-- The loader ends at the first call that fails, the one for the next sector, or with sectors 1 to
255 at 0x8000, where they are found through the page tables, and with its own code as it was. -/
theorem boots {bios : Bios} {drive : UInt8} {disk : Nat → Buf} {mem : Buf}
    (serves : Serves bios drive disk) (placed : Placed mem) :
    (∃ mem', Ends (loadLoop bios) 0 (start drive mem) .doneLoading mem' ∧
        (∀ a, 0x7C18 ≤ a → a < 0x7E00 → mem' a = mem a) ∧
        ∀ i, i < 255 * 512 → translate (pageTables mem') 0x1000 (0x8000 + i) = some (0x8000 + i) ∧
          pageTables mem' (0x8000 + i) = disk (1 + i / 512) (i % 512)) ∨
      ∃ k mem', k < 255 ∧ (∀ j, j < k → (bios j drive dap (atCall bios drive mem j)).1 = false) ∧
        (bios k drive dap (atCall bios drive mem k)).1 = true ∧
        (atCall bios drive mem k).le (dap + 8) 8 = 1 + k ∧
        Ends (loadLoop bios) 0 (start drive mem) (.diskError k) mem' := by
  obtain ⟨mem', ended, loaded⟩ | failing :=
    (Loading.start placed).ends serves (Nat.zero_add 255) rfl fun j no =>
      absurd no (Nat.not_lt_zero j)
  · refine .inl ⟨mem', ended, loaded.code, fun i below => ⟨?_, ?_⟩⟩
    · rw [translate_pageTables mem' (by omega), if_pos (by omega)]
    · rw [pageTables_above mem' (by omega), loaded.loaded i (by omega)]
  · exact .inr failing

/-- A BIOS that never fails, with this on its disk. -/
def reliable (disk : Nat → Buf) : Bios := fun _ _ packet mem =>
  (false, mem.blit (target packet mem) (transferred packet mem) fun i =>
    disk (mem.le (packet + 8) 8 + i / 512) (i % 512))

theorem reliable_serves (disk : Nat → Buf) (drive : UInt8) :
    Serves (reliable disk) drive disk where
  reads _ packet mem _ _ i inside := by
    unfold reliable
    dsimp only
    rw [Buf.blit_of_inside (Nat.le_add_right _ _) (Nat.add_lt_add_left inside _),
      Nat.add_sub_cancel_left]
  keeps _ packet mem _ _ a _ _ outside := by
    unfold reliable
    dsimp only
    rw [Buf.blit_of_outside outside]

/-- From a disk whose sectors are filled with their numbers. -/
theorem numbered_sectors_boot : ∃ mem',
    Ends (loadLoop (reliable fun sector _ => UInt8.ofNat sector)) 0
      (start 0x80 fun a => Buf.ofList dataArea (a - 0x7C02)) .doneLoading mem' ∧
      ∀ i, i < 255 * 512 → pageTables mem' (0x8000 + i) = UInt8.ofNat (1 + i / 512) := by
  have placed : Placed fun a => Buf.ofList dataArea (a - 0x7C02) := fun k _ => by
    dsimp only
    rw [Nat.add_sub_cancel_left]
  obtain ⟨mem', ended, -, found⟩ | ⟨k, mem', -, -, fails, -⟩ :=
    boots (reliable_serves (fun sector _ => UInt8.ofNat sector) 0x80) placed
  · exact ⟨mem', ended, fun i below => (found i below).2⟩
  · cases fails

end XosKernel.Boot
