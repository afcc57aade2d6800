/-
# Fat32.PartitionSlots -- looking up what was detected

`partition_detect` stores the used entries of the sector one after the other, with the slot
they came from; `partition_get_info` is asked for a slot, but turns away every number from
`partition_count` on.  So a used entry is found exactly when its slot is below the number of
used entries, and all of them are found exactly when no empty slot stands before a used one
(`slots_answered_iff`).
-/
import Mathlib.Data.List.Nodup
import XosKernel.Fat32.Calls
import XosKernel.Fat32.Partition

namespace XosKernel.Fat32

open XosKernel.Theory

set_option autoImplicit false

/-- The first sector of a disk. -/
def Driver.mbr (d : Driver) (disk : Nat) : Buf :=
  d.ata.media (diskToAta disk).1 (diskToAta disk).2 0

/-- The type byte of a slot. -/
def slotType (mbr : Buf) (i : Nat) : Nat := (mbr (mbrEntry i + 4)).toNat

/-- The used slots, in order. -/
def usedSlots (mbr : Buf) : List Nat :=
  (List.range 4).filter fun i => slotType mbr i ≠ partTypeUnused

/-- What the lookups should say of the four slots of a sector. -/
structure SlotsAnswered (disk : Nat) (mbr : Buf) (table : PartitionTable) : Prop where
  used : ∀ i < 4, slotType mbr i ≠ partTypeUnused →
    ∃ info, partitionGetInfo table disk i = some info ∧
      info.type = slotType mbr i ∧
      info.startLba = mbr.le (mbrEntry i + 8) 4 ∧
      info.sizeSectors = mbr.le (mbrEntry i + 12) 4 ∧
      (info.bootable = true ↔ mbr (mbrEntry i) = 0x80)
  empty : ∀ i < 4, slotType mbr i = partTypeUnused → partitionGetInfo table disk i = none
  count : partitionGetCount table disk = (usedSlots mbr).length

/-- No empty slot stands before a used one. -/
def Packed (mbr : Buf) : Prop :=
  ∀ i j, i < j → j < 4 → slotType mbr i = partTypeUnused → slotType mbr j = partTypeUnused

/-! ## The table of used entries -/

section Table

variable (disk : Nat) (mbr : Buf)

theorem usedEntries_eq_map :
    usedEntries disk mbr = (usedSlots mbr).map (partitionInfo disk mbr) := by
  rw [usedEntries, usedSlots, List.filter_map]
  rfl

theorem length_usedEntries : (usedEntries disk mbr).length = (usedSlots mbr).length := by
  rw [usedEntries_eq_map, List.length_map]

/-- The search finds the entry of a used slot, and nothing for the others. -/
theorem find_usedEntries (i : Nat) :
    ((usedEntries disk mbr).find? fun p => p.disk = disk ∧ p.partitionIndex = i) =
      if i ∈ usedSlots mbr then some (partitionInfo disk mbr i) else none := by
  have search : ∀ l : List Nat,
      ((l.map (partitionInfo disk mbr)).find? fun p => p.disk = disk ∧ p.partitionIndex = i) =
        if i ∈ l then some (partitionInfo disk mbr i) else none := by
    intro l
    induction l with
    | nil => rfl
    | cons j rest ih =>
        rw [List.map_cons, List.find?_cons]
        by_cases here : j = i
        · subst here
          simp [partitionInfo]
        · have other : i ∈ j :: rest ↔ i ∈ rest := by
            rw [List.mem_cons, or_iff_right (Ne.symm here)]
          simp only [other, ih, partitionInfo, here, and_false, decide_false]
  rw [usedEntries_eq_map, search]

theorem getInfo_usedEntries (i : Nat) :
    partitionGetInfo (usedEntries disk mbr) disk i =
      if i < (usedSlots mbr).length ∧ i ∈ usedSlots mbr then some (partitionInfo disk mbr i)
      else none := by
  rw [partitionGetInfo, length_usedEntries, find_usedEntries]
  by_cases below : i < (usedSlots mbr).length
  · simp only [not_le.mpr below, below, if_false, true_and]
  · simp only [not_lt.mp below, below, if_true, false_and, if_false]

theorem getCount_usedEntries :
    partitionGetCount (usedEntries disk mbr) disk = (usedSlots mbr).length := by
  have all : ∀ p ∈ usedEntries disk mbr, decide (p.disk = disk) = true := by
    intro p member
    rw [usedEntries_eq_map] at member
    obtain ⟨i, -, rfl⟩ := List.mem_map.mp member
    exact decide_eq_true rfl
  rw [partitionGetCount, List.countP_eq_length.mpr all, length_usedEntries]

end Table

theorem mem_usedSlots {mbr : Buf} {i : Nat} :
    i ∈ usedSlots mbr ↔ i < 4 ∧ slotType mbr i ≠ partTypeUnused := by
  simp [usedSlots]

theorem nodup_usedSlots (mbr : Buf) : (usedSlots mbr).Nodup :=
  List.nodup_range.filter _

/-- Every used slot is below the number of used slots exactly if they come first. -/
theorem used_below_iff_packed (mbr : Buf) :
    (∀ i ∈ usedSlots mbr, i < (usedSlots mbr).length) ↔ Packed mbr := by
  constructor
  · intro below i j before slot empty
    by_contra used
    have last := below j (mem_usedSlots.mpr ⟨slot, used⟩)
    -- the used slots are among the numbers below their count, without `i`
    have among : usedSlots mbr ⊆ (List.range (usedSlots mbr).length).erase i := by
      intro k member
      have other : k ≠ i := by
        rintro rfl
        exact (mem_usedSlots.mp member).2 empty
      exact (List.mem_erase_of_ne other).mpr (List.mem_range.mpr (below k member))
    have fewer := (List.subperm_of_subset (nodup_usedSlots mbr) among).length_le
    rw [List.length_erase_of_mem (List.mem_range.mpr (by omega)), List.length_range] at fewer
    omega
  · intro packed i member
    obtain ⟨slot, used⟩ := mem_usedSlots.mp member
    -- all slots up to `i` are used
    have among : List.range (i + 1) ⊆ usedSlots mbr := by
      intro k upto
      have bound := List.mem_range.mp upto
      refine mem_usedSlots.mpr ⟨by omega, fun empty => ?_⟩
      rcases Nat.lt_or_ge k i with before | same
      · exact used (packed k i before slot empty)
      · obtain rfl : k = i := by omega
        exact used empty
    have many := (List.subperm_of_subset List.nodup_range among).length_le
    rw [List.length_range] at many
    exact many

/-! ## Detection -/

theorem slotsAnswered_usedEntries_iff (disk : Nat) (mbr : Buf) :
    SlotsAnswered disk mbr (usedEntries disk mbr) ↔ Packed mbr := by
  rw [← used_below_iff_packed]
  constructor
  · intro answered i member
    obtain ⟨slot, used⟩ := mem_usedSlots.mp member
    obtain ⟨info, found, -⟩ := answered.used i slot used
    rw [getInfo_usedEntries] at found
    split at found
    · next both => exact both.1
    · cases found
  · intro below
    refine ⟨fun i slot used => ?_, fun i slot empty => ?_, getCount_usedEntries disk mbr⟩
    · have member := mem_usedSlots.mpr ⟨slot, used⟩
      refine ⟨partitionInfo disk mbr i, ?_, rfl, rfl, rfl, ?_⟩
      · rw [getInfo_usedEntries, if_pos ⟨below i member, member⟩]
      · simp [partitionInfo]
    · have absent : i ∉ usedSlots mbr := fun member => (mem_usedSlots.mp member).2 empty
      rw [getInfo_usedEntries, if_neg fun both => absent both.2]

/-- The used entries depend on the bytes of the sector only. -/
theorem usedEntries_congr {disk : Nat} {b b' : Buf} (same : ∀ o < sectorSize, b o = b' o) :
    usedEntries disk b = usedEntries disk b' := by
  have entry : ∀ i ∈ List.range 4, partitionInfo disk b i = partitionInfo disk b' i := by
    intro i member
    have slot : i < 4 := List.mem_range.mp member
    have lba : b.le (mbrEntry i + 8) 4 = b'.le (mbrEntry i + 8) 4 :=
      Buf.le_congr fun o _ high => same o (by simp only [mbrEntry, sectorSize] at *; omega)
    have size : b.le (mbrEntry i + 12) 4 = b'.le (mbrEntry i + 12) 4 :=
      Buf.le_congr fun o _ high => same o (by simp only [mbrEntry, sectorSize] at *; omega)
    have type : b (mbrEntry i + 4) = b' (mbrEntry i + 4) :=
      same _ (by simp only [mbrEntry, sectorSize]; omega)
    have flag : b (mbrEntry i) = b' (mbrEntry i) :=
      same _ (by simp only [mbrEntry, sectorSize]; omega)
    simp only [partitionInfo, lba, size, type, flag]
  rw [usedEntries, usedEntries, List.map_congr_left entry]

/-- For every drive and every first sector: `partition_detect` succeeds exactly if the sector
can be read and has the signature, and then the lookups answer for all four slots if and only
if no empty slot stands before a used one. -/
theorem slots_answered_iff (disk : Nat) (table : PartitionTable) (d : Driver) :
    Runs (partitionDetect disk table) d fun r _ =>
      (0 ≤ r.1 ↔ d.ata.fault d.ata.transfers = none ∧ (d.mbr disk).le 510 2 = 0xAA55) ∧
        (0 ≤ r.1 → (SlotsAnswered disk (d.mbr disk) r.2 ↔ Packed (d.mbr disk))) := by
  cases fault : d.ata.fault d.ata.transfers with
  | some k =>
      refine Runs.step (ataReadSectors_failed fault disk 0 1 _) ?_
      rw [if_neg fun both => absurd both.1 (show ¬ (-1 : Int) = 1 by decide)]
      exact Runs.pure (by simp)
  | none =>
      set sector := Buf.blit (fun _ => 0) 0 (1 * 512)
        (d.ata.stream (diskToAta disk).1 (diskToAta disk).2 0) with sector_eq
      have same : ∀ o < sectorSize, sector o = d.mbr disk o := by
        intro o inside
        rw [sector_eq, Buf.blit_of_inside (Nat.zero_le o) (by
          simp only [sectorSize] at inside
          omega)]
        simp only [Ata.stream, Driver.mbr, lba28, Nat.sub_zero, Nat.div_eq_of_lt inside,
          Nat.mod_eq_of_lt inside, Nat.zero_mod, Nat.add_zero]
      have signature : sector.le 510 2 = (d.mbr disk).le 510 2 :=
        Buf.le_congr fun o _ high => same o (by simp only [sectorSize]; omega)
      refine Runs.step (ataReadSectors_ok fault disk 0 1 _) ?_
      simp only [← sector_eq]
      by_cases signed : (d.mbr disk).le 510 2 = 0xAA55
      · rw [if_pos ⟨rfl, signature.trans signed⟩]
        refine Runs.pure ⟨?_, fun _ => ?_⟩
        · simp [signed]
        · rw [usedEntries_congr same]
          exact slotsAnswered_usedEntries_iff disk (d.mbr disk)
      · rw [if_neg fun both => signed (signature.symm.trans both.2)]
        exact Runs.pure (by simp [signed])

/-- A sector with the signature whose only used slot is the second, a FAT32 partition. -/
def secondSlotOnly : Buf :=
  (((Buf.putLe (fun _ => 0) 510 2 0xAA55).putLe 466 1 0x0C).putLe 470 4 2048).putLe 474 4 4096

/-- A drive that holds it on every disk. -/
def secondSlotDrive : Driver :=
  { formatted with ata := { formatted.ata with media := fun _ _ _ => secondSlotOnly } }

/-- Detection finds one partition, and asking for its slot fails. -/
theorem second_slot_refused :
    ¬ Runs (partitionDetect 1 []) secondSlotDrive fun r _ =>
      0 ≤ r.1 → SlotsAnswered 1 (secondSlotDrive.mbr 1) r.2 := by
  intro runs
  have detected : Runs (partitionDetect 1 []) secondSlotDrive fun r _ =>
      (decide (0 ≤ r.1) && partitionGetInfo r.2 1 1 == none) = true :=
    Runs.of_check (by decide +kernel)
  obtain ⟨r, d', ran, holds⟩ := detected
  simp only [Bool.and_eq_true, decide_eq_true_eq, beq_iff_eq] at holds
  have answered := runs.of_returned ran holds.1
  obtain ⟨info, found, -⟩ := answered.used 1 (by decide) (by decide +kernel)
  rw [holds.2] at found
  cases found

end XosKernel.Fat32
