/-
# Fat32.StaleSlot -- the slot of a new file

`fat32_write` releases the chain of the entry it overwrites.  It does so for every slot it chose,
whether an entry of the name was there or not: of a deleted entry or of a piece of a long name it
takes the same two fields for the number of a first cluster.

So a write spares the clusters in use if that number names no cluster or a free one, and it does
not if a chain starts there (`write_spares_iff`).
-/
import XosKernel.Fat32.FailedWrite
import XosKernel.Fat32.MadeNames

namespace XosKernel.Fat32

open XosKernel.Theory

set_option autoImplicit false

namespace Vol

variable {v : Vol} {t : WriteTarget} {old : List Nat} {data : List UInt8}

/-- The number is no cluster number, or it is that of a free cluster. -/
def Unlinked (v : Vol) (first : Nat) : Prop :=
  isValidCluster first = false ∨ (v.InRange first ∧ v.fat first = 0)

/-- The first-cluster field of the slot that `fat32_write` chooses for a name. -/
def slotField (v : Vol) (p : Nat) (name : Name83) : Option Nat :=
  (choose name (v.slots p)).bind fun s => ((v.slots p)[s.1]?).map Dirent.firstCluster

/-- From `v` to `v'` the links of the clusters in use stayed, and those of the file that a
write returning `r` leaves under the name were free. -/
structure Spares (v : Vol) (p : Nat) (name : Name83) (r : Int) (v' : Vol) : Prop where
  kept : ∀ c, v.InRange c → v.fat c ≠ 0 → v'.fat c = v.fat c
  taken : r = 0 → ∀ i b e l, choose name (v.slots p) = some (i, b) →
    (v'.slots p)[i]? = some e → v'.ChainFrom e.firstCluster l → ∀ c, c ∈ l → v.fat c = 0

theorem Unlinked.clears {first : Nat} (small : v.total + 2 ≤ 0x0FFFFFF8)
    (unlinked : v.Unlinked first) : ∃ old, v.Clears first old ∧ ∀ c, c ∈ old → v.fat c = 0 := by
  rcases unlinked with invalid | ⟨range, clear⟩
  · exact ⟨[], .invalid invalid, fun c member => by cases member⟩
  · refine ⟨[first], .last (range.isValid small) range (by simp [clear]), fun c member => ?_⟩
    rw [List.mem_singleton.mp member]
    exact clear

/-- A directory buffer with an entry in it leaves the entry in its slot. -/
theorem slot_stored {b : Buf} {e : Dirent} (inside : t.slot < v.spc * 16) :
    ((v.setBytes t.parentCluster (Dirent.store b (t.slot * direntSize) e)).slots
      t.parentCluster)[t.slot]? = some e := by
  rw [slots_setBytes_self, List.getElem?_map, List.getElem?_range inside, Option.map_some,
    Dirent.load_store]

/-- What is linked once the data is in the clusters that were allocated for it: the other links
are as before, and the entry's first cluster starts a chain of those. -/
theorem written_chain {w : Vol} {first : Nat} (small : v.total + 2 ≤ 0x0FFFFFF8)
    (allocated : v.allocate (clustersNeeded v.clusterSize data.length) = (some first, w))
    (name : Name83) (n : Nat) :
    (∀ c, c ∉ v.takes data → (w.writeData (v.takes data) data n).fat c = v.fat c) ∧
      (((Dirent.written name first data).firstCluster = 0 ∧ v.takes data = []) ∨
        (w.writeData (v.takes data) data n).ChainFrom (Dirent.written name first data).firstCluster
          (v.takes data)) := by
  constructor
  · intro c outside
    rw [writeData_fat]
    rcases allocate_some small allocated with ⟨-, -, rfl⟩ | ⟨rest, split, rfl, -⟩
    · rfl
    · rw [takes, split] at outside
      exact relink_of_not_mem outside
  · rcases takes_chain small allocated with ⟨rfl, none⟩ | chain
    · exact .inl ⟨Dirent.firstCluster_written name data (by decide), none⟩
    · have range := chain.valid_of_mem first chain.head_mem
      have number : (Dirent.written name first data).firstCluster = first := by
        refine Dirent.firstCluster_written name data ?_
        have below : first < w.total + 2 := range.2
        have total := (v.allocate_frame (clustersNeeded v.clusterSize data.length)).2.1
        rw [allocated] at total
        change w.total = v.total at total
        omega
      rw [number]
      refine .inr (chain.frame (writeData_frame _ _ _ _).2.1 fun x _ => ?_)
      exact congrFun (writeData_fat _ _ _ _) x

/-- A write either fails and has linked all clusters that were free or released, or it leaves an
entry whose chain is made of some of them. -/
theorem writeOver_cases (old : List Nat) (data : List UInt8) (small : v.total + 2 ≤ 0x0FFFFFF8)
    (inside : t.slot < v.spc * 16) :
    ((v.writeOver t old data).1 = -1 ∧ (v.writeOver t old data).2.fat =
        ((v.freeAll old).linkTo ((v.freeAll old).freeClusters.getLastD 0)
          (v.freeAll old).freeClusters).fat) ∨
      ((v.writeOver t old data).1 = 0 ∧ ∃ e taken,
        ((v.writeOver t old data).2.slots t.parentCluster)[t.slot]? = some e ∧
        (∀ c, c ∈ taken → c ∈ (v.freeAll old).freeClusters) ∧
        (∀ c, c ∉ taken → (v.writeOver t old data).2.fat c = (v.freeAll old).fat c) ∧
        ((e.firstCluster = 0 ∧ taken = []) ∨
          (v.writeOver t old data).2.ChainFrom e.firstCluster taken)) := by
  unfold writeOver
  by_cases empty : data = []
  · simp only [if_pos empty]
    refine .inr ⟨trivial, _, [], slot_stored inside, ?_, ?_, .inl ⟨?_, rfl⟩⟩
    · intro c member
      cases member
    · intro c _
      rfl
    · exact Dirent.firstCluster_newFile _
  simp only [if_neg empty]
  cases result : (v.freeAll old).allocate (clustersNeeded v.clusterSize data.length) with
  | mk res w =>
      cases res with
      | none =>
          have all := allocate_none result
          exact .inl ⟨rfl, congrArg Vol.fat all⟩
      | some first =>
          obtain ⟨same, -, -⟩ := (v.freeAll old).allocate_frame
            (clustersNeeded v.clusterSize data.length)
          rw [result] at same
          obtain ⟨spc, -, -, -⟩ := w.writeData_frame ((v.freeAll old).takes data) data
            (data.length % 2 ^ 32)
          have slot : t.slot < (w.writeData ((v.freeAll old).takes data) data
              (data.length % 2 ^ 32)).spc * 16 := by
            rw [spc]
            exact same.symm ▸ inside
          obtain ⟨others, chain⟩ := written_chain (v := v.freeAll old) small result t.name
            (data.length % 2 ^ 32)
          refine .inr ⟨rfl, _, (v.freeAll old).takes data, slot_stored slot, ?_, others, chain⟩
          exact fun c member => List.mem_of_mem_take member

/-- A write that releases no cluster in use spares them all. -/
theorem spares_of_clear {name : Name83} (small : v.total + 2 ≤ 0x0FFFFFF8) {b : Bool}
    (chosen : choose name (v.slots t.parentCluster) = some (t.slot, b))
    (clear : ∀ c, c ∈ old → v.fat c = 0) :
    v.Spares t.parentCluster name (v.writeOver t old data).1 (v.writeOver t old data).2 := by
  have released : (v.freeAll old).fat = v.fat := by
    funext c
    change (if c ∈ old then 0 else v.fat c) = v.fat c
    split
    · exact (clear c ‹_›).symm
    · rfl
  have busy : ∀ c, v.fat c ≠ 0 → c ∉ (v.freeAll old).freeClusters := by
    intro c used free
    have zero := (mem_freeClusters.mp free).2
    rw [released] at zero
    exact used zero
  have inside := choose_lt chosen
  rw [length_slots] at inside
  rcases v.writeOver_cases old data small inside with
    ⟨failed, fat⟩ | ⟨-, e, taken, slot, free, fat, chain⟩
  · rw [failed]
    refine ⟨fun c range used => ?_, fun impossible => by cases impossible⟩
    rw [fat, ← released]
    exact relink_of_not_mem (busy c used)
  · refine ⟨fun c range used => ?_, fun _ i b' e' l chosen' slot' chain' c member => ?_⟩
    · rw [fat c fun member => busy c used (free c member), released]
    · rw [chosen] at chosen'
      cases chosen'
      rw [slot] at slot'
      cases slot'
      rcases chain with ⟨zero, -⟩ | chain
      · rw [zero] at chain'
        have := (chain'.valid_of_mem _ chain'.head_mem).1
        omega
      · rw [chain'.deterministic chain] at member
        have zero := (mem_freeClusters.mp (free c member)).2
        rwa [released] at zero

/-- A write that releases a chain does not: the first cluster is left free, or one of the chain
went to the new file, or the failed allocation opened its end. -/
theorem not_spares_of_chain {name : Name83} (small : v.total + 2 ≤ 0x0FFFFFF8) {b : Bool}
    {first : Nat} (chosen : choose name (v.slots t.parentCluster) = some (t.slot, b))
    (chain : v.ChainFrom first old) :
    ¬ v.Spares t.parentCluster name (v.writeOver t old data).1 (v.writeOver t old data).2 := by
  intro spares
  have range : ∀ c, c ∈ old → v.InRange c := chain.valid_of_mem
  have used : ∀ c, c ∈ old → v.fat c ≠ 0 := chain.fat_ne_zero
  have inside := choose_lt chosen
  rw [length_slots] at inside
  rcases v.writeOver_cases old data small inside with
    ⟨-, fat⟩ | ⟨done, e, taken, slot, free, fat, chain'⟩
  · obtain ⟨x, member, stops⟩ := chain.exists_stop
    have free : x ∈ (v.freeAll old).freeClusters :=
      mem_freeClusters.mpr ⟨range x member, if_pos member⟩
    have opened := (failed_links small free).2
    rw [← fat, spares.kept x (range x member) (used x member)] at opened
    change 0x0FFFFFF8 ≤ v.fat x at stops
    omega
  · by_cases shared : first ∈ taken
    · rcases chain' with ⟨-, none⟩ | chain'
      · rw [none] at shared
        cases shared
      · exact used first chain.head_mem
          (spares.taken done t.slot b e taken chosen slot chain' first shared)
    · have cleared := fat first shared
      rw [spares.kept first (range first chain.head_mem) (used first chain.head_mem)] at cleared
      exact used first chain.head_mem (cleared.trans (if_pos chain.head_mem))

end Vol

section Write

variable {d : Driver} (good : d.Good) (root : d.vol.InRange d.vol.root) {path : CStr} {p : Nat}
  (parent : d.parentOf path.1 = some p) (range : d.vol.InRange p) {name : Name83}
  (made : makeName83 ((lastComponent slash path.1).take 255) = some name)
include good parent range made

/-- Where `fat32_write` writes for a path with a parent and a name. -/
theorem writeSlot_eq (locals : Locals) : d.writeSlot locals (d.navigated path.1) =
    (choose name (d.vol.slots p)).map fun s => ⟨p, d.directory p, name, s.1, s.2⟩ := by
  have last : lastComponent slash path.1 ≠ [] := by
    intro empty
    rw [empty] at made
    cases made
  have shown : (lastComponent slash path.1).take 255 ≠ [] := by
    intro empty
    rw [empty] at made
    cases made
  have result : ¬ (d.navigated path.1).result < 0 := by
    simp only [Driver.navigated, parent, if_neg last]
    cases d.find p (lastComponent slash path.1) with
    | none => exact (by decide : ¬ (0 : Int) < 0)
    | some e => exact (by decide : ¬ (1 : Int) < 0)
  unfold Driver.writeSlot
  simp only [navigated_parent parent, (navigated_entry parent last).2, Option.getD_some]
  rw [if_neg (by simp [result, shown]), made, Option.bind_some,
    Driver.listing_eq_slots good range]

include root

/-- A write to a slot, on the volume. -/
theorem fat32Write_over {i : Nat} {b : Bool} {e : Dirent} {old : List Nat} (locals : Locals)
    (data : List UInt8) (chosen : choose name (d.vol.slots p) = some (i, b))
    (slot : (d.vol.slots p)[i]? = some e) (clears : d.vol.Clears e.firstCluster old) :
    Runs (fat32Write locals path data) d fun r d' => ∃ t : WriteTarget,
      t.parentCluster = p ∧ t.slot = i ∧ r = (d.vol.writeOver t old data).1 ∧
        d'.vol = (d.vol.writeOver t old data).2 := by
  have target := writeSlot_eq good parent range made locals
  rw [chosen] at target
  have entry : Dirent.load (d.directory p) (i * direntSize) = e :=
    load_eq_slot (fun k inside => Driver.directory_contents good range inside) slot
  have opens : d.vol.Clears (WriteTarget.entry ⟨p, d.directory p, name, i, b⟩).firstCluster old := by
    rw [WriteTarget.entry, entry]
    exact clears
  refine Runs.mono (fat32Write_writes good target root range opens data) ?_
  rintro r d' ⟨is, result, -⟩
  exact ⟨_, rfl, rfl, is, result⟩

/-- For every path with a parent directory and a name, a write spares the clusters in use if the
slot it chooses names no cluster in its first-cluster field, or a free one, and it does not if a
chain starts at that number. -/
theorem write_spares_iff (locals : Locals) (data : List UInt8) :
    ((∀ first, d.vol.slotField p name = some first → d.vol.Unlinked first) →
      Runs (fat32Write locals path data) d fun r d' => d.vol.Spares p name r d'.vol) ∧
    ∀ first old, d.vol.slotField p name = some first → d.vol.ChainFrom first old →
      Runs (fat32Write locals path data) d fun r d' => ¬ d.vol.Spares p name r d'.vol := by
  have small : d.vol.total + 2 ≤ 0x0FFFFFF8 := good.geometry.range_lt_end
  constructor
  · intro unlinked
    cases chosen : choose name (d.vol.slots p) with
    | none =>
        have nothing : d.writeSlot locals (d.navigated path.1) = none := by
          rw [writeSlot_eq good parent range made, chosen]
          rfl
        refine Runs.mono (fat32Write_untargeted good.noFault good.geometry.roomy path good.mounted
          nothing data) ?_
        rintro _ d' ⟨rfl, idle⟩
        rw [Driver.vol_of_idle idle]
        exact ⟨fun c _ _ => rfl, fun impossible => by cases impossible⟩
    | some s =>
        obtain ⟨i, b⟩ := s
        obtain ⟨e, slot⟩ : ∃ e, (d.vol.slots p)[i]? = some e :=
          ⟨_, List.getElem?_eq_getElem (choose_lt chosen)⟩
        obtain ⟨old, clears, clear⟩ := (unlinked e.firstCluster (by
          rw [Vol.slotField, chosen, Option.bind_some, slot]
          rfl)).clears small
        refine Runs.mono (fat32Write_over good root parent range made locals data chosen slot
          clears) ?_
        rintro r d' ⟨t, rfl, at_slot, rfl, is⟩
        rw [is]
        rw [← at_slot] at chosen
        exact Vol.spares_of_clear small chosen clear
  · intro first old field chain
    obtain ⟨⟨i, b⟩, chosen, found⟩ := Option.bind_eq_some_iff.mp field
    obtain ⟨e, slot, rfl⟩ := Option.map_eq_some_iff.mp found
    refine Runs.mono (fat32Write_over good root parent range made locals data chosen slot
      (chain.clears small)) ?_
    rintro r d' ⟨t, rfl, at_slot, rfl, is⟩
    rw [is]
    rw [← at_slot] at chosen
    exact Vol.not_spares_of_chain small chosen chain

end Write

/-- In the root directory of the formatted volume a new file takes an empty slot. -/
theorem empty_slot_spares : Runs (fat32Write .blank (.ofBytes [0x79]) [1]) formatted
    fun r d' => formatted.vol.Spares 2 (packName [0x59] []) r d'.vol := by
  have root : formatted.vol.InRange formatted.vol.root := by decide +kernel
  have parent : formatted.parentOf (CStr.ofBytes [0x79]).1 = some 2 := by decide +kernel
  have field : formatted.vol.slotField 2 (packName [0x59] []) = some 0 := by decide +kernel
  refine (write_spares_iff formatted_wellFormed.good root parent root (by decide +kernel)
    .blank [1]).1 ?_
  intro first found
  rw [field] at found
  cases found
  exact .inl (by decide)

/-- A deleted entry as other systems leave it, with the number of its first cluster. -/
def leftover : Dirent :=
  { Dirent.zero with
    name := ⟨0xE5 :: (packName [0x41] []).1.tail, by decide⟩
    firstClusterLow := 3 }

/-- The volume with the file `x`, whose cluster belonged to a file that was deleted before. -/
def reused : Driver :=
  leaves (writeDirectoryCluster 2 (Dirent.store (withX.directory 2) direntSize leftover)) withX

theorem reused_good : reused.Good := by
  obtain ⟨r, d', ran, -, effect⟩ := writeDirectoryCluster_runs withX_wellFormed.good
    (c := 2) (by decide +kernel) (Dirent.store (withX.directory 2) direntSize leftover)
  have last : reused = d' := by
    unfold reused leaves
    rw [ran]
  rw [last]
  exact effect.good

/-- Creating an empty file `y` there returns 0 and frees the cluster of `x`. -/
theorem creating_frees_other : reused.Good ∧
    ∃ d', (fat32Write .blank (.ofBytes [0x79]) []).run reused = .ok (0, d') ∧
      lookup (fun e => e.name = packName [0x59] []) (reused.vol.slots 2) = none ∧
      ¬ reused.vol.Spares 2 (packName [0x59] []) 0 d'.vol := by
  have wrote : Runs.check (fat32Write .blank (.ofBytes [0x79]) []) reused
      (fun r d => r = 0 && d.vol.fat 3 = 0) = true := by decide +kernel
  have absent : (lookup (fun e => e.name = packName [0x59] []) (reused.vol.slots 2)).isNone =
      true := by decide +kernel
  have used : reused.vol.InRange 3 ∧ reused.vol.fat 3 ≠ 0 := by decide +kernel
  obtain ⟨_, d', ran, holds⟩ := Runs.of_check wrote
  simp only [Bool.and_eq_true, decide_eq_true_eq] at holds
  obtain ⟨rfl, freed⟩ := holds
  refine ⟨reused_good, d', ran, Option.isNone_iff_eq_none.mp absent, fun spares => ?_⟩
  have kept := spares.kept 3 used.1 used.2
  rw [freed] at kept
  exact used.2 kept.symm

end XosKernel.Fat32
