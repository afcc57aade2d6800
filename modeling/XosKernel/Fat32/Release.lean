/-
# Fat32.Release -- what a release clears, whatever the links

`fat32_free_cluster_chain` reads a link before it clears the entry, so on links that run into a
cycle it comes back to an entry that is 0 by then, and ends.  `Vol.Clears` says which clusters it
goes through, with nothing assumed about the table but that the walk stays among the clusters of
the volume; on such a walk the driver does what it does on a chain (`freeOldChain_clears`).
-/
import XosKernel.Theory.Walk
import XosKernel.Fat32.Allocation
import XosKernel.Fat32.Files

namespace XosKernel.Fat32

open XosKernel.Theory

set_option autoImplicit false

namespace Vol

/-- The numbers of the clusters are far below those of the end marks. -/
theorem InRange.isValid {v : Vol} {c : Nat} (range : v.InRange c)
    (small : v.total + 2 ≤ 0x0FFFFFF8) : isValidCluster c = true := by
  have low := range.1
  have high := range.2
  simp only [isValidCluster, Bool.and_eq_true, decide_eq_true_eq]
  omega

/-- Releasing what starts at a number goes through the clusters of a list, in this order. -/
inductive Clears : Vol → Nat → List Nat → Prop
  | invalid {v : Vol} {c : Nat} (number : isValidCluster c = false) : Clears v c []
  | last {v : Vol} {c : Nat} (valid : isValidCluster c = true) (range : v.InRange c)
      (ends : (isEndOfChain (v.fat c) || v.fat c == 0) = true) : Clears v c [c]
  | next {v : Vol} {c : Nat} {l : List Nat} (valid : isValidCluster c = true)
      (range : v.InRange c) (goes : (isEndOfChain (v.fat c) || v.fat c == 0) = false)
      (rest : Clears (v.setFat c 0) (v.fat c) l) : Clears v c (c :: l)

section Clears

variable {v : Vol} {c : Nat} {l : List Nat} (clears : v.Clears c l)
include clears

theorem Clears.inRange : ∀ x, x ∈ l → v.InRange x := by
  induction clears with
  | invalid => exact fun x member => by cases member
  | last _ range _ =>
      intro x member
      rw [List.mem_singleton.mp member]
      exact range
  | next _ range _ _ ih =>
      intro x member
      rcases List.mem_cons.mp member with rfl | later
      · exact range
      · exact ih x later

theorem Clears.deterministic {l' : List Nat} (clears' : v.Clears c l') : l = l' := by
  induction clears generalizing l' with
  | invalid number =>
      cases clears' with
      | invalid => rfl
      | last valid | next valid =>
          rw [number] at valid
          cases valid
  | last valid _ ends =>
      cases clears' with
      | invalid number =>
          rw [number] at valid
          cases valid
      | last => rfl
      | next _ _ goes =>
          rw [goes] at ends
          cases ends
  | next valid _ goes _ ih =>
      cases clears' with
      | invalid number =>
          rw [number] at valid
          cases valid
      | last _ _ ends =>
          rw [goes] at ends
          cases ends
      | next _ _ _ rest => rw [ih rest]

/-- Every cluster but the last one had a link that is 0 afterwards. -/
theorem Clears.length_le : l.length ≤
    (linked v.fat (· ≠ 0) (Finset.range (v.total + 2))).card + 1 := by
  induction clears with
  | invalid => exact Nat.zero_le _
  | last => exact Nat.le_add_left _ _
  | @next v c l _ range goes _ ih =>
      have set : v.fat c ≠ 0 := fun zero => by simp [zero] at goes
      have cleared : ¬ (0 : Nat) ≠ 0 := fun no => no rfl
      have fewer : _ < (linked v.fat (· ≠ 0) (Finset.range (v.total + 2))).card :=
        linked_erase (Finset.mem_range.mpr range.2) set cleared
      rw [List.length_cons]
      exact Nat.succ_le_succ (ih.trans fewer)

end Clears

/-- The end of a chain is an end mark; another link leads on. -/
theorem ChainFrom.step {v : Vol} {c : Nat} {l : List Nat} (chain : v.ChainFrom c l) :
    ((isEndOfChain (v.fat c) || v.fat c == 0) = true ∧ l = [c]) ∨
      ((isEndOfChain (v.fat c) || v.fat c == 0) = false ∧
        ∃ rest, l = c :: rest ∧ v.ChainFrom (v.fat c) rest) := by
  cases chain with
  | last _ stops => exact .inl ⟨by simp [isEndOfChain, stops], rfl⟩
  | @link _ rest _ goes tail =>
      have low := (tail.valid_of_mem _ tail.head_mem).1
      refine .inr ⟨?_, rest, rfl, tail⟩
      simp only [isEndOfChain, Bool.or_eq_false_iff, decide_eq_false_iff_not, beq_eq_false_iff_ne]
      exact ⟨goes, by omega⟩

/-- A chain is cleared from its first cluster to its last one. -/
theorem ChainFrom.clears {v : Vol} {c : Nat} {l : List Nat} (small : v.total + 2 ≤ 0x0FFFFFF8)
    (chain : v.ChainFrom c l) : v.Clears c l := by
  induction l generalizing v c with
  | nil => cases chain
  | cons x l ih =>
      obtain rfl : x = c := by cases chain <;> rfl
      have range : v.InRange x := chain.valid_of_mem x chain.head_mem
      have valid := range.isValid small
      rcases chain.step with ⟨ends, single⟩ | ⟨goes, rest, split, tail⟩
      · cases single
        exact .last valid range ends
      · cases split
        have fresh : x ∉ l := (List.nodup_cons.mp chain.nodup).1
        exact .next valid range goes (ih small (tail.setFat fresh))

end Vol

/-! ## The driver -/

theorem freeChainLoop_clears : ∀ (l : List Nat) (passes c : Nat) (d : Driver), d.Good →
    d.vol.Clears c l → l.length < passes →
    Runs (freeChainLoop passes c) d fun r d' => r = 0 ∧ Effect d d' (d.vol.freeAll l)
  | _, 0, _, _, _, _, enough => by simp at enough
  | l, passes + 1, c, d, good, clears, enough => by
      unfold freeChainLoop
      cases clears with
      | invalid number =>
          rw [number, if_neg Bool.false_ne_true, Vol.freeAll_nil]
          exact Runs.pure ⟨rfl, Effect.refl good⟩
      | last valid range ends =>
          rw [if_pos valid]
          refine Runs.bind (nextCluster_runs good range.2) ?_
          rintro _ d₁ ⟨rfl, read⟩
          refine Runs.bind (setFatEntry_runs read.good (by rw [read.fs_eq]; exact range.2) 0) ?_
          rintro _ d₂ ⟨rfl, cleared⟩
          rw [read.vol_eq, Nat.zero_mod] at cleared
          rw [if_pos rfl, if_pos ends, ← Vol.freeAll_cons, Vol.freeAll_nil]
          exact Runs.pure ⟨rfl, read.trans cleared⟩
      | @next _ _ l valid range goes rest =>
          rw [if_pos valid]
          refine Runs.bind (nextCluster_runs good range.2) ?_
          rintro _ d₁ ⟨rfl, read⟩
          refine Runs.bind (setFatEntry_runs read.good (by rw [read.fs_eq]; exact range.2) 0) ?_
          rintro _ d₂ ⟨rfl, cleared⟩
          rw [read.vol_eq, Nat.zero_mod] at cleared
          rw [if_pos rfl, goes, if_neg Bool.false_ne_true]
          have rest' : d₂.vol.Clears (d.vol.fat c) l := by
            rw [cleared.vol_eq]
            exact rest
          refine Runs.mono (freeChainLoop_clears l passes _ d₂ cleared.good rest'
            (Nat.lt_of_succ_lt_succ enough)) ?_
          rintro _ d₃ ⟨rfl, freed⟩
          rw [cleared.vol_eq, Vol.freeAll_cons] at freed
          exact ⟨rfl, (read.trans cleared).trans freed⟩

theorem freeClusterChain_clears {d : Driver} (good : d.Good) {c : Nat} {l : List Nat}
    (clears : d.vol.Clears c l) :
    Runs (freeClusterChain c) d fun r d' => r = 0 ∧ Effect d d' (d.vol.freeAll l) := by
  have few : (linked d.vol.fat (· ≠ 0) (Finset.range (d.vol.total + 2))).card ≤
      d.vol.total + 2 := by
    refine (Finset.card_filter_le _ _).trans ?_
    rw [Finset.card_range]
  have short := clears.length_le
  have small : d.vol.total + 2 ≤ 0x0FFFFFF8 := good.geometry.range_lt_end
  exact freeChainLoop_clears l (2 ^ 28) c d good clears (by omega)

/-- Whatever the links are, the release clears the clusters it goes through. -/
theorem freeOldChain_clears {d : Driver} (good : d.Good) {first : Nat} {l : List Nat}
    (clears : d.vol.Clears first l) :
    Runs (freeOldChain first) d fun _ d' => Effect d d' (d.vol.freeAll l) := by
  unfold freeOldChain
  by_cases number : 2 ≤ first
  · rw [if_pos number]
    refine Runs.bind (freeClusterChain_clears good clears) ?_
    rintro _ d' ⟨rfl, effect⟩
    exact Runs.pure effect
  · rw [if_neg number]
    have nothing : l = [] := clears.deterministic (.invalid (by
      simp only [isValidCluster, Bool.and_eq_false_iff, decide_eq_false_iff_not]
      omega))
    rw [nothing, Vol.freeAll_nil]
    exact Runs.pure (Effect.refl good)

end XosKernel.Fat32
