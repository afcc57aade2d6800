/-
# Fat32.Allocation -- free clusters and allocating chains

The free clusters of a volume, in the order in which `fat32_find_free_cluster` meets them,
are one list (`Vol.freeClusters`).

`fat32_allocate_cluster_chain` asks for the next free cluster before it links the last one,
so every second pass is handed the cluster it already holds: `n` passes take only
`(n + 1) / 2` clusters off the free list (`Vol.allocate`, `allocateClusterChain_runs`).
-/
import XosKernel.Fat32.FatSpec

namespace XosKernel.Fat32

open XosKernel.Theory

set_option autoImplicit false

/-- The chain of clusters from `c`: in range, linked, and closed by an end mark. -/
def Vol.ChainFrom (v : Vol) (c : Nat) (l : List Nat) : Prop :=
  Chain v.fat v.InRange (0x0FFFFFF8 ≤ ·) c l

namespace Vol

/-- The free clusters, in the order of the search. -/
def freeClusters (v : Vol) : List Nat := (List.range' 2 v.total).filter fun c => v.fat c = 0

theorem mem_freeClusters {v : Vol} {c : Nat} :
    c ∈ v.freeClusters ↔ v.InRange c ∧ v.fat c = 0 := by
  simp only [freeClusters, List.mem_filter, List.mem_range'_1, decide_eq_true_eq, InRange]
  omega

theorem nodup_freeClusters (v : Vol) : v.freeClusters.Nodup := List.Nodup.filter _ List.nodup_range'

/-- Clear the links of a list of clusters. -/
def freeAll (v : Vol) (l : List Nat) : Vol :=
  { v with fat := fun c => if c ∈ l then 0 else v.fat c }

/-- Link a list of clusters in order, the last one to `t`. -/
def linkTo (v : Vol) (t : Nat) (l : List Nat) : Vol := { v with fat := relink v.fat t l }

/-- What `fat32_allocate_cluster_chain` with `n` passes returns and leaves. -/
def allocate (v : Vol) (n : Nat) : Option Nat × Vol :=
  if n = 0 then (some 0, v)
  else if (n + 1) / 2 ≤ v.freeClusters.length then
    (v.freeClusters.head?, v.linkTo 0x0FFFFFFF (v.freeClusters.take ((n + 1) / 2)))
  else (none, v.linkTo (v.freeClusters.getLastD 0) v.freeClusters)

/-- Whether an allocation succeeds is a question of how many clusters are free. -/
theorem allocate_cases (v : Vol) (n : Nat) :
    (∃ first, (v.allocate n).1 = some first ∧ (n + 1) / 2 ≤ v.freeClusters.length) ∨
      (v.allocate n = (none, v.linkTo (v.freeClusters.getLastD 0) v.freeClusters) ∧
        ¬ (n + 1) / 2 ≤ v.freeClusters.length) := by
  unfold allocate
  by_cases none : n = 0
  · rw [if_pos none]
    exact .inl ⟨0, rfl, by omega⟩
  rw [if_neg none]
  by_cases enough : (n + 1) / 2 ≤ v.freeClusters.length
  · rw [if_pos enough]
    cases free : v.freeClusters with
    | nil =>
        rw [free, List.length_nil] at enough
        omega
    | cons c l =>
        rw [free] at enough
        exact .inl ⟨c, rfl, enough⟩
  · rw [if_neg enough]
    exact .inr ⟨rfl, enough⟩

theorem freeAll_nil (v : Vol) : v.freeAll [] = v := by
  simp [freeAll]

theorem freeAll_cons (v : Vol) (c : Nat) (l : List Nat) :
    (v.setFat c 0).freeAll l = v.freeAll (c :: l) := by
  have fats : ∀ x, (if x ∈ l then 0 else Function.update v.fat c 0 x) =
      if x ∈ c :: l then 0 else v.fat x := by
    intro x
    by_cases here : x = c
    · simp [here]
    · simp [here]
  simp only [freeAll, setFat, fats]

/-- A chain does not see a link that is set outside it. -/
theorem ChainFrom.setFat {v : Vol} {c y x : Nat} {l : List Nat} (chain : v.ChainFrom c l)
    (outside : y ∉ l) : (v.setFat y x).ChainFrom c l := by
  refine Chain.congr chain fun z member => ?_
  refine Function.update_of_ne ?_ _ _
  rintro rfl
  exact outside member

end Vol

/-! ## The search for a free cluster -/

theorem findFreeFrom_runs : ∀ (n c : Nat) (d : Driver), d.Good → c + n ≤ d.fs.totalClusters + 2 →
    Runs (findFreeFrom c n) d fun r d' =>
      r = ((List.range' c n).filter fun c => d.vol.fat c = 0).head? ∧ Effect d d' d.vol
  | 0, c, d, good, _ => Runs.pure ⟨rfl, Effect.refl good⟩
  | n + 1, c, d, good, bound => by
      unfold findFreeFrom
      refine Runs.bind (nextCluster_runs good (c := c) (by omega)) ?_
      rintro _ d' ⟨rfl, effect⟩
      rw [List.range'_succ]
      by_cases free : d.vol.fat c = 0
      · rw [if_pos free, List.filter_cons_of_pos (by simpa using free)]
        exact Runs.pure ⟨rfl, effect⟩
      · rw [if_neg free, List.filter_cons_of_neg (by simpa using free)]
        refine Runs.mono (findFreeFrom_runs n (c + 1) d' effect.good (by
          rw [effect.fs_eq]; omega)) ?_
        rintro r d'' ⟨rfl, effect'⟩
        rw [effect.vol_eq] at effect' ⊢
        exact ⟨rfl, effect.trans effect'⟩

/-- `fat32_find_free_cluster` returns the first free cluster. -/
theorem findFreeCluster_runs {d : Driver} (good : d.Good) :
    Runs findFreeCluster d fun r d' => r = d.vol.freeClusters.head? ∧ Effect d d' d.vol := by
  have bound := good.geometry.total_le
  unfold findFreeCluster
  refine Runs.get_bind ?_
  have count : (d.fs.totalClusters + 2) % 2 ^ 32 - 2 = d.fs.totalClusters := by omega
  rw [count]
  exact findFreeFrom_runs _ 2 d good (by omega)

/-! ## Allocating a chain -/

namespace Vol

variable {v : Vol} {m t : Nat}

/-- The free list after its first `m` clusters were linked to each other: they are taken,
except that a last link of zero still makes the last one look free. -/
theorem freeClusters_linkTo (l r : List Nat) (split : v.freeClusters = l ++ r)
    (taken : ∀ c, c ∈ l → relink v.fat t l c ≠ 0) : (v.linkTo t l).freeClusters = r := by
  have distinct := v.nodup_freeClusters
  rw [split, List.nodup_append] at distinct
  have same : ∀ c, c ∉ l → relink v.fat t l c = v.fat c := fun c => relink_of_not_mem
  have refine_free : (v.linkTo t l).freeClusters =
      v.freeClusters.filter fun c => relink v.fat t l c = 0 := by
    simp only [freeClusters, List.filter_filter, linkTo]
    apply List.filter_congr
    intro c _
    by_cases member : c ∈ l
    · simp [taken c member]
    · simp [same c member]
  rw [refine_free, split, List.filter_append]
  have none : l.filter (fun c => decide (relink v.fat t l c = 0)) = [] := by
    rw [List.filter_eq_nil_iff]
    intro c member
    simpa using taken c member
  have all : r.filter (fun c => decide (relink v.fat t l c = 0)) = r := by
    rw [List.filter_eq_self]
    intro c member
    have apart : c ∉ l := fun other => distinct.2.2 c other c member rfl
    have free : c ∈ v.freeClusters := by rw [split]; exact List.mem_append_right _ member
    simpa [same c apart] using (mem_freeClusters.mp free).2
  rw [none, all, List.nil_append]

/-- The volume while the loop holds the clusters `l` and `b`: after an odd number of passes
the last one is not linked yet, after an even number it is linked to itself. -/
def held (v : Vol) (self : Bool) (l : List Nat) (b : Nat) : Vol :=
  v.linkTo (if self then b else 0) (l ++ [b])

theorem pos_of_free {c : Nat} (free : c ∈ v.freeClusters) : c ≠ 0 := by
  have := (mem_freeClusters.mp free).1.1
  omega

/-- What the search finds next: the held cluster itself, or the next one on the list. -/
theorem freeClusters_held (self : Bool) (l r : List Nat) (b : Nat)
    (split : v.freeClusters = l ++ b :: r) :
    (v.held self l b).freeClusters = if self then r else b :: r := by
  have member : ∀ c, c ∈ l ++ b :: r → c ≠ 0 := fun c inside => pos_of_free (split ▸ inside)
  have last : b ≠ 0 := member b (by simp)
  cases self with
  | true =>
      simp only [held, if_true]
      refine freeClusters_linkTo _ _ (by simpa using split) (relink_ne ?_ last)
      intro y inside
      exact member y (by simp at inside ⊢; tauto)
  | false =>
      simp only [held, Bool.false_eq_true, if_false]
      have free : v.fat b = 0 := by
        have inside : b ∈ v.freeClusters := by rw [split]; simp
        exact (mem_freeClusters.mp inside).2
      -- `b` has link zero anyway, so only the clusters before it were linked
      have unlinked : v.linkTo 0 (l ++ [b]) = v.linkTo b l := by
        rcases List.eq_nil_or_concat l with rfl | ⟨l', a, rfl⟩
        · simp only [linkTo, List.nil_append, relink, List.headD_nil]
          rw [← free, Function.update_eq_self]
        · simp only [linkTo, List.concat_eq_append, List.append_assoc, List.cons_append,
            List.nil_append]
          rw [relink_extend free]
      rw [unlinked]
      refine freeClusters_linkTo _ _ split (relink_ne ?_ last)
      intro y inside
      exact member y (List.mem_append_left _ inside)

end Vol

theorem linkPrevious_runs {d : Driver} (good : d.Good) {prev cluster : Nat}
    (range : d.vol.InRange prev) :
    Runs (linkPrevious prev cluster) d fun ok d' =>
      ok = true ∧ Effect d d' (d.vol.setFat prev (cluster % 2 ^ 28)) := by
  have := range.1
  unfold linkPrevious
  rw [if_neg (by omega)]
  refine Runs.bind (setFatEntry_runs good range.2 cluster) ?_
  rintro _ d' ⟨rfl, effect⟩
  exact Runs.pure ⟨rfl, effect⟩

section AllocateLoop

variable {v : Vol}

/-- The clusters that `n` more passes take off the free list. -/
def taken (self : Bool) (n : Nat) : Nat := (if self then n + 1 else n) / 2

/-- How the loop ends when it still has `r` to take from: with the chain `first`, .., `p`
linked up to `p`, or out of clusters. -/
def LoopEnds (v : Vol) (d : Driver) (first k : Nat) (held r : List Nat)
    (res : Option (Nat × Nat)) (d' : Driver) : Prop :=
  if k ≤ r.length then
    ∃ u p t, held ++ r.take k = u ++ [p] ∧ res = some (first, p) ∧
      Effect d d' (v.linkTo t (u ++ [p]))
  else res = none ∧ Effect d d' (v.linkTo (v.freeClusters.getLastD 0) v.freeClusters)

theorem LoopEnds.trans {d d' d'' : Driver} {first k : Nat} {held r : List Nat} {w : Vol}
    {res : Option (Nat × Nat)} (step : Effect d d' w)
    (ends : LoopEnds v d' first k held r res d'') : LoopEnds v d first k held r res d'' := by
  unfold LoopEnds at ends ⊢
  split at ends
  · rw [if_pos ‹_›]
    obtain ⟨u, p, t, parts, value, effect⟩ := ends
    exact ⟨u, p, t, parts, value, step.trans effect⟩
  · rw [if_neg ‹_›]
    exact ⟨ends.1, step.trans ends.2⟩

/-- The loop with `n` passes left, `l` and `b` held and `r` still free: every second pass
takes a cluster. -/
theorem allocateLoop_runs (small : v.total + 2 ≤ 2 ^ 28) {first : Nat} (started : first ≠ 0) :
    ∀ (n : Nat) (self : Bool) (l r : List Nat) (b : Nat) (d : Driver), d.Good →
    d.vol = v.held self l b → v.freeClusters = l ++ b :: r →
    Runs (allocateLoop n first b) d fun res d' =>
      LoopEnds v d first (taken self n) (l ++ [b]) r res d'
  | 0, self, l, r, b, d, good, vol, _ => by
      have none : taken self 0 = 0 := by cases self <;> rfl
      refine Runs.pure ?_
      rw [none, LoopEnds, if_pos (Nat.zero_le _)]
      refine ⟨l, b, if self then b else 0, by simp, rfl, ?_⟩
      have effect := Effect.refl good
      rwa [vol] at effect
  | n + 1, self, l, r, b, d, good, vol, split => by
      have inRange : ∀ c, c ∈ v.freeClusters → v.InRange c ∧ c % 2 ^ 28 = c := by
        intro c free
        have range := (Vol.mem_freeClusters.mp free).1
        exact ⟨range, Nat.mod_eq_of_lt (by have := range.2; omega)⟩
      have hb := inRange b (by rw [split]; simp)
      have distinct := v.nodup_freeClusters
      rw [split] at distinct
      have fresh : b ∉ l := by
        intro other
        exact (List.nodup_append.mp distinct).2.2 b other b (by simp) rfl
      have rangeHere : ∀ d' : Driver, d'.vol = v.held self l b → d'.vol.InRange b := by
        intro d' same
        rw [same]
        exact hb.1
      unfold allocateLoop
      refine Runs.bind (findFreeCluster_runs good) ?_
      rintro _ d₁ ⟨rfl, searched⟩
      rw [vol] at searched
      rw [vol, Vol.freeClusters_held self l r b split]
      cases self with
      | false =>
          -- the search returns the cluster already held, and it is linked to itself
          simp only [Bool.false_eq_true, if_false, List.head?_cons]
          refine Runs.bind (linkPrevious_runs searched.good (rangeHere d₁ searched.vol_eq)) ?_
          rintro _ d₂ ⟨rfl, linked⟩
          rw [if_pos rfl, if_neg started]
          have vol₂ : d₂.vol = v.held true l b := by
            rw [linked.vol_eq, searched.vol_eq, hb.2]
            simp only [Vol.held, Vol.linkTo, Vol.setFat, Bool.false_eq_true, if_false, if_true]
            rw [update_relink_last fresh]
          refine Runs.mono
            (allocateLoop_runs small started n true l r b d₂ linked.good vol₂ split) ?_
          intro res d' ends
          exact LoopEnds.trans (searched.trans linked) ends
      | true =>
          simp only [if_true]
          cases r with
          | nil =>
              refine Runs.pure ?_
              have more : ¬ taken true (n + 1) ≤ ([] : List Nat).length := by
                simp [taken]
              rw [LoopEnds, if_neg more]
              refine ⟨rfl, ?_⟩
              have whole : v.linkTo (v.freeClusters.getLastD 0) v.freeClusters =
                  v.held true l b := by
                simp [Vol.held, split]
              rw [whole]
              exact searched
          | cons c r =>
              have hc := inRange c (by rw [split]; simp)
              have free : v.fat c = 0 :=
                (Vol.mem_freeClusters.mp (show c ∈ v.freeClusters by rw [split]; simp)).2
              simp only [List.head?_cons]
              refine Runs.bind (linkPrevious_runs searched.good (rangeHere d₁ searched.vol_eq)) ?_
              rintro _ d₂ ⟨rfl, linked⟩
              rw [if_pos rfl, if_neg started]
              have vol₂ : d₂.vol = v.held false (l ++ [b]) c := by
                rw [linked.vol_eq, searched.vol_eq, hc.2]
                simp only [Vol.held, Vol.linkTo, Vol.setFat, Bool.false_eq_true, if_false,
                  if_true]
                rw [update_relink_last fresh, relink_extend free, List.append_assoc]
                rfl
              have split' : v.freeClusters = (l ++ [b]) ++ c :: r := by rw [split]; simp
              refine Runs.mono (allocateLoop_runs small started n false (l ++ [b]) r c d₂
                linked.good vol₂ split') ?_
              intro res d' ends
              have step := LoopEnds.trans (searched.trans linked) ends
              have one : taken true (n + 1) = taken false n + 1 := by simp [taken]; omega
              unfold LoopEnds at step ⊢
              rw [one, List.take_succ_cons, List.length_cons]
              simpa using step

end AllocateLoop

/-- The allocation with at least one pass, before the chain is closed. -/
theorem allocateLoop_start {d : Driver} (good : d.Good) (n : Nat) :
    Runs (allocateLoop (n + 1) 0 0) d fun res d' =>
      match d.vol.freeClusters with
      | [] => res = none ∧ Effect d d' d.vol
      | b :: r => LoopEnds d.vol d b (taken false n) [b] r res d' := by
  unfold allocateLoop
  refine Runs.bind (findFreeCluster_runs good) ?_
  rintro _ d₁ ⟨rfl, searched⟩
  cases split : d.vol.freeClusters with
  | nil => exact Runs.pure ⟨rfl, searched⟩
  | cons b r =>
      simp only [List.head?_cons]
      have free : d.vol.fat b = 0 :=
        (Vol.mem_freeClusters.mp (show b ∈ d.vol.freeClusters by rw [split]; simp)).2
      have nonzero : b ≠ 0 := Vol.pos_of_free (show b ∈ d.vol.freeClusters by rw [split]; simp)
      have first : (linkPrevious 0 b).run d₁ = .ok (true, d₁) := rfl
      refine Runs.step first ?_
      rw [if_pos rfl, if_pos trivial]
      have vol : d₁.vol = d.vol.held false [] b := by
        rw [searched.vol_eq]
        simp only [Vol.held, Vol.linkTo, Bool.false_eq_true, if_false, List.nil_append, relink,
          List.headD_nil]
        rw [← free, Function.update_eq_self]
      have small : d.vol.total + 2 ≤ 2 ^ 28 := by
        have := good.geometry.range_lt_end
        change d.fs.totalClusters + 2 ≤ 2 ^ 28
        omega
      refine Runs.mono (allocateLoop_runs small nonzero n false [] r b d₁ searched.good vol
        (by simpa using split)) ?_
      intro res d' ends
      exact LoopEnds.trans searched ends

/-- `fat32_allocate_cluster_chain` on a good state. -/
theorem allocateClusterChain_runs {d : Driver} (good : d.Good) (n : Nat) :
    Runs (allocateClusterChain n) d fun res d' =>
      res = (d.vol.allocate n).1 ∧ Effect d d' (d.vol.allocate n).2 := by
  unfold allocateClusterChain
  cases n with
  | zero => exact Runs.step rfl (Runs.step rfl (Runs.pure ⟨rfl, Effect.refl good⟩))
  | succ n =>
      refine Runs.bind (allocateLoop_start good n) ?_
      intro res d₁ ends
      have half : (n + 1 + 1) / 2 = taken false n + 1 := by simp [taken]; omega
      cases split : d.vol.freeClusters with
      | nil =>
          rw [split] at ends
          obtain ⟨rfl, effect⟩ := ends
          refine Runs.pure ?_
          rw [Vol.allocate, if_neg (by omega), split, half, if_neg (by simp)]
          exact ⟨rfl, effect⟩
      | cons b r =>
          rw [split] at ends
          simp only [LoopEnds] at ends
          rw [Vol.allocate, if_neg (by omega), split, half, List.length_cons]
          by_cases enough : taken false n ≤ r.length
          · rw [if_pos enough] at ends
            rw [if_pos (by omega), List.take_succ_cons]
            obtain ⟨u, p, t, parts, rfl, effect⟩ := ends
            have member : ∀ c, c ∈ u ++ [p] → c ∈ d.vol.freeClusters := by
              intro c inside
              rw [← parts, List.singleton_append] at inside
              rw [split]
              rcases List.mem_cons.mp inside with rfl | later
              · exact List.mem_cons_self
              · exact List.mem_cons_of_mem _ (List.mem_of_mem_take later)
            have distinct : (u ++ [p]).Nodup := by
              rw [← parts]
              refine List.Nodup.sublist ?_ d.vol.nodup_freeClusters
              rw [split]
              exact List.Sublist.cons_cons _ (List.take_sublist _ _)
            have fresh : p ∉ u := fun other =>
              (List.nodup_append.mp distinct).2.2 p other p (by simp) rfl
            have range : d₁.vol.InRange p := by
              rw [effect.vol_eq]
              exact (Vol.mem_freeClusters.mp (member p (by simp))).1
            refine Runs.bind (linkPrevious_runs effect.good range) ?_
            rintro _ d₂ ⟨rfl, closed⟩
            rw [if_pos rfl]
            refine Runs.pure ⟨rfl, ?_⟩
            have chain : d₁.vol.setFat p (0x0FFFFFFF % 2 ^ 28) =
                d.vol.linkTo 0x0FFFFFFF (b :: r.take (taken false n)) := by
              rw [effect.vol_eq]
              simp only [Vol.setFat, Vol.linkTo]
              rw [update_relink_last fresh, ← parts]
              rfl
            rw [chain] at closed
            exact effect.trans closed
          · rw [if_neg enough] at ends
            rw [if_neg (by omega)]
            obtain ⟨rfl, effect⟩ := ends
            rw [split] at effect
            exact Runs.pure ⟨rfl, effect⟩

end XosKernel.Fat32
