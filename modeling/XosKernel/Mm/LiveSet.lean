/-
# Mm.LiveSet -- the page allocator as a set of pages

What the bitmap is for: a finite set of live pages.  `LiveStep` says what allocating, freeing
and asking for the statistics mean on such a set, and `pmm_refines_live` that from `pmm_init`
on every sequence of these calls, with whatever pointers, is a run on sets.
-/
import XosKernel.Mm.Pages
import Mathlib.Order.Bounds.Basic
import Mathlib.Data.Finset.Card
import Mathlib.Order.Interval.Finset.Nat

namespace XosKernel.Mm

open XosKernel.Theory

set_option autoImplicit false

/-! ## Calls -/

inductive PmmOp where
  | alloc
  | free (ptr : Nat)
  | stats

inductive PmmResult where
  | address (page : Option Nat)
  | freed
  | stats (report : PmmStats)

def PmmOp.exec (bitmap : Buf) : PmmOp → PmmResult × Buf
  | .alloc => (.address (pmmAllocPage bitmap).1, (pmmAllocPage bitmap).2)
  | .free ptr => (.freed, pmmFreePage bitmap ptr)
  | .stats => (.stats (pmmGetStats bitmap), bitmap)

/-- The results of the calls, and the bitmap after them. -/
def runPmm (bitmap : Buf) : List PmmOp → List PmmResult × Buf
  | [] => ([], bitmap)
  | op :: rest =>
      let step := op.exec bitmap
      let after := runPmm step.2 rest
      (step.1 :: after.1, after.2)

/-! ## Sets of live pages -/

/-- What a call does on a set of live pages: what it returns, and the set after it. -/
def LiveStep (live : Finset Nat) : PmmOp → PmmResult → Finset Nat → Prop
  | .alloc, .address (some a), live' =>
      ∃ i, IsLeast { i | Page i ∧ i ∉ live } i ∧ a = 4096 * i ∧ live' = insert i live
  | .alloc, .address none, live' => (∀ i, Page i → i ∈ live) ∧ live' = live
  | .free ptr, .freed, live' =>
      live' = if Page (ptr / 4096) then live.erase (ptr / 4096) else live
  | .stats, .stats report, live' =>
      report.usedPages = live.card ∧
        report.usedPages + report.freePages + report.reservedPages = report.totalPages ∧
        live' = live
  | _, _, _ => False

/-- A run of calls on sets. -/
inductive LiveRun : Finset Nat → List PmmOp → List PmmResult → Finset Nat → Prop
  | done (live : Finset Nat) : LiveRun live [] [] live
  | call {live live₁ live₂ : Finset Nat} {op : PmmOp} {rest : List PmmOp} {r : PmmResult}
      {results : List PmmResult} (step : LiveStep live op r live₁)
      (after : LiveRun live₁ rest results live₂) :
      LiveRun live (op :: rest) (r :: results) live₂

/-- The bitmap has the bits of the live pages, and these are in range. -/
structure Represents (bitmap : Buf) (live : Finset Nat) : Prop where
  pages : ∀ i ∈ live, Page i
  used : ∀ i, Page i → (bitmapTest bitmap i = true ↔ i ∈ live)

/-! ## Refinement -/

namespace Represents

variable {bitmap : Buf} {live : Finset Nat}

theorem init (bitmap : Buf) : Represents (pmmInit bitmap) ∅ := by
  refine ⟨by simp, fun i page => ?_⟩
  have none := (taken_init bitmap).used i page
  have low := page.1
  simp only [none, Finset.notMem_empty, iff_false, decide_eq_true_eq]
  omega

theorem alloc (rep : Represents bitmap live) :
    ∃ live', LiveStep live .alloc (.address (pmmAllocPage bitmap).1) live' ∧
      Represents (pmmAllocPage bitmap).2 live' := by
  rcases pmmAllocPage_cases bitmap with ⟨i, page, free, before, alloc⟩ | ⟨full, alloc⟩
  · rw [alloc]
    have dead : i ∉ live := fun member => by
      rw [(rep.used i page).mpr member] at free
      cases free
    refine ⟨insert i live, ⟨i, ⟨⟨page, dead⟩, ?_⟩, Nat.mul_comm _ _, rfl⟩, ?_, ?_⟩
    · -- the scan passed over live pages only
      rintro j ⟨pageJ, deadJ⟩
      by_contra below
      exact deadJ ((rep.used j pageJ).mp (before j pageJ.1 (Nat.not_le.mp below)))
    · intro j member
      rcases Finset.mem_insert.mp member with rfl | old
      · exact page
      · exact rep.pages j old
    · intro j pageJ
      rw [bitmapTest_set, Finset.mem_insert, Bool.or_eq_true, decide_eq_true_eq, rep.used j pageJ]
  · rw [alloc]
    exact ⟨live, ⟨fun i page => (rep.used i page).mp (full i page), rfl⟩, rep⟩

theorem free (rep : Represents bitmap live) (ptr : Nat) :
    Represents (pmmFreePage bitmap ptr)
      (if Page (ptr / 4096) then live.erase (ptr / 4096) else live) := by
  simp only [pmmFreePage]
  by_cases page : Page (ptr / 4096)
  · rw [if_pos page,
      if_pos (show firstPage ≤ ptr / pageSize ∧ ptr / pageSize < totalPages from page)]
    refine ⟨fun i member => rep.pages i (Finset.mem_of_mem_erase member), fun i within => ?_⟩
    rw [bitmapTest_clear, Finset.mem_erase, Bool.and_eq_true, decide_eq_true_eq, rep.used i within]
    rfl
  · rw [if_neg page, if_neg (show ¬ (firstPage ≤ ptr / pageSize ∧ ptr / pageSize < totalPages) from
      page)]
    exact rep

/-- The statistics count the live pages. -/
theorem usedPages (rep : Represents bitmap live) : pmmUsedPages bitmap = live.card := by
  have same : live = ((List.range' firstPage (totalPages - firstPage)).filter
      (bitmapTest bitmap)).toFinset := by
    ext i
    rw [List.mem_toFinset, List.mem_filter, mem_pages]
    constructor
    · intro member
      have page := rep.pages i member
      exact ⟨page, (rep.used i page).mpr member⟩
    · rintro ⟨page, used⟩
      exact (rep.used i page).mp used
  have distinct : ((List.range' firstPage (totalPages - firstPage)).filter
      (bitmapTest bitmap)).Nodup := List.Nodup.filter _ List.nodup_range'
  rw [same, List.toFinset_card_of_nodup distinct, pmmUsedPages, List.countP_eq_length_filter]

theorem usedPages_le (bitmap : Buf) : pmmUsedPages bitmap ≤ totalPages - firstPage := by
  have most := List.countP_le_length (p := bitmapTest bitmap)
    (l := List.range' firstPage (totalPages - firstPage))
  rwa [List.length_range'] at most

theorem stats (rep : Represents bitmap live) :
    LiveStep live .stats (.stats (pmmGetStats bitmap)) live := by
  have most := usedPages_le bitmap
  refine ⟨rep.usedPages, ?_, rfl⟩
  simp only [pmmGetStats, totalPages, firstPage] at most ⊢
  omega

/-- One call is one step on the set. -/
theorem exec (rep : Represents bitmap live) (op : PmmOp) :
    ∃ live', LiveStep live op (op.exec bitmap).1 live' ∧ Represents (op.exec bitmap).2 live' := by
  cases op with
  | alloc => exact rep.alloc
  | free ptr => exact ⟨_, rfl, rep.free ptr⟩
  | stats => exact ⟨live, rep.stats, rep⟩

/-- A sequence of calls is a run on sets. -/
theorem run (ops : List PmmOp) (rep : Represents bitmap live) :
    ∃ live', LiveRun live ops (runPmm bitmap ops).1 live' ∧
      Represents (runPmm bitmap ops).2 live' := by
  induction ops generalizing bitmap live with
  | nil => exact ⟨live, .done live, rep⟩
  | cons op rest ih =>
      obtain ⟨live₁, step, rep₁⟩ := rep.exec op
      obtain ⟨live₂, after, rep₂⟩ := ih rep₁
      exact ⟨live₂, .call step after, rep₂⟩

end Represents

/-- A page that is handed out is not a reserved one. -/
theorem LiveRun.address_ge {live live' : Finset Nat} {ops : List PmmOp}
    {results : List PmmResult} (run : LiveRun live ops results live') :
    ∀ a, .address (some a) ∈ results → 4096 * 512 ≤ a := by
  induction run with
  | done => simp
  | @call live live₁ live₂ op rest r results step _ ih =>
      intro a member
      rcases List.mem_cons.mp member with rfl | later
      · cases op with
        | alloc =>
            obtain ⟨i, least, rfl, -⟩ := step
            exact Nat.mul_le_mul_left 4096 least.1.1.1
        | free ptr => cases step
        | stats => cases step
      · exact ih a later

/-- From `pmm_init` on the allocator is the set of live pages: every sequence of calls is a run
on sets from the empty one, the bitmap represents the set that is reached, and no reserved page
is ever handed out. -/
theorem pmm_refines_live (bitmap : Buf) (ops : List PmmOp) :
    ∃ live, LiveRun ∅ ops (runPmm (pmmInit bitmap) ops).1 live ∧
      Represents (runPmm (pmmInit bitmap) ops).2 live ∧
      ∀ a, .address (some a) ∈ (runPmm (pmmInit bitmap) ops).1 → 4096 * 512 ≤ a := by
  obtain ⟨live, ran, rep⟩ := (Represents.init bitmap).run ops
  exact ⟨live, ran, rep, ran.address_ge⟩

end XosKernel.Mm
