/-
# Theory.Chain -- terminated chains in a successor map

A successor map `next` links nodes; a chain starts at a node, follows the links through
further nodes and ends at the first link that is a stop mark.  `Chain next node stop a l`
says that the chain from `a` visits exactly the list `l`.  A chain is determined by its
start (`deterministic`), so it never visits a node twice (`nodup`), and it depends only on
the links of the nodes it visits (`congr`).
-/
import Mathlib.Data.List.Nodup
import Mathlib.Data.List.Infix

namespace XosKernel.Theory

set_option autoImplicit false

variable {α : Type} {next next' : α → α} {node stop : α → Prop} {a : α} {l l' : List α}

/-- The terminated chain from a node. -/
inductive Chain (next : α → α) (node stop : α → Prop) : α → List α → Prop
  | last {a : α} (valid : node a) (stops : stop (next a)) : Chain next node stop a [a]
  | link {a : α} {l : List α} (valid : node a) (goes : ¬ stop (next a))
      (rest : Chain next node stop (next a) l) : Chain next node stop a (a :: l)

namespace Chain

theorem head_mem (chain : Chain next node stop a l) : a ∈ l := by
  cases chain <;> simp

theorem valid_of_mem (chain : Chain next node stop a l) : ∀ x, x ∈ l → node x := by
  induction chain with
  | last valid _ =>
      intro x member
      rw [List.mem_singleton] at member
      exact member ▸ valid
  | link valid _ _ ih =>
      intro x member
      rcases List.mem_cons.mp member with rfl | later
      · exact valid
      · exact ih x later

/-- Every link of a chain is a stop mark or leads to a node of the chain. -/
theorem next_of_mem (chain : Chain next node stop a l) :
    ∀ x, x ∈ l → stop (next x) ∨ node (next x) := by
  induction chain with
  | last _ stops =>
      intro x member
      rw [List.mem_singleton] at member
      exact .inl (member ▸ stops)
  | link _ _ rest ih =>
      intro x member
      rcases List.mem_cons.mp member with rfl | later
      · exact .inr (rest.valid_of_mem _ rest.head_mem)
      · exact ih x later

/-- A link of a chain that is no stop mark leads to a node of the chain. -/
theorem link_mem (chain : Chain next node stop a l) :
    ∀ x, x ∈ l → ¬ stop (next x) → next x ∈ l := by
  induction chain with
  | last _ stops =>
      intro x member goes
      rw [List.mem_singleton] at member
      exact absurd (member ▸ stops) goes
  | link _ _ rest ih =>
      intro x member goes
      rcases List.mem_cons.mp member with rfl | later
      · exact List.mem_cons_of_mem _ rest.head_mem
      · exact List.mem_cons_of_mem _ (ih x later goes)

/-- A chain ends at a stop mark. -/
theorem exists_stop (chain : Chain next node stop a l) : ∃ x, x ∈ l ∧ stop (next x) := by
  induction chain with
  | last _ stops => exact ⟨_, List.mem_singleton_self _, stops⟩
  | link _ _ _ ih =>
      obtain ⟨x, member, stops⟩ := ih
      exact ⟨x, List.mem_cons_of_mem _ member, stops⟩

theorem deterministic (chain : Chain next node stop a l) (other : Chain next node stop a l') :
    l = l' := by
  induction chain generalizing l' with
  | last _ stops =>
      cases other with
      | last _ _ => rfl
      | link _ goes _ => exact absurd stops goes
  | link _ goes _ ih =>
      cases other with
      | last _ stops => exact absurd stops goes
      | link _ _ rest => rw [ih rest]

/-- The chain from a visited node is a suffix of the chain that visits it. -/
theorem suffix_of_mem (chain : Chain next node stop a l) :
    ∀ x, x ∈ l → ∃ t, Chain next node stop x t ∧ t <:+ l := by
  induction chain with
  | @last b valid stops =>
      intro x member
      rw [List.mem_singleton] at member
      subst member
      exact ⟨[x], .last valid stops, List.suffix_rfl⟩
  | @link b t valid goes rest ih =>
      intro x member
      rcases List.mem_cons.mp member with rfl | later
      · exact ⟨x :: t, .link valid goes rest, List.suffix_rfl⟩
      · obtain ⟨u, sub, suffix⟩ := ih x later
        exact ⟨u, sub, suffix.trans (List.suffix_cons _ _)⟩

theorem nodup (chain : Chain next node stop a l) : l.Nodup := by
  induction chain with
  | last _ _ => exact List.nodup_singleton _
  | @link b t valid goes rest ih =>
      refine List.nodup_cons.mpr ⟨fun revisited => ?_, ih⟩
      -- a second visit of `b` would make its chain a proper suffix of itself
      obtain ⟨u, sub, suffix⟩ := rest.suffix_of_mem b revisited
      have same : b :: t = u := deterministic (.link valid goes rest) sub
      have shorter := suffix.length_le
      rw [← same, List.length_cons] at shorter
      omega

/-- A chain depends on the links of its own nodes only. -/
theorem congr (chain : Chain next node stop a l) (same : ∀ x, x ∈ l → next' x = next x) :
    Chain next' node stop a l := by
  induction chain with
  | last valid stops =>
      exact .last valid (by rw [same _ List.mem_cons_self]; exact stops)
  | link valid goes rest ih =>
      have here := same _ List.mem_cons_self
      refine .link valid (by rw [here]; exact goes) ?_
      rw [here]
      exact ih fun x member => same x (List.mem_cons_of_mem _ member)

end Chain

/-! ## Relinking a list -/

section Relink

variable [DecidableEq α]

/-- The successor map with the nodes of a list linked in order, the last one to `t`. -/
def relink (f : α → α) (t : α) : List α → α → α
  | [] => f
  | a :: l => Function.update (relink f t l) a (l.headD t)

variable {f : α → α} {t x b c : α}

theorem relink_of_not_mem (outside : x ∉ l) : relink f t l x = f x := by
  induction l with
  | nil => rfl
  | cons a l ih =>
      rw [List.mem_cons, not_or] at outside
      rw [relink, Function.update_of_ne outside.1, ih outside.2]

/-- The links of a relinked list avoid what its members and the last link avoid. -/
theorem relink_ne {z : α} (avoids : ∀ y, y ∈ l → y ≠ z) (last : t ≠ z) :
    ∀ x, x ∈ l → relink f t l x ≠ z := by
  induction l with
  | nil => intro x member; simp at member
  | cons a l ih =>
      intro x member
      by_cases here : x = a
      · subst here
        rw [relink, Function.update_self]
        cases l with
        | nil => exact last
        | cons b l => exact avoids b (by simp)
      · rw [relink, Function.update_of_ne here]
        refine ih (fun y inside => avoids y (List.mem_cons_of_mem _ inside)) x ?_
        exact (List.mem_cons.mp member).resolve_left here

/-- Changing the last link of a relinked list. -/
theorem update_relink_last (fresh : b ∉ l) :
    Function.update (relink f t (l ++ [b])) b x = relink f x (l ++ [b]) := by
  induction l with
  | nil => simp [relink]
  | cons a l ih =>
      rw [List.mem_cons, not_or] at fresh
      have heads : (l ++ [b]).headD t = (l ++ [b]).headD x := by cases l <;> rfl
      simp only [List.cons_append, relink]
      rw [Function.update_comm (Ne.symm fresh.1), ih fresh.2, heads]

/-- A node behind the end that already has the final link belongs to the list. -/
theorem relink_extend (final : f c = t) :
    relink f c (l ++ [b]) = relink f t (l ++ [b, c]) := by
  induction l with
  | nil =>
      have : Function.update f c t = f := by rw [← final, Function.update_eq_self]
      simp [relink, this]
  | cons a l ih =>
      have heads : (l ++ [b]).headD c = (l ++ [b, c]).headD t := by cases l <;> rfl
      simp only [List.cons_append, relink]
      rw [ih, heads]

/-- A relinked list whose last link is a stop mark is a chain. -/
theorem Chain.of_relink (goes : ∀ y, node y → ¬ stop y) (stops : stop t) :
    ∀ {l : List α} {a : α}, (a :: l).Nodup → (∀ y, y ∈ a :: l → node y) →
      Chain (relink f t (a :: l)) node stop a (a :: l)
  | [], a, _, valid => by
      refine .last (valid a List.mem_cons_self) ?_
      rw [relink, Function.update_self]
      exact stops
  | b :: l, a, distinct, valid => by
      have fresh : a ∉ b :: l := (List.nodup_cons.mp distinct).1
      have link : relink f t (a :: b :: l) a = b := by
        rw [relink, Function.update_self]
        rfl
      have rest : Chain (relink f t (b :: l)) node stop b (b :: l) :=
        of_relink goes stops (List.nodup_cons.mp distinct).2
          fun y member => valid y (List.mem_cons_of_mem _ member)
      refine .link (valid a List.mem_cons_self) ?_ ?_
      · rw [link]
        exact goes b (valid b (by simp))
      · rw [link]
        refine rest.congr fun y member => ?_
        rw [relink, Function.update_of_ne]
        rintro rfl
        exact fresh member

end Relink

end XosKernel.Theory
