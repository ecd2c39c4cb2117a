import Scriptlet.Tree.Walk

/-!
# Induction over trees

A statement about all trees follows if it holds of a node whenever it holds of
the node's children. `Node.All` says that all nodes of a tree have a property;
`Node.all_iff` takes it apart into the root and the children.
-/

namespace Scriptlet.Node

theorem size_lt_of_mem_children {m n : Node} (h : m ∈ n.children) : m.size < n.size := by
  obtain ⟨before, after, hsplit⟩ := List.append_of_mem h
  have hsize : m.preorder.length = m.size := rfl
  rw [size_eq n, hsplit]
  simp only [List.flatMap_append, List.flatMap_cons, List.length_append]
  omega

theorem size_pos (n : Node) : 0 < n.size := by
  rw [size_eq]
  exact Nat.succ_pos _

/-- A statement holds of all trees if it passes from the children to the node. -/
theorem induction {P : Node → Prop} (h : ∀ n, (∀ m ∈ n.children, P m) → P n) (n : Node) : P n :=
  h n fun m _ => induction h m
termination_by n.size
decreasing_by exact size_lt_of_mem_children (by assumption)

/-- All nodes of a tree have a property. -/
def All (P : Node → Prop) (n : Node) : Prop := ∀ m ∈ n.preorder, P m

instance {P : Node → Prop} [DecidablePred P] : DecidablePred (All P) := fun n =>
  inferInstanceAs (Decidable (∀ m ∈ n.preorder, P m))

theorem all_iff {P : Node → Prop} {n : Node} :
    n.All P ↔ P n ∧ ∀ m ∈ n.children, m.All P := by
  unfold All
  rw [preorder_eq]
  simp only [List.mem_cons, List.mem_flatMap, forall_eq_or_imp]
  constructor
  · rintro ⟨h1, h2⟩
    exact ⟨h1, fun m hm k hk => h2 k ⟨m, hm, hk⟩⟩
  · rintro ⟨h1, h2⟩
    exact ⟨h1, fun k ⟨m, hm, hk⟩ => h2 m hm k hk⟩

theorem All.root {P : Node → Prop} {n : Node} (h : n.All P) : P n := (all_iff.mp h).1

theorem All.child {P : Node → Prop} {m n : Node} (h : n.All P) (hm : m ∈ n.children) : m.All P :=
  (all_iff.mp h).2 m hm

/-- Of a node of a tree, all nodes are nodes of the tree. -/
theorem All.of_mem {P : Node → Prop} {m n : Node} (h : n.All P) (hm : m ∈ n.preorder) :
    m.All P := by
  induction n using induction with
  | h n ih =>
    rw [preorder_eq, List.mem_cons, List.mem_flatMap] at hm
    rcases hm with rfl | ⟨k, hk, hm⟩
    · exact h
    · exact ih k hk (h.child hk) hm

end Scriptlet.Node
