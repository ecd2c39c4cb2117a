import Mathlib.Data.List.Flatten
import Scriptlet.Proofs.Numbering
import Scriptlet.Proofs.Pruning
import Scriptlet.Token.Lexeme

/-!
# Ids under optimisation

Simplification moves, drops and copies nodes and builds new ones, with ids from a
supply. The ids of a tree stay pairwise distinct nevertheless, and the tree does not
grow.

Both facts are about the list of the ids of a tree, whose length is the size of the
tree. `Renewed old new k j` relates the ids before and after a step that draws the ids
from `k` up to `j`. The relation holds of each local step, and it composes side by side
and one after the other, so it holds of the whole recursion.

Results:
* `Renewed.append`, `Renewed.trans`: the two ways to compose.
* `renewed_rebuild`: the local step of simplification.
* `renewed_simplify`: the whole of it.
* `nodup_ids_parse`: a parsed tree has distinct ids to begin with.
* `optimize_ids`: an optimised tree has distinct ids, old ones or fresh ones, and is
  not larger than it was.
-/

namespace Scriptlet.Optimize

open Node

/-! ## Supplies of ids -/

/-- A step makes the ids `new` of the ids `old` and draws the ids from `k` up to `j`. -/
structure Renewed (old new : List Nat) (k j : Nat) : Prop where
  le : k ≤ j
  mem : ∀ i ∈ new, i ∈ old ∨ k ≤ i ∧ i < j
  nodup : old.Nodup → (∀ i ∈ old, i < k) → new.Nodup
  length : new.length ≤ old.length

namespace Renewed

variable {a a' b b' c old new : List Nat} {j k l : Nat}

/-- Dropping ids. -/
theorem of_sublist (h : new.Sublist old) (k : Nat) : Renewed old new k k :=
  ⟨Nat.le_refl k, fun _ hi => .inl (h.subset hi), fun hold _ => h.nodup hold, h.length_le⟩

theorem refl (old : List Nat) (k : Nat) : Renewed old old k k := of_sublist (.refl old) k

/-- All ids are below the next free one. -/
theorem lt (h : Renewed old new k j) (hold : ∀ i ∈ old, i < k) : ∀ i ∈ new, i < j := by
  intro i hi
  rcases h.mem i hi with hi | ⟨-, hi⟩
  · exact Nat.lt_of_lt_of_le (hold i hi) h.le
  · exact hi

/-- **One step after the other.** -/
theorem trans (h : Renewed a b k j) (h' : Renewed b c j l) : Renewed a c k l := by
  have hkj := h.le
  have hjl := h'.le
  refine ⟨by omega, fun i hi => ?_, fun hnodup hlt => h'.nodup (h.nodup hnodup hlt) (h.lt hlt),
    h'.length.trans h.length⟩
  rcases h'.mem i hi with hi | hi
  · exact (h.mem i hi).imp id fun hi => by omega
  · exact .inr (by omega)

/-- **One step beside the other.** What the first one draws is not yet known to the
    second one, and what the second one draws is new to both. -/
theorem append (h : Renewed a a' k j) (h' : Renewed b b' j l) :
    Renewed (a ++ b) (a' ++ b') k l := by
  have hkj := h.le
  have hjl := h'.le
  refine ⟨by omega, fun i hi => ?_, fun hnodup hlt => ?_, ?_⟩
  · rw [List.mem_append] at hi ⊢
    rcases hi with hi | hi
    · rcases h.mem i hi with hi | hi
      · exact .inl (.inl hi)
      · exact .inr (by omega)
    · rcases h'.mem i hi with hi | hi
      · exact .inl (.inr hi)
      · exact .inr (by omega)
  · obtain ⟨ha, hb, hdisjoint⟩ := List.nodup_append.mp hnodup
    have hlta : ∀ i ∈ a, i < k := fun i hi => hlt i (List.mem_append_left b hi)
    have hltb : ∀ i ∈ b, i < k := fun i hi => hlt i (List.mem_append_right a hi)
    refine List.nodup_append.mpr ⟨h.nodup ha hlta,
      h'.nodup hb fun i hi => Nat.lt_of_lt_of_le (hltb i hi) hkj, ?_⟩
    rintro i hi i' hi' rfl
    rcases h.mem i hi with hia | hia
    · have hik := hlta i hia
      rcases h'.mem i hi' with hib | hib
      · exact hdisjoint i hia i hib rfl
      · omega
    · rcases h'.mem i hi' with hib | hib
      · have hik := hltb i hib
        omega
      · omega
  · rw [List.length_append, List.length_append]
    exact Nat.add_le_add h.length h'.length

theorem cons (h : Renewed old new k j) (i : Nat) : Renewed (i :: old) (i :: new) k j :=
  (refl [i] k).append h

/-- A new node in place of at least one. -/
theorem fresh (h : 1 ≤ old.length) (k : Nat) : Renewed old [k] k (k + 1) :=
  ⟨Nat.le_succ k, fun i hi => .inr (by simp at hi; omega), fun _ _ => List.nodup_singleton k, h⟩

/-- Two new nodes around an old one, in place of at least three. -/
theorem around {i : Nat} (hi : i ∈ old) (h : 3 ≤ old.length) (k : Nat) :
    Renewed old [k + 1, i, k] k (k + 2) := by
  refine ⟨by omega, fun i' hi' => ?_, fun _ hlt => ?_, h⟩
  · simp only [List.mem_cons, List.not_mem_nil, or_false] at hi'
    rcases hi' with rfl | rfl | rfl
    · exact .inr (by omega)
    · exact .inl hi
    · exact .inr (by omega)
  · have hik := hlt i hi
    simp only [List.nodup_cons, List.mem_cons, List.not_mem_nil, or_false, not_or,
      not_false_eq_true, List.nodup_nil, and_true]
    omega

end Renewed

/-! ## Simplification -/

theorem ids_of_leaf {n : Node} (h : n.children = []) : n.ids = [n.id] := by
  rw [ids_eq, h]
  rfl

theorem children_of_isRead {n : Node} (h : isRead n = true) : n.children = [] := by
  obtain ⟨x, hx⟩ := isRead_iff.mp h
  rw [children, hx]
  rfl

theorem ids_arith (id line : Nat) (op : Arith) (left right : Node) :
    ids ⟨id, line, .arith op left right⟩ = id :: (left.ids ++ right.ids) := by
  rw [ids_eq]
  simp [children, Form.children]

theorem ids_arith_of_leaves {left right : Node} (hleft : left.children = [])
    (hright : right.children = []) (id line : Nat) (op : Arith) :
    ids ⟨id, line, .arith op left right⟩ = [id, left.id, right.id] := by
  rw [ids_arith, ids_of_leaf hleft, ids_of_leaf hright]
  rfl

/-- Applying an identity: the variable and the literal are the operands. -/
theorem renewed_applyIdentity {op : Arith} {left right : Node} {m : Match}
    (h : match? op left right = some m) (id line k : Nat) :
    Renewed (id :: (left.ids ++ right.ids)) ((applyIdentity line m).run k).1.ids k
      ((applyIdentity line m).run k).2 := by
  obtain ⟨hread, -, hsides⟩ := match?_eq_some h
  have hleaf : m.operand.children = [] := children_of_isRead hread
  have hoperand : m.operand.ids.Sublist (left.ids ++ right.ids) := by
    rcases hsides with ⟨-, h, -, -⟩ | ⟨-, h, -, -⟩
    · exact h ▸ List.sublist_append_right _ _
    · exact h ▸ List.sublist_append_left _ _
  have hliteral : m.literal.ids.Sublist (left.ids ++ right.ids) := by
    rcases hsides with ⟨-, -, h, -⟩ | ⟨-, -, h, -⟩
    · exact h ▸ List.sublist_append_left _ _
    · exact h ▸ List.sublist_append_right _ _
  have hmem : m.operand.id ∈ id :: (left.ids ++ right.ids) := by
    refine List.mem_cons_of_mem _ (hoperand.subset ?_)
    rw [ids_of_leaf hleaf]
    exact List.mem_singleton_self _
  have hlength : 3 ≤ (id :: (left.ids ++ right.ids)).length := by
    have hleft := size_pos left
    have hright := size_pos right
    rw [List.length_cons, List.length_append, length_ids, length_ids]
    omega
  -- a copy of the variable is a leaf as the variable is
  have hcopy : children ⟨k, m.operand.line, m.operand.form⟩ = [] := hleaf
  obtain ⟨identity, operand, literal⟩ := m
  cases identity with
  | operand => exact .of_sublist (hoperand.cons _) k
  | literal => exact .of_sublist (hliteral.cons _) k
  | one =>
    have hids : ids ⟨k, line, oneLike literal⟩ = [k] := by
      refine ids_of_leaf ?_
      simp only [children, oneLike]
      split <;> rfl
    show Renewed _ (ids ⟨k, line, oneLike literal⟩) k (k + 1)
    rw [hids]
    exact .fresh (by omega) k
  | double =>
    show Renewed _ (ids ⟨k + 1, line, .arith .add operand ⟨k, _, _⟩⟩) k (k + 2)
    rw [ids_arith_of_leaves hleaf hcopy]
    exact .around hmem hlength k
  | square =>
    show Renewed _ (ids ⟨k + 1, line, .arith .mul operand ⟨k, _, _⟩⟩) k (k + 2)
    rw [ids_arith_of_leaves hleaf hcopy]
    exact .around hmem hlength k
  | halve =>
    show Renewed _ (ids ⟨k + 1, line, .arith .mul operand ⟨k, literal.line, .float 0.5⟩⟩) k (k + 2)
    rw [ids_arith_of_leaves hleaf rfl]
    exact .around hmem hlength k

theorem renewed_simplifyArith (id line : Nat) (op : Arith) (left right : Node) (k : Nat) :
    Renewed (id :: (left.ids ++ right.ids)) ((simplifyArith id line op left right).run k).1.ids k
      ((simplifyArith id line op left right).run k).2 := by
  unfold simplifyArith
  cases hfold : foldLiterals? op left right with
  | some form =>
    have hids : ids ⟨k, line, form⟩ = [k] := by
      refine ids_of_leaf ?_
      rcases form_of_foldLiterals? hfold with ⟨i, rfl⟩ | ⟨x, rfl⟩
      · rfl
      · rfl
    show Renewed _ (ids ⟨k, line, form⟩) k (k + 1)
    rw [hids]
    exact .fresh (by simp) k
  | none =>
    cases hmatch : match? op left right with
    | some m => exact renewed_applyIdentity hmatch id line k
    | none =>
      show Renewed _ (ids ⟨id, line, .arith op left right⟩) k k
      rw [ids_arith]
      exact .refl _ k

/-- **The local step of simplification.** -/
theorem renewed_rebuild (id line : Nat) (form : Form Node) (k : Nat) :
    Renewed (id :: form.children.flatMap ids) ((rebuild id line form).run k).1.ids k
      ((rebuild id line form).run k).2 := by
  cases form with
  | block statements =>
    have hids : ((rebuild id line (.block statements)).run k).1.ids =
        id :: (statements.filter fun n => !n.isComment).flatMap ids := ids_eq _
    rw [hids]
    exact .of_sublist ((List.filter_sublist.flatMap ids).cons_cons id) k
  | arith op left right =>
    have hids : (Form.arith op left right).children.flatMap ids = left.ids ++ right.ids := by
      simp [Form.children]
    rw [hids]
    exact renewed_simplifyArith id line op left right k
  | _ =>
    rw [ids_eq]
    exact .refl _ k

theorem renewed_mapM {f : Node → Fresh Node} {ns : List Node}
    (h : ∀ n ∈ ns, ∀ k, Renewed n.ids ((f n).run k).1.ids k ((f n).run k).2) (k : Nat) :
    Renewed (ns.flatMap ids) (((ns.mapM f).run k).1.flatMap ids) k ((ns.mapM f).run k).2 := by
  induction ns generalizing k with
  | nil => exact .refl [] k
  | cons n ns ih =>
    rw [List.mapM_cons]
    exact (h n List.mem_cons_self k).append (ih (fun m hm => h m (List.mem_cons_of_mem n hm)) _)

/-- **Simplification draws new ids for new nodes and drops at least as many nodes.** -/
theorem renewed_simplify (n : Node) (k : Nat) :
    Renewed n.ids ((simplify n).run k).1.ids k ((simplify n).run k).2 := by
  induction n using Node.induction generalizing k with
  | h n ih =>
    have hchildren : Renewed (n.children.flatMap ids)
        (((n.form.traverse simplify).run k).1.children.flatMap ids) k
        ((n.form.traverse simplify).run k).2 := by
      have hrun := congrArg (fun x => x.run k) (n.form.children_traverse simplify)
      have h := renewed_mapM ih k
      rw [children, ← hrun] at h
      exact h
    rw [ids_eq, simplify_eq]
    exact (hchildren.cons n.id).trans (renewed_rebuild n.id n.line _ _)

end Scriptlet.Optimize

namespace Scriptlet

open Optimize

/-- A parsed tree has distinct ids, all below the id that is free after it. -/
theorem nodup_ids_parse (tokens : List Lexed) (firstId : Nat) :
    (parse tokens firstId).tree.ids.Nodup ∧
      ∀ i ∈ (parse tokens firstId).tree.ids, i < (parse tokens firstId).nextId := by
  obtain ⟨t, hnumbers, hnext, -, -⟩ := Parser.numbers_parse tokens firstId
  generalize parse tokens firstId = parsed at *
  have hperm : (Node.postIds [parsed.tree]).Perm parsed.tree.ids := by
    simpa [Node.postIds, Node.ids] using (Node.postorder_perm _).map Node.id
  have hsublist := hnumbers.sublist
  refine ⟨hperm.nodup_iff.mp (hsublist.nodup (List.nodup_range' ..)), fun i hi => ?_⟩
  have hlt := (List.mem_range'_1.mp (hsublist.subset (hperm.mem_iff.mpr hi))).2
  have hle := hnumbers.le
  omega

/-- **An optimised tree has pairwise distinct ids and is not larger than it was.** If the
    ids of a tree are distinct and below the next free one, then each id of the
    optimised tree is one of the tree or was drawn, all are below the id that is free
    then, and there are at most as many. -/
theorem optimize_ids (dropDeadCode : Bool) (n : Node) (free : Nat) (hids : n.ids.Nodup)
    (hfree : ∀ i ∈ n.ids, i < free) :
    let r := (optimize dropDeadCode n).run free
    r.1.ids.Nodup ∧ (∀ i ∈ r.1.ids, i ∈ n.ids ∨ free ≤ i ∧ i < r.2) ∧
      (∀ i ∈ r.1.ids, i < r.2) ∧ r.1.size ≤ n.size := by
  intro r
  have hsimple := renewed_simplify n free
  have h : Renewed n.ids r.1.ids free r.2 := by
    cases dropDeadCode with
    | false => exact hsimple
    | true => exact hsimple.trans (.of_sublist (pruned_eliminate _).ids_sublist _)
  refine ⟨h.nodup hids hfree, h.mem, h.lt hfree, ?_⟩
  rw [← Node.length_ids, ← Node.length_ids]
  exact h.length

/-- A program with folds inside folds, with a variable that is copied and one that is
    halved, with a literal that takes the place of a product, and with dead code. -/
theorem optimize_ids_of_identities :
    let parsed := parse (tokenize ("x := 1 + 2 * 3; y := x * 2 + x ^ 2; z := x / 2.0 # half\n; " ++
      "print(x * 0 + y)")).1 0
    let r := (optimize true parsed.tree).run parsed.nextId
    parsed.nextId = 30 ∧ r.2 = 38 ∧
      r.1.ids.Nodup ∧ (∀ i ∈ r.1.ids, i ∈ parsed.tree.ids ∨ parsed.nextId ≤ i ∧ i < r.2) ∧
      (∀ i ∈ r.1.ids, i < r.2) ∧ r.1.size ≤ parsed.tree.size := by
  intro parsed r
  obtain ⟨hids, hfree⟩ : parsed.tree.ids.Nodup ∧ ∀ i ∈ parsed.tree.ids, i < parsed.nextId :=
    nodup_ids_parse _ 0
  exact ⟨by decide +kernel, by decide +kernel, optimize_ids true parsed.tree _ hids hfree⟩

end Scriptlet
