import Scriptlet.Proofs.Coupling
import Scriptlet.Proofs.Shape

/-!
# Trees that differ in comments

A comment is a statement of its own, and a block begins on the line of its first
statement. So a comment in a block adds a node to it, may move the line of the
block, and changes the ids of the nodes that are finished later. Nothing of that
is seen by evaluation: comments are passed over, ids are not looked at, and no
fault is reported on the line of a block, since in a tree that was parsed a block
is a body and never an operand.

Results:
* `Node.Recommented`: trees that are the same up to comments in blocks, lines of
  blocks and ids.
* `couples_eval_recommented`: they are evaluated alike.
-/

namespace Scriptlet

open Eval

theorem Form.isBlock_map {α β : Type} (f : α → β) (form : Form α) :
    (form.map f).isBlock = form.isBlock := by
  cases form <;> rfl

namespace Node

/-- Two trees have the same forms and lines, whatever their ids. In blocks only the
    statements that count are compared, and a block may be on another line. -/
inductive Parallel (counts : Node → Bool) : Node → Node → Prop
  | node {id id' line : Nat} (pairs : Form (Node × Node)) : pairs.isBlock = false →
      (∀ pair ∈ pairs.children, Parallel counts pair.1 pair.2) →
      Parallel counts ⟨id, line, pairs.map Prod.fst⟩ ⟨id', line, pairs.map Prod.snd⟩
  | block {id id' line line' : Nat} {ms ns : List Node} (pairs : List (Node × Node)) :
      ms.filter counts = pairs.map Prod.fst → ns.filter counts = pairs.map Prod.snd →
      (∀ pair ∈ pairs, Parallel counts pair.1 pair.2) →
      Parallel counts ⟨id, line, .block ms⟩ ⟨id', line', .block ns⟩

/-- Two trees are the same up to comments in blocks, lines of blocks and ids. -/
abbrev Recommented : Node → Node → Prop := Parallel fun n => !n.isComment

/-- Two trees are the same up to lines of blocks and ids. -/
abbrev Relined : Node → Node → Prop := Parallel fun _ => true

namespace Parallel

variable {counts : Node → Bool} {m n : Node}

/-! ## What is read off a node -/

/-- Only blocks may be on another line. -/
theorem line_eq (h : Parallel counts m n) (hblock : m.form.isBlock = false) : m.line = n.line := by
  cases h with
  | node _ _ _ => rfl
  | block _ _ _ _ => cases hblock

theorem name?_eq (h : Parallel counts m n) : n.name? = m.name? := by
  cases h with
  | node pairs _ _ => cases pairs <;> rfl
  | block _ _ _ _ => rfl

theorem isComment_eq (h : Parallel counts m n) : n.isComment = m.isComment := by
  cases h with
  | node pairs _ _ => cases pairs <;> rfl
  | block _ _ _ _ => rfl

theorem label?_eq (h : Parallel counts m n) : n.label? = m.label? := by
  cases h with
  | node pairs _ _ => cases pairs <;> rfl
  | block _ _ _ _ => rfl

theorem paramsOf_eq (h : Parallel counts m n) : paramsOf (some n) = paramsOf (some m) := by
  cases h with
  | block _ _ _ _ => rfl
  | node pairs _ hchildren =>
    cases pairs with
    | params ps =>
      simp only [Form.map, paramsOf_eq_filterMap, List.filterMap_map]
      refine List.filterMap_congr fun p hp => ?_
      have hname := hchildren p.1 (List.mem_flatMap.mpr ⟨p, hp, by simp⟩)
      have hty := hchildren p.2 (List.mem_flatMap.mpr ⟨p, hp, by simp⟩)
      simp only [Function.comp_apply, hname.label?_eq, hty.label?_eq]
    | _ => rfl

theorem forall₂_argsOf (h : Parallel counts m n) :
    List.Forall₂ (Parallel counts) (argsOf (some m)) (argsOf (some n)) := by
  cases h with
  | block _ _ _ _ => exact .nil
  | node pairs _ hchildren =>
    cases pairs with
    | args values => exact forall₂_of_pairs hchildren
    | _ => exact .nil

/-! ## Building nodes -/

/-- Two nodes whose forms are the projections of one form. -/
theorem of_forms (pairs : Form (Node × Node)) (hblock : pairs.isBlock = false)
    (hm : m.form = pairs.map Prod.fst) (hn : n.form = pairs.map Prod.snd) (hline : m.line = n.line)
    (hchildren : ∀ pair ∈ pairs.children, Parallel counts pair.1 pair.2) :
    Parallel counts m n := by
  obtain ⟨id, line, form⟩ := m
  obtain ⟨id', line', form'⟩ := n
  obtain rfl : form = _ := hm
  obtain rfl : form' = _ := hn
  obtain rfl : line = line' := hline
  exact .node pairs hblock hchildren

/-- Nodes without children. -/
theorem leaf {id id' line : Nat} {form : Form Node} (hblock : form.isBlock = false)
    (hform : form.children = []) : Parallel counts ⟨id, line, form⟩ ⟨id', line, form⟩ := by
  refine of_forms (form.map fun m => (m, m)) ((form.isBlock_map _).trans hblock) ?_ ?_ rfl ?_
  · rw [Form.map_map, Form.map_id]
  · rw [Form.map_map, Form.map_id]
  · rw [Form.children_map, hform]
    simp

/-- Operators between operands that are parallel. -/
theorem operator {form : Node → Node → Form Node} {l l' r r' : Node}
    (hform : (∃ rel, form = .relation rel) ∨ ∃ op, form = .arith op) (hm : m.form = form l r)
    (hn : n.form = form l' r') (hline : m.line = n.line) (hl : Parallel counts l l')
    (hr : Parallel counts r r') : Parallel counts m n := by
  rcases hform with ⟨rel, rfl⟩ | ⟨op, rfl⟩
  · exact of_forms (.relation rel (l, l') (r, r')) rfl hm hn hline (forall_mem_two.mpr ⟨hl, hr⟩)
  · exact of_forms (.arith op (l, l') (r, r')) rfl hm hn hline (forall_mem_two.mpr ⟨hl, hr⟩)

theorem args {ms ns : List Node} (hm : m.form = .args ms) (hn : n.form = .args ns)
    (hline : m.line = n.line) (h : List.Forall₂ (Parallel counts) ms ns) :
    Parallel counts m n := by
  obtain ⟨pairs, rfl, rfl, hpairs⟩ := exists_pairs_of_forall₂ h
  exact of_forms (.args pairs) rfl hm hn hline hpairs

theorem params {ms ns : List (Node × Node)} (hm : m.form = .params ms) (hn : n.form = .params ns)
    (hline : m.line = n.line)
    (h : List.Forall₂ (fun p q => Parallel counts p.1 q.1 ∧ Parallel counts p.2 q.2) ms ns) :
    Parallel counts m n := by
  obtain ⟨pairs, rfl, rfl, hpairs⟩ := Form.exists_params h
  exact of_forms (.params pairs) rfl hm hn hline hpairs

/-- Two blocks whose statements that count correspond. -/
theorem of_statements {id id' line line' : Nat} {ms ns : List Node}
    (h : List.Forall₂ (Parallel counts) (ms.filter counts) (ns.filter counts)) :
    Parallel counts ⟨id, line, .block ms⟩ ⟨id', line', .block ns⟩ := by
  obtain ⟨pairs, hms, hns, hpairs⟩ := exists_pairs_of_forall₂ h
  exact .block pairs hms.symm hns.symm hpairs

theorem symm (h : Parallel counts m n) : Parallel counts n m := by
  induction h with
  | @node id id' line pairs hblock _ ih =>
    refine of_forms (pairs.map Prod.swap) ((pairs.isBlock_map _).trans hblock) ?_ ?_ rfl ?_
    · rw [Form.map_map]
      rfl
    · rw [Form.map_map]
      rfl
    · rw [Form.children_map]
      exact List.forall_mem_map.mpr ih
  | block pairs hms hns _ ih =>
    refine .block (pairs.map Prod.swap) ?_ ?_ (List.forall_mem_map.mpr ih)
    · rw [hns, List.map_map]
      rfl
    · rw [hms, List.map_map]
      rfl

/-- Without their comments, statements that correspond still do. -/
theorem Relined.recommented (h : m.Relined n) : m.Recommented n := by
  induction h with
  | node pairs hblock _ ih => exact .node pairs hblock ih
  | @block id id' line line' ms ns pairs hms hns _ ih =>
    rw [List.filter_true] at hms hns
    refine of_statements ?_
    rw [hms, hns]
    exact forall₂_filter_isComment (fun _ _ h => h.isComment_eq) (forall₂_of_pairs ih)

end Parallel

/-! ## Operands -/

theorem isBlock_of_isStatement {α : Type} {form : Form α} (h : form.isStatement = true) :
    form.isBlock = false := by
  cases form <;> first | rfl | cases h

theorem isBlock_of_isExpression {α : Type} {form : Form α} (h : form.isExpression = true) :
    form.isBlock = false :=
  isBlock_of_isStatement (Form.isStatement_of_isExpression h)

/-- In a shaped tree no argument is a block. -/
theorem Shaped.argsOf {n : Node} (h : n.Shaped) :
    ∀ m ∈ argsOf (some n), m.form.isBlock = false ∧ m.Shaped := by
  obtain ⟨hform, hchildren⟩ := shaped_iff.mp h
  obtain ⟨id, line, form⟩ := n
  cases form with
  | args values =>
    exact fun m hm => ⟨isBlock_of_isExpression (List.all_eq_true.mp hform m hm), hchildren m hm⟩
  | _ => exact List.forall_mem_nil _

/-- In a shaped tree no operand is a block. -/
theorem Shaped.needed {n : Node} (h : n.Shaped) :
    ∀ m ∈ n.needed, m.form.isBlock = false := by
  obtain ⟨hform, hchildren⟩ := shaped_iff.mp h
  obtain ⟨id, line, form⟩ := n
  cases form with
  | branch condition _ | whileLoop condition _ =>
    rw [Form.isShaped, Bool.and_eq_true] at hform
    exact List.forall_mem_singleton.mpr (isBlock_of_isStatement hform.1)
  | forLoop _ condition _ _ =>
    simp only [Form.isShaped, Bool.and_eq_true] at hform
    exact List.forall_mem_singleton.mpr (isBlock_of_isStatement hform.1.1.2)
  | relation _ left right | arith _ left right =>
    rw [Form.isShaped, Bool.and_eq_true] at hform
    exact forall_mem_two.mpr ⟨isBlock_of_isExpression hform.1, isBlock_of_isExpression hform.2⟩
  | assign _ value | define _ value =>
    rw [Form.isShaped, Bool.and_eq_true] at hform
    exact List.forall_mem_singleton.mpr (isBlock_of_isStatement hform.2)
  | cast value _ =>
    rw [Form.isShaped, Bool.and_eq_true] at hform
    exact List.forall_mem_singleton.mpr (isBlock_of_isStatement hform.1)
  | math _ value => exact List.forall_mem_singleton.mpr (isBlock_of_isExpression hform)
  | call _ args =>
    cases args with
    | none => exact List.forall_mem_nil _
    | some args =>
      have hargs := hchildren args (by simp [children, Form.children])
      exact fun m hm => (Shaped.argsOf hargs m hm).1
  | _ => exact List.forall_mem_nil _

end Node

/-! ## Evaluation -/

section Evaluation

open Node

/-- Two trees are the same up to comments, and shaped. -/
def Node.ShapedAlike (m n : Node) : Prop := m.Shaped ∧ m.Recommented n

/-- Two trees are the same up to comments, and shaped, and no blocks. -/
def Node.OperandsAlike (m n : Node) : Prop := m.form.isBlock = false ∧ m.ShapedAlike n

theorem recognizes_shapedAlike : Recognizes ShapedAlike where
  isComment_eq h := h.2.isComment_eq
  label?_eq h := h.2.label?_eq
  paramsOf_eq h := h.2.paramsOf_eq
  argsOf h := (List.forall₂_and_left _ _).mpr
    ⟨fun k hk => (h.1.argsOf k hk).2, h.2.forall₂_argsOf⟩

theorem reports_operandsAlike : Reports OperandsAlike Eq where
  isComment_eq h := h.2.2.isComment_eq
  label?_eq h := h.2.2.label?_eq
  paramsOf_eq h := h.2.2.paramsOf_eq
  argsOf h := (List.forall₂_and_left _ _).mpr
    ⟨fun k hk => (h.2.1.argsOf k hk).1, recognizes_shapedAlike.argsOf h.2⟩
  line h := h.2.2.line_eq h.1
  name?_eq h := h.2.2.name?_eq

theorem corresponds_of_shapedAlike {m n : Node} (h : m.ShapedAlike n) :
    m.Corresponds ShapedAlike n := by
  obtain ⟨hshaped, hsame⟩ := h
  cases hsame with
  | node pairs _ hchildren =>
    refine .same pairs (fun pair hpair => ⟨hshaped.child ?_, hchildren pair hpair⟩)
      fun pair hpair => ?_
    · rw [children, Form.children_map]
      exact List.mem_map_of_mem hpair
    · exact (hchildren pair (Form.mem_children_of_mem_names hpair)).name?_eq
  | block pairs hms hns hpairs =>
    refine .block ((List.forall₂_and_left _ _).mpr ⟨fun k hk => ?_, ?_⟩)
    · exact hshaped.child (List.mem_filter.mp hk).1
    · rw [hms, hns]
      exact forall₂_of_pairs hpairs

/-- **Comments do not matter to evaluation.** A shaped tree is evaluated as one that is
    the same up to comments: with the same value and output, and with the same faults
    on the same lines. -/
theorem couples_eval_recommented (bound : Nat) :
    ∀ m n, m.ShapedAlike n →
      Couples (Context.Tied ShapedAlike) (eval bound m) (eval bound n) := by
  refine couples_eval_of_operands (coupling_tied _) recognizes_shapedAlike reports_operandsAlike
    (fun _ _ => And.right) (fun m n h hblock => h.2.line_eq ?_)
    (fun _ _ => corresponds_of_shapedAlike) (fun m n h => ?_) bound
  · obtain ⟨_, _, form⟩ := m
    cases form <;> first | rfl | cases hblock
  · have hoperands := (corresponds_of_shapedAlike h).needed recognizes_shapedAlike
    exact (List.forall₂_and_left _ _).mpr ⟨h.1.needed, hoperands⟩

end Evaluation

end Scriptlet
