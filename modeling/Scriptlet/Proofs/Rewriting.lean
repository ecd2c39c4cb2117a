import Scriptlet.Proofs.Coupling
import Scriptlet.Proofs.Identities

/-!
# A tree beside its simplification

Simplification changes operators and drops comments; every other node keeps its
form, with its children simplified. So a tree and its simplification correspond,
operators apart. One thing stands in the way: a node that stands for a name. An
operator in that place could become a variable, and so come to stand for a name.

Results:
* `Rewritten.arith`: what becomes of an operator.
* `Rewritten.corresponds`: a node of any other form corresponds to what becomes
  of it, if its names are kept.
* `recognizes_rewritten`: a tree and its simplification are the same to a rule
  that does not evaluate them.
-/

namespace Scriptlet

/-! ## Traversal -/

theorem exists_pairs_mapM (f : Node → Fresh Node) (ns : List Node) (k : Nat) :
    ∃ pairs : List (Node × Node), pairs.map Prod.fst = ns ∧
      pairs.map Prod.snd = ((ns.mapM f).run k).1 ∧
      ∀ pair ∈ pairs, ∃ j, pair.2 = ((f pair.1).run j).1 := by
  induction ns generalizing k with
  | nil => exact ⟨[], rfl, rfl, by simp⟩
  | cons n ns ih =>
    obtain ⟨pairs, hfst, hsnd, hpairs⟩ := ih ((f n).run k).2
    refine ⟨(n, ((f n).run k).1) :: pairs, by simp [hfst], ?_, ?_⟩
    · simp only [List.map_cons, hsnd, List.mapM_cons, StateT.run_bind, StateT.run_pure]
      rfl
    · exact List.forall_mem_cons.mpr ⟨⟨k, rfl⟩, hpairs⟩

theorem exists_pairs_params (f : Node → Fresh Node) (ns : List (Node × Node)) (k : Nat) :
    ∃ pairs : List ((Node × Node) × (Node × Node)),
      (pairs.map fun pair => (pair.1.1, pair.2.1)) = ns ∧
      (pairs.map fun pair => (pair.1.2, pair.2.2)) =
        ((ns.mapM fun pair => do return (← f pair.1, ← f pair.2) : Fresh _).run k).1 ∧
      ∀ pair ∈ pairs, (∃ j, pair.1.2 = ((f pair.1.1).run j).1) ∧
        ∃ j, pair.2.2 = ((f pair.2.1).run j).1 := by
  induction ns generalizing k with
  | nil => exact ⟨[], rfl, rfl, by simp⟩
  | cons n ns ih =>
    obtain ⟨left, right⟩ := n
    obtain ⟨pairs, hfst, hsnd, hpairs⟩ := ih ((f right).run ((f left).run k).2).2
    refine ⟨((left, ((f left).run k).1), (right, ((f right).run ((f left).run k).2).1)) :: pairs,
      by simp [hfst], ?_, ?_⟩
    · simp only [List.map_cons, hsnd, List.mapM_cons, StateT.run_bind, StateT.run_pure]
      rfl
    · exact List.forall_mem_cons.mpr ⟨⟨⟨_, rfl⟩, _, rfl⟩, hpairs⟩

/-- A form and what a traversal makes of it, as one form of pairs. -/
theorem Form.exists_pairs_traverse (f : Node → Fresh Node) (form : Form Node) (k : Nat) :
    ∃ pairs : Form (Node × Node), pairs.map Prod.fst = form ∧
      pairs.map Prod.snd = ((form.traverse f).run k).1 ∧
      ∀ pair ∈ pairs.children, ∃ j, pair.2 = ((f pair.1).run j).1 := by
  have one : ∀ {P : Node × Node → Prop} {a : Node × Node}, P a → ∀ pair ∈ [a], P pair :=
    fun h => List.forall_mem_singleton.mpr h
  cases form with
  | program body => exact ⟨.program (body, _), rfl, rfl, one ⟨_, rfl⟩⟩
  | block statements =>
    obtain ⟨pairs, hfst, hsnd, hpairs⟩ := exists_pairs_mapM f statements k
    exact ⟨.block pairs, congrArg _ hfst, congrArg _ hsnd, hpairs⟩
  | scope body => exact ⟨.scope (body, _), rfl, rfl, one ⟨_, rfl⟩⟩
  | branch guard body =>
    exact ⟨.branch (guard, _) (body, _), rfl, rfl, forall_mem_two.mpr ⟨⟨_, rfl⟩, _, rfl⟩⟩
  | whileLoop guard body =>
    exact ⟨.whileLoop (guard, _) (body, _), rfl, rfl, forall_mem_two.mpr ⟨⟨_, rfl⟩, _, rfl⟩⟩
  | forLoop start guard step body =>
    refine ⟨.forLoop (start, _) (guard, _) (step, _) (body, _), rfl, rfl, ?_⟩
    refine List.forall_mem_cons.mpr ⟨⟨_, rfl⟩, List.forall_mem_cons.mpr ⟨⟨_, rfl⟩, ?_⟩⟩
    exact forall_mem_two.mpr ⟨⟨_, rfl⟩, _, rfl⟩
  | relation rel left right =>
    exact ⟨.relation rel (left, _) (right, _), rfl, rfl, forall_mem_two.mpr ⟨⟨_, rfl⟩, _, rfl⟩⟩
  | arith op left right =>
    exact ⟨.arith op (left, _) (right, _), rfl, rfl, forall_mem_two.mpr ⟨⟨_, rfl⟩, _, rfl⟩⟩
  | print value => exact ⟨.print (value, _), rfl, rfl, one ⟨_, rfl⟩⟩
  | assign name value =>
    exact ⟨.assign (name, _) (value, _), rfl, rfl, forall_mem_two.mpr ⟨⟨_, rfl⟩, _, rfl⟩⟩
  | declare name type =>
    exact ⟨.declare (name, _) (type, _), rfl, rfl, forall_mem_two.mpr ⟨⟨_, rfl⟩, _, rfl⟩⟩
  | define name value =>
    exact ⟨.define (name, _) (value, _), rfl, rfl, forall_mem_two.mpr ⟨⟨_, rfl⟩, _, rfl⟩⟩
  | cast value type =>
    exact ⟨.cast (value, _) (type, _), rfl, rfl, forall_mem_two.mpr ⟨⟨_, rfl⟩, _, rfl⟩⟩
  | params ns =>
    obtain ⟨pairs, hfst, hsnd, hpairs⟩ := exists_pairs_params f ns k
    refine ⟨.params pairs, congrArg _ hfst, congrArg _ hsnd, fun pair hpair => ?_⟩
    obtain ⟨p, hp, hpair⟩ := List.mem_flatMap.mp hpair
    rcases List.mem_pair.mp hpair with rfl | rfl
    · exact (hpairs p hp).1
    · exact (hpairs p hp).2
  | args values =>
    obtain ⟨pairs, hfst, hsnd, hpairs⟩ := exists_pairs_mapM f values k
    exact ⟨.args pairs, congrArg _ hfst, congrArg _ hsnd, hpairs⟩
  | function name parameters body =>
    cases parameters with
    | none =>
      exact ⟨.function (name, _) none (body, _), rfl, rfl,
        forall_mem_two.mpr ⟨⟨_, rfl⟩, _, rfl⟩⟩
    | some parameters =>
      exact ⟨.function (name, _) (some (parameters, _)) (body, _), rfl, rfl,
        List.forall_mem_cons.mpr ⟨⟨_, rfl⟩, forall_mem_two.mpr ⟨⟨_, rfl⟩, _, rfl⟩⟩⟩
  | call name arguments =>
    cases arguments with
    | none => exact ⟨.call (name, _) none, rfl, rfl, one ⟨_, rfl⟩⟩
    | some arguments =>
      exact ⟨.call (name, _) (some (arguments, _)), rfl, rfl,
        forall_mem_two.mpr ⟨⟨_, rfl⟩, _, rfl⟩⟩
  | math fn argument => exact ⟨.math fn (argument, _), rfl, rfl, one ⟨_, rfl⟩⟩
  | comment text => exact ⟨.comment text, rfl, rfl, by simp [children]⟩
  | int n => exact ⟨.int n, rfl, rfl, by simp [children]⟩
  | float x => exact ⟨.float x, rfl, rfl, by simp [children]⟩
  | str s => exact ⟨.str s, rfl, rfl, by simp [children]⟩
  | bool b => exact ⟨.bool b, rfl, rfl, by simp [children]⟩
  | binder name => exact ⟨.binder name, rfl, rfl, by simp [children]⟩
  | read name => exact ⟨.read name, rfl, rfl, by simp [children]⟩
  | ty t => exact ⟨.ty t, rfl, rfl, by simp [children]⟩
  | pi => exact ⟨.pi, rfl, rfl, by simp [children]⟩

namespace Optimize

/-! ## Operators -/

/-- A node stands for a name where it is the name or reads the variable. -/
theorem name?_eq_some_iff {n : Node} {x : String} :
    n.name? = some x ↔ n.label? = some (.inl x) ∨ atom? n = some (.read x) := by
  obtain ⟨id, line, form⟩ := n
  cases form <;> simp [Node.name?, Node.label?, atom?, Node.isNumber, isRead]

/-- A node that no rule takes for a comment, a name, a type, parameters or
    arguments. -/
structure IsOperand (n : Node) : Prop where
  isComment_eq : n.isComment = false
  label?_eq : n.label? = none
  paramsOf_eq : Eval.paramsOf (some n) = []
  argsOf_eq : Eval.argsOf (some n) = []

theorem isOperand_of_atom? {n : Node} (h : atom? n ≠ none) : IsOperand n := by
  obtain ⟨id, line, form⟩ := n
  cases form with
  | int | float | read => exact ⟨rfl, rfl, rfl, rfl⟩
  | _ => exact absurd rfl h

theorem isOperand_arith (id line : Nat) (op : Arith) (left right : Node) :
    IsOperand ⟨id, line, .arith op left right⟩ :=
  ⟨rfl, rfl, rfl, rfl⟩

/-- What becomes of an operator is a number, a variable or an operator. -/
theorem isOperand_simplifyArith (id line k : Nat) (op : Arith) (left right : Node) :
    IsOperand ((simplifyArith id line op left right).run k).1 := by
  unfold simplifyArith
  split
  · next form hfold =>
    obtain ⟨_, _, v, -, -, -, hv⟩ := literalValue?_of_foldLiterals? hfold k line
    exact isOperand_of_atom? (atom?_ne_none_of_literalValue? hv)
  · split
    · next m hm =>
      obtain ⟨hread, hnumber, -⟩ := match?_eq_some hm
      obtain ⟨identity, operand, literal⟩ := m
      cases identity with
      | operand => exact isOperand_of_atom? (n := operand) (by simp_all [atom?])
      | literal => exact isOperand_of_atom? (n := literal) (by simp_all [atom?])
      | one =>
        refine isOperand_of_atom? (n := ⟨k, line, oneLike literal⟩) ?_
        unfold oneLike
        split <;> simp [atom?, Node.isNumber]
      | double => exact isOperand_arith _ _ _ _ _
      | square => exact isOperand_arith _ _ _ _ _
      | halve => exact isOperand_arith _ _ _ _ _
    · exact isOperand_arith _ _ _ _ _

namespace Rewritten

variable {n n' : Node}

/-- What becomes of an operator. -/
theorem arith {id line : Nat} {op : Arith} {left right : Node}
    (h : Rewritten ⟨id, line, .arith op left right⟩ n') :
    ∃ left' right' k, Rewritten left left' ∧ Rewritten right right' ∧
      n' = ((simplifyArith id line op left' right').run k).1 := by
  obtain ⟨k, rfl⟩ := h
  exact ⟨_, _, _, ⟨_, rfl⟩, ⟨_, rfl⟩, rfl⟩

/-- What becomes of a node of any form, with the children side by side. -/
theorem exists_pairs (h : Rewritten n n') :
    ∃ (pairs : Form (Node × Node)) (k : Nat), n.form = pairs.map Prod.fst ∧
      n' = ((rebuild n.id n.line (pairs.map Prod.snd)).run k).1 ∧
      ∀ pair ∈ pairs.children, Rewritten pair.1 pair.2 := by
  obtain ⟨k, rfl⟩ := h
  obtain ⟨pairs, hfst, hsnd, hpairs⟩ := n.form.exists_pairs_traverse simplify k
  refine ⟨pairs, ((n.form.traverse simplify).run k).2, hfst.symm, ?_, hpairs⟩
  rw [hsnd, simplify_eq]
  rfl

/-! ## What is read off a node -/

/-- Simplification neither makes a comment nor removes one. -/
theorem isComment_eq (h : Rewritten n n') : n'.isComment = n.isComment := by
  obtain ⟨k, rfl⟩ := h
  obtain ⟨id, line, form⟩ := n
  cases form with
  | arith op left right => exact (isOperand_simplifyArith _ _ _ _ _ _).isComment_eq
  | _ => rfl

/-- Names and types stay, and no others are made. -/
theorem label?_eq (h : Rewritten n n') : n'.label? = n.label? := by
  obtain ⟨k, rfl⟩ := h
  obtain ⟨id, line, form⟩ := n
  cases form with
  | arith op left right => exact (isOperand_simplifyArith _ _ _ _ _ _).label?_eq
  | _ => rfl

theorem paramsOf_eq (h : Rewritten n n') :
    Eval.paramsOf (some n') = Eval.paramsOf (some n) := by
  obtain ⟨pairs, k, hform, rfl, hpairs⟩ := h.exists_pairs
  obtain ⟨id, line, form⟩ := n
  obtain rfl : form = _ := hform
  cases pairs with
  | arith op left right => exact (isOperand_simplifyArith _ _ _ _ _ _).paramsOf_eq
  | params ps =>
    show Eval.paramsOf (some ⟨id, line, .params _⟩) = Eval.paramsOf (some ⟨id, line, .params _⟩)
    simp only [Node.paramsOf_eq_filterMap, List.filterMap_map]
    refine List.filterMap_congr fun p hp => ?_
    have hname := hpairs p.1 (List.mem_flatMap.mpr ⟨p, hp, by simp⟩)
    have hty := hpairs p.2 (List.mem_flatMap.mpr ⟨p, hp, by simp⟩)
    simp only [Function.comp_apply, hname.label?_eq, hty.label?_eq]
  | _ => rfl

theorem forall₂_argsOf (h : Rewritten n n') :
    List.Forall₂ Rewritten (Eval.argsOf (some n)) (Eval.argsOf (some n')) := by
  obtain ⟨pairs, k, hform, rfl, hpairs⟩ := h.exists_pairs
  obtain ⟨id, line, form⟩ := n
  obtain rfl : form = _ := hform
  cases pairs with
  | arith op left right =>
    have hnone := (isOperand_simplifyArith id line k op left.2 right.2).argsOf_eq
    exact hnone ▸ .nil
  | args values =>
    show List.Forall₂ Rewritten (values.map Prod.fst) (values.map Prod.snd)
    rw [List.forall₂_map_left_iff, List.forall₂_map_right_iff, List.forall₂_same]
    exact hpairs
  | _ => exact .nil

/-- The name that a node comes to stand for does not depend on the ids that were
    free. -/
theorem name?_eq (h : Rewritten n n') : n'.name? = (simplified n).name? := by
  have hlabel : n'.label? = (simplified n).label? :=
    h.label?_eq.trans (label?_eq ⟨0, rfl⟩).symm
  ext x
  rw [name?_eq_some_iff, name?_eq_some_iff, hlabel, h.atom?_eq]

/-- **A node that is no operator corresponds to what becomes of it**, if its names
    are kept. -/
theorem corresponds (h : Rewritten n n') (harith : ∀ op l r, n.form ≠ .arith op l r)
    (hnames : ∀ m ∈ n.form.names, (simplified m).name? = m.name?) :
    n.Corresponds (fun m m' => m ∈ n.children ∧ Rewritten m m') n' := by
  obtain ⟨pairs, k, hform, rfl, hpairs⟩ := h.exists_pairs
  have hboth : ∀ pair ∈ pairs.children, pair.1 ∈ n.children ∧ Rewritten pair.1 pair.2 := by
    intro pair hpair
    refine ⟨?_, hpairs pair hpair⟩
    rw [Node.children, hform, Form.children_map]
    exact List.mem_map_of_mem hpair
  have hsame : ∀ pair ∈ pairs.names, pair.2.name? = pair.1.name? := by
    intro pair hpair
    rw [(hpairs pair (Form.mem_children_of_mem_names hpair)).name?_eq]
    refine hnames pair.1 ?_
    rw [hform, Form.names_map]
    exact List.mem_map_of_mem hpair
  obtain ⟨id, line, form⟩ := n
  obtain rfl : form = _ := hform
  cases pairs with
  | arith op left right => exact absurd rfl (harith _ _ _)
  | block statements =>
    refine .block ?_
    rw [List.filter_filter]
    simp only [Bool.and_self]
    refine Node.forall₂_filter_isComment (fun _ _ hmn => hmn.2.isComment_eq) ?_
    rw [List.forall₂_map_left_iff, List.forall₂_map_right_iff, List.forall₂_same]
    exact hboth
  | _ => exact .same _ hboth hsame

end Rewritten

/-- **A tree and its simplification are the same to a rule that does not evaluate
    them.** The trees may be known to have a property that their parts have too. -/
theorem recognizes_rewritten {P : Node → Prop} (hP : ∀ n, P n → ∀ m ∈ n.children, P m) :
    Node.Recognizes fun n n' => P n ∧ Rewritten n n' where
  isComment_eq h := h.2.isComment_eq
  label?_eq h := h.2.label?_eq
  paramsOf_eq h := h.2.paramsOf_eq
  argsOf {n n'} h := by
    refine (List.forall₂_and_left _ _).mpr ⟨fun m hm => ?_, h.2.forall₂_argsOf⟩
    obtain ⟨id, line, form⟩ := n
    cases form with
    | args values => exact hP _ h.1 m hm
    | _ => cases hm

end Optimize

end Scriptlet
