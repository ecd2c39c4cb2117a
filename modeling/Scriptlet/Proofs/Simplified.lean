import Scriptlet.Proofs.Matching
import Scriptlet.Proofs.NormalForm

/-!
# Simplification of trees that match

Simplification looks at the forms of nodes; a node that it makes gets the line of
the node it comes from, and an id that is free. So trees that match have
simplifications that match, whatever ids are free on either side.

What is said of operators holds of every relation between nodes of the same form
that does not mind ids.

Results:
* `Optimize.Respects.simplifyArith`: related operators have related simplifications.
* `Form.exists_traverse`: children that are treated on both sides stay children of
  one form.
* `Node.Matches.simplify`: trees that match have simplifications that match.
-/

namespace Scriptlet

open Optimize

/-- The forms of two nodes are the projections of one form. -/
def Node.SameForm (m n : Node) : Prop :=
  ∃ pairs : Form (Node × Node), m.form = pairs.map Prod.fst ∧ n.form = pairs.map Prod.snd

/-! ## What decides -/

namespace Node.SameForm

variable {m n l l' r r' : Node}

/-- What is read off the form of a node, but not off its children. -/
theorem eq_of_forms {α : Type} (h : SameForm m n) (f : Node → α)
    (hf : ∀ (id id' line line' : Nat) (pairs : Form (Node × Node)),
      f ⟨id', line', pairs.map Prod.snd⟩ = f ⟨id, line, pairs.map Prod.fst⟩) : f n = f m := by
  obtain ⟨pairs, hm, hn⟩ := h
  obtain ⟨id, line, form⟩ := m
  obtain ⟨id', line', form'⟩ := n
  obtain rfl : form = _ := hm
  obtain rfl : form' = _ := hn
  exact hf id id' line line' pairs

theorem isNumber_eq (h : SameForm m n) : n.isNumber = m.isNumber :=
  h.eq_of_forms isNumber fun _ _ _ _ pairs => by cases pairs <;> rfl

theorem literalValue?_eq (h : SameForm m n) : literalValue? n = literalValue? m :=
  h.eq_of_forms literalValue? fun _ _ _ _ pairs => by cases pairs <;> rfl

theorem isNumeral_eq (h : SameForm m n) (k : Nat) : isNumeral n k = isNumeral m k :=
  h.eq_of_forms (isNumeral · k) fun _ _ _ _ pairs => by cases pairs <;> rfl

theorem isFloatNumeral_eq (h : SameForm m n) (k : Nat) :
    isFloatNumeral n k = isFloatNumeral m k :=
  h.eq_of_forms (isFloatNumeral · k) fun _ _ _ _ pairs => by cases pairs <;> rfl

theorem isRead_eq (h : SameForm m n) : isRead n = isRead m :=
  h.eq_of_forms isRead fun _ _ _ _ pairs => by cases pairs <;> rfl

theorem oneLike_eq (h : SameForm m n) : oneLike n = oneLike m :=
  h.eq_of_forms oneLike fun _ _ _ _ pairs => by cases pairs <;> rfl

theorem foldLiterals?_eq (hl : SameForm l l') (hr : SameForm r r') (op : Arith) :
    foldLiterals? op l' r' = foldLiterals? op l r := by
  unfold foldLiterals?
  rw [hl.literalValue?_eq, hr.literalValue?_eq]

theorem leftIdentity?_eq (h : SameForm m n) (op : Arith) :
    leftIdentity? op n = leftIdentity? op m := by
  unfold leftIdentity?
  simp only [h.isNumeral_eq]

theorem rightIdentity?_eq (h : SameForm m n) (op : Arith) :
    rightIdentity? op n = rightIdentity? op m := by
  unfold rightIdentity?
  simp only [h.isNumeral_eq, h.isFloatNumeral_eq]

end Node.SameForm

/-! ## What is made -/

namespace Optimize

/-- A relation between nodes of the same form that does not mind ids. Lines are
    related by `L`. -/
structure Respects (N : Node → Node → Prop) (L : Nat → Nat → Prop) : Prop where
  sameForm {m n : Node} : N m n → m.SameForm n
  line {m n : Node} : N m n → m.isNumber = true → L m.line n.line
  withIds {m n : Node} (i j : Nat) : N m n → N ⟨i, m.line, m.form⟩ ⟨j, n.line, n.form⟩
  literal {i j line line' : Nat} {form : Form Node} :
    (∃ k, form = .int k) ∨ (∃ x, form = .float x) → L line line' →
      N ⟨i, line, form⟩ ⟨j, line', form⟩
  arith {i j line line' : Nat} {l l' r r' : Node} (op : Arith) : L line line' → N l l' → N r r' →
    N ⟨i, line, .arith op l r⟩ ⟨j, line', .arith op l' r'⟩

/-- The same identity for operands that are related. -/
structure SameIdentity (N : Node → Node → Prop) (L : Nat → Nat → Prop) (p q : Match) : Prop where
  identity_eq : q.identity = p.identity
  operand : N p.operand q.operand
  literal : N p.literal q.literal
  line : L p.literal.line q.literal.line

namespace Respects

variable {N : Node → Node → Prop} {L : Nat → Nat → Prop} (hN : Respects N L)
  {m l l' r r' n : Node}

include hN

theorem match?_rel (hl : N l l') (hr : N r r') (op : Arith) :
    Option.Rel (SameIdentity N L) (match? op l r) (match? op l' r') := by
  have hleft := hN.sameForm hl
  have hright := hN.sameForm hr
  unfold match?
  rw [hleft.isNumber_eq, hright.isNumber_eq, hleft.isRead_eq, hright.isRead_eq,
    hleft.leftIdentity?_eq, hright.rightIdentity?_eq]
  split
  · next h =>
    cases leftIdentity? op l with
    | none => exact .none
    | some identity => exact .some ⟨rfl, hr, hl, hN.line hl h.1⟩
  · split
    · next h =>
      cases rightIdentity? op r with
      | none => exact .none
      | some identity => exact .some ⟨rfl, hl, hr, hN.line hr h.1⟩
    · exact .none

section Arith

variable {line line' : Nat} (hline : L line line')

include hline

theorem twice (op : Arith) (h : N m n) (i j : Nat) :
    N ((twice op line m).run i).1 ((twice op line' n).run j).1 :=
  hN.arith op hline h (hN.withIds i j h)

theorem applyIdentity {p q : Match} (h : SameIdentity N L p q) (i j : Nat) :
    N ((applyIdentity line p).run i).1 ((applyIdentity line' q).run j).1 := by
  unfold Optimize.applyIdentity
  rw [h.identity_eq]
  cases p.identity with
  | operand => exact h.operand
  | literal => exact h.literal
  | one =>
    rw [(hN.sameForm h.literal).oneLike_eq]
    refine hN.literal ?_ hline
    unfold oneLike
    split
    · exact .inr ⟨_, rfl⟩
    · exact .inl ⟨_, rfl⟩
  | double => exact hN.twice hline .add h.operand i j
  | square => exact hN.twice hline .mul h.operand i j
  | halve => exact hN.arith .mul hline h.operand (hN.literal (.inr ⟨_, rfl⟩) h.line)

/-- **Related operators have related simplifications.** -/
theorem simplifyArith (op : Arith) (hl : N l l') (hr : N r r') (id id' i j : Nat) :
    N ((simplifyArith id line op l r).run i).1 ((simplifyArith id' line' op l' r').run j).1 := by
  unfold Optimize.simplifyArith
  rw [(hN.sameForm hl).foldLiterals?_eq (hN.sameForm hr)]
  split
  · next form hform => exact hN.literal (form_of_foldLiterals? hform) hline
  · have hmatch := hN.match?_rel hl hr op
    generalize match? op l r = x at hmatch
    generalize match? op l' r' = y at hmatch
    cases hmatch with
    | none => exact hN.arith op hline hl hr
    | some h => exact hN.applyIdentity hline h i j

end Arith

end Respects

end Optimize

/-! ## Trees -/

section Traverse

variable {N : Node → Node → Prop} {f : Node → Fresh Node}

theorem forall₂_mapM {ms ns : List Node}
    (h : List.Forall₂ (fun m n => ∀ i j, N ((f m).run i).1 ((f n).run j).1) ms ns) (i j : Nat) :
    List.Forall₂ N ((ms.mapM f).run i).1 ((ns.mapM f).run j).1 := by
  induction h generalizing i j with
  | nil => exact .nil
  | cons hmn _ ih =>
    simp only [List.mapM_cons, StateT.run_bind, StateT.run_pure]
    exact .cons (hmn i j) (ih _ _)

/-- A step on both nodes of a pair. -/
def onBoth (f : Node → Fresh Node) (pair : Node × Node) : Fresh (Node × Node) :=
  return (← f pair.1, ← f pair.2)

theorem exists_mapM_onBoth {pairs : List ((Node × Node) × (Node × Node))}
    (h : ∀ pair ∈ (Form.params pairs).children,
      ∀ i j, N ((f pair.1).run i).1 ((f pair.2).run j).1) (i j : Nat) :
    ∃ pairs' : List ((Node × Node) × (Node × Node)),
      (((pairs.map fun pair => (pair.1.1, pair.2.1)).mapM (onBoth f)).run i).1 =
          pairs'.map (fun pair => (pair.1.1, pair.2.1)) ∧
        (((pairs.map fun pair => (pair.1.2, pair.2.2)).mapM (onBoth f)).run j).1 =
          pairs'.map (fun pair => (pair.1.2, pair.2.2)) ∧
        ∀ pair ∈ (Form.params pairs').children, N pair.1 pair.2 := by
  induction pairs generalizing i j with
  | nil => exact ⟨[], rfl, rfl, by simp [Form.children]⟩
  | cons pair pairs ih =>
    rw [Form.children, List.flatMap_cons, List.forall_mem_append, forall_mem_two] at h
    obtain ⟨⟨hleft, hright⟩, hpairs⟩ := h
    obtain ⟨pairs', hfst, hsnd, hrelated⟩ := ih hpairs
      ((onBoth f (pair.1.1, pair.2.1)).run i).2 ((onBoth f (pair.1.2, pair.2.2)).run j).2
    simp only [List.map_cons, List.mapM_cons, StateT.run_bind, StateT.run_pure]
    refine ⟨((((f pair.1.1).run i).1, ((f pair.1.2).run j).1),
      (((f pair.2.1).run ((f pair.1.1).run i).2).1, ((f pair.2.2).run ((f pair.1.2).run j).2).1)) ::
        pairs', ?_, ?_, ?_⟩
    · exact congrArg _ hfst
    · exact congrArg _ hsnd
    · rw [Form.children, List.flatMap_cons, List.forall_mem_append, forall_mem_two]
      exact ⟨⟨hleft i j, hright _ _⟩, hrelated⟩

/-- **Children that are treated on both sides stay the children of one form.** -/
theorem Form.exists_traverse (pairs : Form (Node × Node))
    (h : ∀ pair ∈ pairs.children, ∀ i j, N ((f pair.1).run i).1 ((f pair.2).run j).1)
    (i j : Nat) :
    ∃ pairs' : Form (Node × Node),
      (((pairs.map Prod.fst).traverse f).run i).1 = pairs'.map Prod.fst ∧
        (((pairs.map Prod.snd).traverse f).run j).1 = pairs'.map Prod.snd ∧
        ∀ pair ∈ pairs'.children, N pair.1 pair.2 := by
  cases pairs with
  | program body =>
    exact ⟨.program (_, _), rfl, rfl,
      List.forall_mem_singleton.mpr (List.forall_mem_singleton.mp h i j)⟩
  | block statements =>
    obtain ⟨pairs', hfst, hsnd, hrelated⟩ :=
      exists_pairs_of_forall₂ (forall₂_mapM (forall₂_of_pairs h) i j)
    exact ⟨.block pairs', congrArg Form.block hfst.symm, congrArg Form.block hsnd.symm, hrelated⟩
  | scope body =>
    exact ⟨.scope (_, _), rfl, rfl,
      List.forall_mem_singleton.mpr (List.forall_mem_singleton.mp h i j)⟩
  | branch guard body =>
    obtain ⟨hguard, hbody⟩ := forall_mem_two.mp h
    exact ⟨.branch (_, _) (_, _), rfl, rfl, forall_mem_two.mpr ⟨hguard i j, hbody _ _⟩⟩
  | whileLoop guard body =>
    obtain ⟨hguard, hbody⟩ := forall_mem_two.mp h
    exact ⟨.whileLoop (_, _) (_, _), rfl, rfl, forall_mem_two.mpr ⟨hguard i j, hbody _ _⟩⟩
  | forLoop start guard step body =>
    obtain ⟨hstart, h⟩ := List.forall_mem_cons.mp h
    obtain ⟨hguard, h⟩ := List.forall_mem_cons.mp h
    obtain ⟨hstep, hbody⟩ := forall_mem_two.mp h
    refine ⟨.forLoop (_, _) (_, _) (_, _) (_, _), rfl, rfl,
      List.forall_mem_cons.mpr ⟨hstart i j, List.forall_mem_cons.mpr ⟨hguard _ _, ?_⟩⟩⟩
    exact forall_mem_two.mpr ⟨hstep _ _, hbody _ _⟩
  | relation rel left right =>
    obtain ⟨hleft, hright⟩ := forall_mem_two.mp h
    exact ⟨.relation rel (_, _) (_, _), rfl, rfl, forall_mem_two.mpr ⟨hleft i j, hright _ _⟩⟩
  | arith op left right =>
    obtain ⟨hleft, hright⟩ := forall_mem_two.mp h
    exact ⟨.arith op (_, _) (_, _), rfl, rfl, forall_mem_two.mpr ⟨hleft i j, hright _ _⟩⟩
  | print value =>
    exact ⟨.print (_, _), rfl, rfl,
      List.forall_mem_singleton.mpr (List.forall_mem_singleton.mp h i j)⟩
  | assign name value =>
    obtain ⟨hname, hvalue⟩ := forall_mem_two.mp h
    exact ⟨.assign (_, _) (_, _), rfl, rfl, forall_mem_two.mpr ⟨hname i j, hvalue _ _⟩⟩
  | declare name ty =>
    obtain ⟨hname, hty⟩ := forall_mem_two.mp h
    exact ⟨.declare (_, _) (_, _), rfl, rfl, forall_mem_two.mpr ⟨hname i j, hty _ _⟩⟩
  | define name value =>
    obtain ⟨hname, hvalue⟩ := forall_mem_two.mp h
    exact ⟨.define (_, _) (_, _), rfl, rfl, forall_mem_two.mpr ⟨hname i j, hvalue _ _⟩⟩
  | cast value ty =>
    obtain ⟨hvalue, hty⟩ := forall_mem_two.mp h
    exact ⟨.cast (_, _) (_, _), rfl, rfl, forall_mem_two.mpr ⟨hvalue i j, hty _ _⟩⟩
  | params pairs =>
    obtain ⟨pairs', hfst, hsnd, hrelated⟩ := exists_mapM_onBoth h i j
    exact ⟨.params pairs', congrArg Form.params hfst, congrArg Form.params hsnd, hrelated⟩
  | args values =>
    obtain ⟨pairs', hfst, hsnd, hrelated⟩ :=
      exists_pairs_of_forall₂ (forall₂_mapM (forall₂_of_pairs h) i j)
    exact ⟨.args pairs', congrArg Form.args hfst.symm, congrArg Form.args hsnd.symm, hrelated⟩
  | function name params body =>
    obtain ⟨hname, h⟩ := List.forall_mem_cons.mp h
    cases params with
    | none =>
      exact ⟨.function (_, _) none (_, _), rfl, rfl,
        forall_mem_two.mpr ⟨hname i j, List.forall_mem_singleton.mp h _ _⟩⟩
    | some params =>
      obtain ⟨hparams, hbody⟩ := forall_mem_two.mp h
      exact ⟨.function (_, _) (some (_, _)) (_, _), rfl, rfl,
        List.forall_mem_cons.mpr ⟨hname i j, forall_mem_two.mpr ⟨hparams _ _, hbody _ _⟩⟩⟩
  | call name args =>
    obtain ⟨hname, h⟩ := List.forall_mem_cons.mp h
    cases args with
    | none => exact ⟨.call (_, _) none, rfl, rfl, List.forall_mem_singleton.mpr (hname i j)⟩
    | some args =>
      exact ⟨.call (_, _) (some (_, _)), rfl, rfl,
        forall_mem_two.mpr ⟨hname i j, List.forall_mem_singleton.mp h _ _⟩⟩
  | math fn argument =>
    exact ⟨.math fn (_, _), rfl, rfl,
      List.forall_mem_singleton.mpr (List.forall_mem_singleton.mp h i j)⟩
  | comment text => exact ⟨.comment text, rfl, rfl, by simp [children]⟩
  | int n => exact ⟨.int n, rfl, rfl, by simp [children]⟩
  | float x => exact ⟨.float x, rfl, rfl, by simp [children]⟩
  | str s => exact ⟨.str s, rfl, rfl, by simp [children]⟩
  | bool b => exact ⟨.bool b, rfl, rfl, by simp [children]⟩
  | binder name => exact ⟨.binder name, rfl, rfl, by simp [children]⟩
  | read name => exact ⟨.read name, rfl, rfl, by simp [children]⟩
  | ty t => exact ⟨.ty t, rfl, rfl, by simp [children]⟩
  | pi => exact ⟨.pi, rfl, rfl, by simp [children]⟩

end Traverse

namespace Node.Matches

variable {L : Nat → Nat → Prop} {m n : Node}

theorem respects (L : Nat → Nat → Prop) : Respects (Matches L) L where
  sameForm h := by
    obtain ⟨pairs, -, -⟩ := h
    exact ⟨pairs, rfl, rfl⟩
  line h _ := h.line
  withIds i j h := by
    obtain ⟨pairs, hline, hchildren⟩ := h
    exact .node pairs hline hchildren
  literal hform hline := by
    refine leaf ?_ hline
    rcases hform with ⟨k, rfl⟩ | ⟨x, rfl⟩ <;> rfl
  arith op hline hl hr := operator (.inr ⟨op, rfl⟩) rfl rfl hline hl hr

/-- **Trees that match have simplifications that match.** -/
theorem simplify (h : Matches L m n) :
    ∀ i j, Matches L ((simplify m).run i).1 ((simplify n).run j).1 := by
  induction h with
  | @node id id' line line' pairs hline _ ih =>
    intro i j
    obtain ⟨pairs', hfst, hsnd, hchildren⟩ := pairs.exists_traverse ih i j
    rw [simplify_eq, simplify_eq, StateT.run_bind, StateT.run_bind]
    dsimp only
    generalize ((pairs.map Prod.fst).traverse Optimize.simplify).run i = r at hfst
    generalize ((pairs.map Prod.snd).traverse Optimize.simplify).run j = r' at hsnd
    obtain ⟨form, i⟩ := r
    obtain ⟨form', j⟩ := r'
    obtain rfl : form = _ := hfst
    obtain rfl : form' = _ := hsnd
    cases pairs' with
    | block statements =>
      exact block rfl rfl hline (forall₂_filter_isComment (fun _ _ hmn => hmn.isComment_eq)
        (forall₂_of_pairs hchildren))
    | arith op left right =>
      obtain ⟨hleft, hright⟩ := forall_mem_two.mp hchildren
      exact (respects L).simplifyArith hline op hleft hright id id' i j
    | _ => exact of_forms _ rfl rfl hline hchildren

end Node.Matches

end Scriptlet
