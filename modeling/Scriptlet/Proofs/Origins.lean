import Scriptlet.Proofs.Effects
import Scriptlet.Proofs.Lines
import Scriptlet.Proofs.Shape
import Scriptlet.Token.Lexeme

/-!
# Failures of pure expressions

A missing value is reported where it goes missing and nowhere else: at a name that is
not declared, at an operand that is a variable without a value, at an operation that
fails on the values it is given. These are the origins of failures. An operation around
one of them yields nothing and adds no report, for by then there is one more diagnostic
than before the operand was evaluated.

The invariant of the induction is that an expression is without a value and without a
report only if it is a variable that is declared and unset; this is the one case in which
the operation around it has to report.

Results:
* `Node.isSome_value?_iff`: an expression has a value unless a failure originates in it
  or it is an unset variable.
* `Gives.operand`: an operand adds its own failures and that of being unset.
* `step_of_isOperation`: the rules for operations are one.
* `gives_of_pureExpression`: a pure expression reports what originates in it.
* `evaluates_of_isPure`: this for the nodes of parsed trees.
-/

namespace Scriptlet

open Eval

namespace Form

variable {α : Type}

/-- Whether a form is that of an operation, which works on the values of operands. -/
def isOperation : Form α → Bool
  | relation _ _ _ | arith _ _ _ | math _ _ | cast _ _ => true
  | _ => false

end Form

namespace Node

/-! ## Values and origins of failures -/

/-- The operands of an operation. -/
def operands (n : Node) : List Node :=
  match n.form with
  | .relation _ left right => [left, right]
  | .arith _ left right => [left, right]
  | .math _ argument => [argument]
  | .cast value _ => [value]
  | _ => []

/-- What an operation makes of the values of its operands, if they all have one. -/
def operate? (n : Node) (values : List (Option Value)) : Option (Except Fault Value) :=
  match n.form, values with
  | .relation rel _ _, [some a, some b] => some ((Value.relate rel a b).map .bool)
  | .arith op _ _, [some a, some b] => some (Value.apply op a b)
  | .math fn _, [some a] => some (Value.applyMath fn a)
  | .cast _ ⟨_, _, .ty t⟩, [some a] => some (a.cast t)
  | _, _ => none

/-- The value of a pure expression. -/
def value? (s : Scopes) : Node → Option Value
  | ⟨_, _, .int n⟩ => some (.int n)
  | ⟨_, _, .float x⟩ => some (.float x)
  | ⟨_, _, .str text⟩ => some (.str text)
  | ⟨_, _, .bool b⟩ => some (.bool b)
  | ⟨_, _, .pi⟩ => some (.float step.pi)
  | ⟨_, _, .read x⟩ => (s.get x).toOption.join
  | ⟨id, line, .relation rel left right⟩ =>
    ((⟨id, line, .relation rel left right⟩ : Node).operate?
      [left.value? s, right.value? s]).bind Except.toOption
  | ⟨id, line, .arith op left right⟩ =>
    ((⟨id, line, .arith op left right⟩ : Node).operate?
      [left.value? s, right.value? s]).bind Except.toOption
  | ⟨id, line, .math fn argument⟩ =>
    ((⟨id, line, .math fn argument⟩ : Node).operate? [argument.value? s]).bind Except.toOption
  | ⟨id, line, .cast value type⟩ =>
    ((⟨id, line, .cast value type⟩ : Node).operate? [value.value? s]).bind Except.toOption
  | _ => none
termination_by structural n => n

/-- The failure of a read of a name that is not declared. -/
def undeclared (s : Scopes) (n : Node) : List Diagnostic :=
  match n.form with
  | .read x =>
    match s.get x with
    | .ok _ => []
    | .error fault => [.runtime fault n.line]
  | _ => []

/-- The failure of an operation all of whose operands have values. -/
def failed (s : Scopes) (n : Node) : List Diagnostic :=
  match n.operate? (n.operands.map (value? s)) with
  | some (.error fault) => [.runtime fault n.line]
  | _ => []

/-- Whether a node reads a variable that is declared but has no value. -/
def isUnset (s : Scopes) (n : Node) : Bool :=
  match n.form with
  | .read x => s.get x = .ok none
  | _ => false

/-- The failure of an operand that is declared but has no value. -/
def unset (s : Scopes) (n : Node) : List Diagnostic :=
  if n.isUnset s then [.runtime (.mismatch (.noValue n.name?)) n.line] else []

/-- The failures that originate in an expression, each with what is reported. -/
def origins (s : Scopes) (n : Node) : List Diagnostic :=
  n.preorder.flatMap fun m => m.undeclared s ++ m.failed s ++ m.operands.flatMap (unset s)

/-! ## A value is missing where a failure originates -/

theorem origins_eq (s : Scopes) (n : Node) :
    n.origins s = n.undeclared s ++ n.failed s ++ n.operands.flatMap (unset s) ++
      n.children.flatMap (origins s) := by
  unfold origins
  rw [preorder_eq, List.flatMap_cons, List.flatMap_assoc]

theorem mem_children_of_mem_operands {m n : Node} (h : m ∈ n.operands) : m ∈ n.children := by
  obtain ⟨id, line, form⟩ := n
  cases form with
  | cast value type => exact List.mem_cons.mpr (.inl (List.mem_singleton.mp h))
  | _ => first | exact h | cases h

/-- A pure expression as the grammar has it. -/
structure PureExpression (n : Node) : Prop where
  form : n.form.isExpression = true
  pure : n.isPure = true
  shaped : n.Shaped

theorem isExpression_of_isEffectFree {α : Type} {form : Form α}
    (hstatement : form.isStatement = true) (hfree : form.isEffectFree = true) :
    form.isExpression = true := by
  cases form <;> first
    | rfl
    | exact absurd hstatement Bool.false_ne_true
    | exact absurd hfree Bool.false_ne_true

namespace PureExpression

variable {n : Node}

theorem operand {m : Node} (h : n.PureExpression) (hm : m ∈ n.operands) : m.PureExpression := by
  have hmem := mem_children_of_mem_operands hm
  have hpure := h.pure
  rw [isPure_eq, Bool.and_eq_true, List.all_eq_true] at hpure
  obtain ⟨hkind, hshaped⟩ := shaped_iff.mp h.shaped
  have hm_pure := hpure.2 m hmem
  refine ⟨?_, hm_pure, hshaped m hmem⟩
  rw [isPure_eq, Bool.and_eq_true] at hm_pure
  refine isExpression_of_isEffectFree ?_ hm_pure.1
  obtain ⟨id, line, form⟩ := n
  cases form with
  | relation _ left right | arith _ left right =>
    simp only [Form.isShaped, Bool.and_eq_true] at hkind
    rcases List.mem_pair.mp hm with rfl | rfl
    · exact Form.isStatement_of_isExpression hkind.1
    · exact Form.isStatement_of_isExpression hkind.2
  | math _ argument =>
    rw [List.mem_singleton.mp hm]
    exact Form.isStatement_of_isExpression hkind
  | cast value type =>
    simp only [Form.isShaped, Bool.and_eq_true] at hkind
    rw [List.mem_singleton.mp hm]
    exact hkind.1
  | _ => cases hm

/-- Failures originate in an expression itself and in its operands. -/
theorem origins_eq (h : n.PureExpression) (s : Scopes) :
    n.origins s = n.undeclared s ++ n.failed s ++ n.operands.flatMap (unset s) ++
      n.operands.flatMap (origins s) := by
  have hchildren : n.children.flatMap (origins s) = n.operands.flatMap (origins s) := by
    have hform := h.form
    have hkind := h.shaped.root
    obtain ⟨id, line, form⟩ := n
    cases form with
    | cast value type =>
      simp only [Form.isShaped, Bool.and_eq_true] at hkind
      obtain ⟨id', line', form'⟩ := type
      cases form' with
      | ty t =>
        have htype : Node.origins s ⟨id', line', .ty t⟩ = [] := by
          rw [Node.origins_eq]
          rfl
        simp [children, Form.children, operands, htype]
      | _ => cases hkind.2
    | call _ _ => cases (isPure_eq _ ▸ h.pure : _ = true)
    | _ => first | rfl | cases hform
  rw [Node.origins_eq, hchildren]

end PureExpression

theorem value?_of_isOperation {n : Node} (h : n.form.isOperation = true) (s : Scopes) :
    n.value? s = (n.operate? (n.operands.map (value? s))).bind Except.toOption := by
  obtain ⟨id, line, form⟩ := n
  cases form <;> first | rfl | cases h

/-- An operation has an outcome iff all its operands have values. -/
theorem PureExpression.isSome_operate?_iff {n : Node} (h : n.PureExpression)
    (hform : n.form.isOperation = true) (f : Node → Option Value) :
    (n.operate? (n.operands.map f)).isSome ↔ ∀ m ∈ n.operands, (f m).isSome := by
  have hkind := h.shaped.root
  obtain ⟨id, line, form⟩ := n
  cases form with
  | relation _ left right | arith _ left right =>
    simp only [operands, operate?, List.map_cons, List.map_nil, forall_mem_two]
    cases f left <;> cases f right <;> simp
  | math _ argument =>
    simp only [operands, operate?, List.map_cons, List.map_nil, List.forall_mem_singleton]
    cases f argument <;> simp
  | cast value type =>
    simp only [Form.isShaped, Bool.and_eq_true] at hkind
    obtain ⟨id', line', form'⟩ := type
    cases form' with
    | ty t =>
      simp only [operands, operate?, List.map_cons, List.map_nil, List.forall_mem_singleton]
      cases f value <;> simp
    | _ => cases hkind.2
  | _ => cases hform

theorem of_isOperation {n : Node} (h : n.form.isOperation = true) (s : Scopes) :
    n.undeclared s = [] ∧ n.isUnset s = false := by
  obtain ⟨id, line, form⟩ := n
  cases form <;> first | exact ⟨rfl, rfl⟩ | cases h

/-- **A pure expression has a value** unless a failure originates in it or it is a
    variable without a value. -/
theorem isSome_value?_iff {n : Node} (h : n.PureExpression) (s : Scopes) :
    (n.value? s).isSome ↔ n.origins s = [] ∧ n.isUnset s = false := by
  induction n using Node.induction with
  | h n ih =>
    have ih : ∀ m ∈ n.operands, (m.value? s).isSome ↔ m.origins s = [] ∧ m.isUnset s = false :=
      fun m hm => ih m (mem_children_of_mem_operands hm) (h.operand hm)
    rw [h.origins_eq]
    by_cases hform : n.form.isOperation = true
    · obtain ⟨hdeclared, hset⟩ := of_isOperation hform s
      have hall := h.isSome_operate?_iff hform (value? s)
      have hoperands : (∀ m ∈ n.operands, (m.value? s).isSome) ↔
          n.operands.flatMap (unset s) = [] ∧ n.operands.flatMap (origins s) = [] := by
        simp only [List.flatMap_eq_nil_iff, unset, ite_eq_right_iff, reduceCtorEq, imp_false,
          Bool.not_eq_true, ← forall₂_and]
        exact forall₂_congr fun m hm => (ih m hm).trans And.comm
      rw [value?_of_isOperation hform, hdeclared, hset, List.nil_append]
      simp only [List.append_eq_nil_iff, and_assoc, and_true, ← hoperands, ← hall, failed]
      cases n.operate? (n.operands.map (value? s)) with
      | none => simp
      | some result => cases result <;> simp [Except.toOption]
    · have hkind := h.form
      obtain ⟨id, line, form⟩ := n
      cases form with
      | read x =>
        simp only [value?, undeclared, failed, operands, operate?, isUnset]
        cases hget : s.get x with
        | error fault => simp [Except.toOption]
        | ok v => cases v <;> simp [Except.toOption]
      | call _ _ => cases (isPure_eq _ ▸ h.pure : _ = true)
      | _ => first
        | exact ⟨fun _ => ⟨rfl, rfl⟩, fun _ => rfl⟩
        | exact absurd rfl hform
        | cases hkind

theorem origins_of_isUnset {n : Node} {s : Scopes} (h : n.isUnset s = true) :
    n.origins s = [] := by
  obtain ⟨id, line, form⟩ := n
  cases form with
  | read x =>
    have hget : s.get x = .ok none := by simpa [isUnset] using h
    rw [origins_eq]
    simp [undeclared, hget, failed, operate?, operands, children, Form.children]
  | _ => cases h

end Node

/-! ## Evaluation -/

/-- In the given scopes a step gives a result and changes nothing, except that it
    records diagnostics. -/
def Gives {α : Type} (s : Scopes) (m : Eval α) (a : α) (ds : List Diagnostic) : Prop :=
  ∀ c : Context, c.scopes = s → m.run c = some (a, ds.foldl Context.record c)

theorem scopes_foldl_record (ds : List Diagnostic) (c : Context) :
    (ds.foldl Context.record c).scopes = c.scopes := by
  induction ds generalizing c with
  | nil => rfl
  | cons d ds ih =>
    rw [List.foldl_cons, ih]
    unfold Context.record Context.write
    split <;> rfl

namespace Gives

variable {α β : Type} {s : Scopes}

theorem pure (a : α) : Gives s (pure a : Eval α) a [] := fun _ _ => rfl

theorem bind {m : Eval α} {f : α → Eval β} {a : α} {b : β} {ds es : List Diagnostic}
    (hm : Gives s m a ds) (hf : Gives s (f a) b es) : Gives s (m >>= f) b (ds ++ es) := by
  intro c hc
  rw [List.foldl_append]
  exact run_bind_eq_some.mpr ⟨a, _, hm c hc, hf _ (by rw [scopes_foldl_record, hc])⟩

theorem report (fault : Fault) (line : Nat) :
    Gives s (report fault line) () [.runtime fault line] := fun _ _ => rfl

theorem settle_error (fault : Fault) (line : Nat) :
    Gives s (settle line (.error fault) : Eval (Option α)) none [.runtime fault line] :=
  (report fault line).bind (pure none)

/-- **A missing value is reported once**: by the operand if that is where the failure
    originates, or else by the node whose value is missing. -/
theorem operand {ev : Evaluator} {n : Node} (h : n.PureExpression) {ds : List Diagnostic}
    (hds : ds.Perm (n.origins s)) (hev : Gives s (ev n) (n.value? s) ds) :
    Gives s (operand ev n) (n.value? s) (ds ++ n.unset s) := by
  intro c hc
  refine run_bind_eq_some.mpr ⟨c, c, rfl, ?_⟩
  refine run_bind_eq_some.mpr ⟨_, _, hev c hc, ?_⟩
  refine run_bind_eq_some.mpr ⟨_, _, rfl, ?_⟩
  have hsize := Context.Records.size_eq ds c
  have hvalue := Node.isSome_value?_iff h s
  have hempty : n.origins s = [] ↔ ds = [] :=
    ⟨fun heq => (heq ▸ hds).eq_nil, fun heq => (heq ▸ hds).symm.eq_nil⟩
  have hcond : (n.value? s).isNone ∧
      (ds.foldl Context.record c).diagnostics.size = c.diagnostics.size ↔ n.isUnset s = true := by
    rw [Option.isNone_iff_eq_none, ← Option.not_isSome_iff_eq_none, hvalue, hsize,
      Nat.add_eq_left, List.length_eq_zero_iff]
    constructor
    · rintro ⟨hnone, hds⟩
      by_contra hset
      exact hnone ⟨hempty.mpr hds, by simpa using hset⟩
    · intro hunset
      exact ⟨by simp [hunset], hempty.mp (Node.origins_of_isUnset hunset)⟩
  split
  · next hmissing =>
    rw [Node.unset, if_pos (hcond.mp hmissing), List.foldl_append]
    rfl
  · next hmissing =>
    rw [Node.unset, if_neg (mt hcond.mpr hmissing), List.append_nil]
    rfl

/-- The operands of an expression are evaluated one after the other. -/
theorem operands {ev : Evaluator} {ns : List Node} (h : ∀ n ∈ ns, n.PureExpression)
    (hev : ∀ n ∈ ns, ∃ ds, ds.Perm (n.origins s) ∧ Gives s (ev n) (n.value? s) ds) :
    ∃ ds, ds.Perm (ns.flatMap (Node.unset s) ++ ns.flatMap (Node.origins s)) ∧
      Gives s (operands ev ns) (ns.map (Node.value? s)) ds := by
  induction ns with
  | nil => exact ⟨[], .nil, pure []⟩
  | cons n ns ih =>
    rw [List.forall_mem_cons] at h hev
    obtain ⟨es, hes, hn⟩ := hev.1
    obtain ⟨fs, hfs, hns⟩ := ih h.2 hev.2
    refine ⟨es ++ n.unset s ++ (fs ++ ([] ++ [])), ?_, ?_⟩
    · refine List.perm_iff_count.mpr fun d => ?_
      have hes := hes.count_eq d
      have hfs := hfs.count_eq d
      simp only [List.flatMap_cons, List.count_append, List.append_nil] at hfs ⊢
      omega
    · exact (operand h.1 hes hn).bind (hns.bind (pure _))

end Gives

section Rules

variable {operate? : List (Option Value) → Option (Except Fault Value)}

theorem combine_eq {f : Value → Value → Except Fault Value}
    (h : ∀ a b, operate? [a, b] = a.bind fun a => b.map (f a)) (ev : Evaluator) (line : Nat)
    (left right : Node) :
    combine ev line left right f = (do
      let values ← operands ev [left, right]
      match operate? values with
      | some result => settle line result
      | none => return none) := by
  simp only [combine, operands, bind_assoc, pure_bind, h]
  congr 1
  funext a
  congr 1
  funext b
  cases a <;> cases b <;> rfl

theorem transform_eq {f : Value → Except Fault Value} (h : ∀ a, operate? [a] = a.map f)
    (ev : Evaluator) (line : Nat) (argument : Node) :
    transform ev line argument f = (do
      let values ← operands ev [argument]
      match operate? values with
      | some result => settle line result
      | none => return none) := by
  simp only [transform, operands, bind_assoc, pure_bind, h]
  congr 1
  funext a
  cases a <;> rfl

end Rules

/-- The rules for operations are one: the operands are evaluated, and if they all have
    values, the outcome is settled. -/
theorem step_of_isOperation {n : Node} (hform : n.form.isOperation = true) (hshaped : n.Shaped)
    (ev : Evaluator) (bound : Nat) :
    step ev bound n = (do
      let values ← operands ev n.operands
      match n.operate? values with
      | some result => settle n.line result
      | none => return none) := by
  have hkind := hshaped.root
  obtain ⟨id, line, form⟩ := n
  cases form with
  | relation _ left right | arith _ left right =>
    exact combine_eq (fun a b => by cases a <;> cases b <;> rfl) ev line left right
  | math _ argument => exact transform_eq (fun a => by cases a <;> rfl) ev line argument
  | cast value type =>
    simp only [Form.isShaped, Bool.and_eq_true] at hkind
    obtain ⟨id', line', form'⟩ := type
    cases form' with
    | ty t => exact transform_eq (fun a => by cases a <;> rfl) ev line value
    | _ => cases hkind.2
  | _ => cases hform

/-- What is evaluated for an expression that is no operation. -/
theorem gives_of_not_isOperation {n : Node} (h : n.PureExpression)
    (hform : n.form.isOperation = false) (s : Scopes) (ev : Evaluator) (bound : Nat) :
    Gives s (step ev bound n) (n.value? s) (n.origins s) := by
  have hkind := h.form
  rw [h.origins_eq]
  obtain ⟨id, line, form⟩ := n
  cases form with
  | read x =>
    rintro c rfl
    refine run_bind_eq_some.mpr ⟨c, c, rfl, ?_⟩
    simp only [Node.value?, Node.undeclared]
    cases c.scopes.get x <;> rfl
  | call _ _ => cases (Node.isPure_eq _ ▸ h.pure : _ = true)
  | _ => first
    | exact .pure _
    | exact absurd hform.symm Bool.false_ne_true
    | exact absurd hkind Bool.false_ne_true

/-- **A pure expression ends, gives its value and reports the failures that originate in it,
    each once.** -/
theorem gives_of_pureExpression {n : Node} (h : n.PureExpression) (s : Scopes) :
    ∀ bound, n.size ≤ bound →
      ∃ ds, ds.Perm (n.origins s) ∧ Gives s (eval bound n) (n.value? s) ds := by
  induction n using Node.induction with
  | h n ih =>
    intro bound hbound
    have hpos := n.size_pos
    obtain ⟨bound, rfl⟩ : ∃ b, bound = b + 1 := ⟨bound - 1, by omega⟩
    show ∃ ds, ds.Perm (n.origins s) ∧ Gives s (step (eval bound) bound n) (n.value? s) ds
    cases hform : n.form.isOperation with
    | false => exact ⟨_, .refl _, gives_of_not_isOperation h hform s _ _⟩
    | true =>
      have hoperand : ∀ m ∈ n.operands, ∃ ds, ds.Perm (m.origins s) ∧
          Gives s (eval bound m) (m.value? s) ds := fun m hm => by
        have hlt := Node.size_lt_of_mem_children (Node.mem_children_of_mem_operands hm)
        exact ih m (Node.mem_children_of_mem_operands hm) (h.operand hm) bound (by omega)
      obtain ⟨ds, hds, hgives⟩ := Gives.operands (fun m hm => h.operand hm) hoperand
      rw [step_of_isOperation hform h.shaped, h.origins_eq, (Node.of_isOperation hform s).1,
        Node.value?_of_isOperation hform]
      refine ⟨ds ++ n.failed s, ?_, hgives.bind ?_⟩
      · refine List.perm_iff_count.mpr fun d => ?_
        have hds := hds.count_eq d
        simp only [List.nil_append, List.count_append] at hds ⊢
        omega
      · unfold Node.failed
        cases n.operate? (n.operands.map (Node.value? s)) with
        | none => exact .pure none
        | some result =>
          cases result with
          | ok v => exact .pure (some v)
          | error fault => exact .settle_error fault n.line

theorem foldl_record_of_silent {c : Context} (h : c.echo = false) (ds : List Diagnostic) :
    ds.foldl Context.record c = { c with diagnostics := c.diagnostics ++ ds } := by
  induction ds generalizing c with
  | nil => simp
  | cons d ds ih =>
    rw [List.foldl_cons, Context.record_of_silent h]
    refine (ih ?_).trans ?_
    · exact h
    · simp

/-- A pure node of a parsed tree is an expression, unless it is a name or a type that is
    none. -/
theorem pureExpression_of_mem_parse {tokens : List Lexed} {firstId : Nat} {n : Node}
    (hn : n ∈ (parse tokens firstId).tree.preorder) (hpure : n.isPure = true) :
    n.PureExpression ∨ (∃ x, n.form = .binder x) ∨ ∃ t, n.form = .ty t := by
  obtain ⟨body, hform, hbody⟩ := shaped_parse tokens firstId
  have hfree := hpure
  rw [Node.isPure_eq, Bool.and_eq_true] at hfree
  rw [Node.preorder_eq, List.mem_cons] at hn
  rcases hn with rfl | hn
  · rw [hform] at hfree
    cases hfree.1
  · rw [Node.children, hform, Form.children, List.flatMap_singleton] at hn
    have hshaped : n.Shaped := hbody.shaped.of_mem hn
    obtain ⟨id, line, form⟩ := n
    cases form with
    | binder x => exact .inr (.inl ⟨x, rfl⟩)
    | ty t => exact .inr (.inr ⟨t, rfl⟩)
    | _ => first
      | exact .inl ⟨rfl, hpure, hshaped⟩
      | exact absurd hfree.1 Bool.false_ne_true

/-- A name or a type that is no expression yields nothing, and that is no failure. -/
theorem evaluates_label {n : Node} (h : (∃ x, n.form = .binder x) ∨ ∃ t, n.form = .ty t)
    (c : Context) :
    n.value? c.scopes = none ∧ n.origins c.scopes = [] ∧ n.form.isOperation = false ∧
      Evaluates n c none c := by
  obtain ⟨id, line, form⟩ := n
  rw [Node.origins_eq]
  rcases h with ⟨x, rfl⟩ | ⟨t, rfl⟩
  · exact ⟨rfl, rfl, rfl, 1, rfl⟩
  · exact ⟨rfl, rfl, rfl, 1, rfl⟩

/-- **Pure expressions have no effect and report each failure once.** A pure node of a
    parsed tree ends in every context, and all that it changes are the diagnostics, to which
    those of the failures that originate in it are added. An operation has a value just if
    there are none. -/
theorem evaluates_of_isPure (tokens : List Lexed) (firstId : Nat) (n : Node)
    (hn : n ∈ (parse tokens firstId).tree.preorder) (hpure : n.isPure = true) (c : Context)
    (hecho : c.echo = false) :
    ∃ ds : List Diagnostic,
      Evaluates n c (n.value? c.scopes) { c with diagnostics := c.diagnostics ++ ds } ∧
      ds.length = (n.origins c.scopes).length ∧ ds.Perm (n.origins c.scopes) ∧
      (n.form.isOperation = true → ((n.value? c.scopes).isSome ↔ ds = [])) := by
  rcases pureExpression_of_mem_parse hn hpure with h | h
  · obtain ⟨ds, hds, hgives⟩ := gives_of_pureExpression h c.scopes n.size (Nat.le_refl _)
    refine ⟨ds, ⟨n.size, ?_⟩, hds.length_eq, hds, fun hform => ?_⟩
    · rw [← foldl_record_of_silent hecho]
      exact hgives c rfl
    · rw [Node.isSome_value?_iff h, (Node.of_isOperation hform _).2]
      constructor
      · rintro ⟨hnone, -⟩
        rw [hnone] at hds
        exact hds.eq_nil
      · rintro rfl
        exact ⟨hds.symm.eq_nil, rfl⟩
  · obtain ⟨hvalue, horigins, hform, hevaluates⟩ := evaluates_label h c
    refine ⟨[], ?_, by rw [horigins], by rw [horigins], by rw [hform]; exact nofun⟩
    rw [hvalue]
    simpa using hevaluates

/-- A name that is not declared, a variable without a value and a conversion that fails:
    three failures are reported, none by the sum or the product around them. -/
theorem evaluates_of_isPure_of_failures :
    let tokens := (tokenize "(x + y) * static_cast(\"a\", int)").1
    let n := (parse tokens 0).tree.preorder.get ⟨2, by decide +kernel⟩
    let c := { Context.initial 128 false true with scopes := ⟨[], [("y", ⟨.int, none⟩)]⟩ }
    n.isPure = true ∧ c.echo = false ∧
      ∃ ds : List Diagnostic, Evaluates n c none { c with diagnostics := c.diagnostics ++ ds } ∧
        ds.length = 3 := by
  intro tokens n c
  have hpure : n.isPure = true := by decide +kernel
  obtain ⟨ds, hevaluates, hlength, -, -⟩ :=
    evaluates_of_isPure tokens 0 n (List.get_mem _ _) hpure c rfl
  have hvalue : n.value? c.scopes = none := by decide +kernel
  have horigins : (n.origins c.scopes).length = 3 := by decide +kernel
  rw [hvalue] at hevaluates
  rw [horigins] at hlength
  exact ⟨hpure, rfl, ds, hevaluates, hlength⟩

end Scriptlet
