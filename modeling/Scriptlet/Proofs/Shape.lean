import Scriptlet.Proofs.Progress
import Scriptlet.Proofs.Trees

/-!
# The shape of parsed trees

The type of trees allows more than the grammar does. A tree that was parsed has
blocks for bodies, names and types where names and types are expected,
expressions for operands and statements everywhere else; and the root of a
program occurs at the root only.

Results:
* `Parser.Sound.all`: each rule of the grammar yields trees of the shape it stands
  for.
* `shaped_parse`: the tree of any list of tokens is the root of a program around
  a shaped block.
-/

namespace Scriptlet

/-! ## Shapes -/

namespace Form

variable {α : Type}

/-- Whether a form is that of an expression. -/
def isExpression : Form α → Bool
  | relation _ _ _ | arith _ _ _ | cast _ _ | call _ _ | math _ _ => true
  | int _ | float _ | str _ | bool _ | read _ | pi => true
  | _ => false

/-- Whether a form is that of a statement; expressions are statements. -/
def isStatement : Form α → Bool
  | program _ | block _ | params _ | args _ | binder _ | ty _ => false
  | _ => true

def isBlock : Form α → Bool
  | block _ => true
  | _ => false

def isParams : Form α → Bool
  | params _ => true
  | _ => false

def isArgs : Form α → Bool
  | args _ => true
  | _ => false

def isBinder : Form α → Bool
  | binder _ => true
  | _ => false

def isTy : Form α → Bool
  | ty _ => true
  | _ => false

theorem isStatement_of_isExpression {form : Form α} (h : form.isExpression = true) :
    form.isStatement = true := by
  cases form <;> first | rfl | cases h

end Form

/-- Whether the children of a form are what the grammar has there. -/
@[simp] def Form.isShaped : Form Node → Bool
  | .program _ => false
  | .block statements => statements.all fun m => m.form.isStatement
  | .scope body => body.form.isBlock
  | .branch guard body => guard.form.isStatement && body.form.isBlock
  | .whileLoop guard body => guard.form.isStatement && body.form.isBlock
  | .forLoop start guard step body =>
    start.form.isStatement && guard.form.isStatement && step.form.isStatement && body.form.isBlock
  | .relation _ left right => left.form.isExpression && right.form.isExpression
  | .arith _ left right => left.form.isExpression && right.form.isExpression
  | .print value => value.form.isStatement
  | .assign name value => name.form.isBinder && value.form.isStatement
  | .declare name type => name.form.isBinder && type.form.isTy
  | .define name value => name.form.isBinder && value.form.isStatement
  | .cast value type => value.form.isStatement && type.form.isTy
  | .params pairs => pairs.all fun pair => pair.1.form.isBinder && pair.2.form.isTy
  | .args values => values.all fun m => m.form.isExpression
  | .function name parameters body =>
    name.form.isBinder && parameters.all (fun m => m.form.isParams) && body.form.isBlock
  | .call name arguments => name.form.isBinder && arguments.all fun m => m.form.isArgs
  | .math _ argument => argument.form.isExpression
  | _ => true

namespace Node

/-- A tree all of whose nodes have the children the grammar has there. -/
def Shaped (n : Node) : Prop := n.All fun m => m.form.isShaped

theorem shaped_iff {n : Node} : n.Shaped ↔ n.form.isShaped ∧ ∀ m ∈ n.children, m.Shaped := all_iff

/-- A shaped tree with a form of some kind. -/
structure Is (kind : Form Node → Bool) (n : Node) : Prop where
  kind : kind n.form = true
  shaped : n.Shaped

theorem Is.statement {n : Node} (h : n.Is Form.isExpression) : n.Is Form.isStatement :=
  ⟨Form.isStatement_of_isExpression h.kind, h.shaped⟩

end Node

namespace Parser

variable {α β : Type}

/-! ## What a parser yields -/

/-- Whenever a parser succeeds, its result has a property. -/
def Yields (P : α → Prop) (p : Parser α) : Prop :=
  ∀ s a t, outcome p s = some (.ok a, t) → P a

/-- The result of a step has a property. -/
def Makes (P : α → Prop) (p : Step α) : Prop := ∀ s a t, p.run s = some (a, t) → P a

namespace Yields

theorem any (p : Parser α) : Yields (fun _ => True) p := fun _ _ _ _ => trivial

theorem pure {P : α → Prop} {a : α} (h : P a) : Yields P (pure a) := by
  rintro s _ t ⟨⟩
  exact h

theorem bind {P : α → Prop} {Q : β → Prop} {p : Parser α} {f : α → Parser β} (hp : Yields P p)
    (hf : ∀ a, P a → Yields Q (f a)) : Yields Q (p >>= f) := by
  intro s b u hrun
  rcases outcome_bind_eq_some.mp hrun with ⟨a, t, hfirst, hsecond⟩ | ⟨e, -, he⟩
  · exact hf a (hp s a t hfirst) t b u hsecond
  · cases he

/-- What comes after a step whose result does not matter. -/
theorem after {Q : β → Prop} {p : Parser α} {f : α → Parser β} (hf : ∀ a, Yields Q (f a)) :
    Yields Q (p >>= f) :=
  bind (any p) fun a _ => hf a

theorem exhausted {P : α → Prop} : Yields P (exhausted : Parser α) := nofun

theorem unexpected {P : α → Prop} : Yields P (unexpected : Parser α) := by
  intro s a t hrun
  rw [outcome_unexpected] at hrun
  cases hrun

theorem lift {P : α → Prop} {p : Step α} (h : Makes P p) : Yields P (liftM p : Parser α) := by
  intro s a t hlift
  obtain ⟨_, hrun, ⟨⟩⟩ := outcome_lift_eq_some.mp hlift
  exact h s a t hrun

end Yields

/-- A new node is shaped if its children are and it has the right ones. -/
theorem Makes.node {kind : Form Node → Bool} {line : Nat} {form : Form Node}
    (hkind : kind form = true) (hshape : form.isShaped = true)
    (hchildren : ∀ m ∈ form.children, m.Shaped) :
    Makes (Node.Is kind) (node line form) := by
  rintro s _ t ⟨⟩
  exact ⟨hkind, Node.shaped_iff.mpr ⟨hshape, hchildren⟩⟩

/-! ## The rules -/

theorem yields_binder (line : Nat) (x : String) :
    Yields (Node.Is Form.isBinder) (liftM (node line (.binder x))) :=
  .lift (.node rfl rfl (by simp [Form.children]))

theorem yields_ty (line : Nat) (ty : Ty) :
    Yields (Node.Is Form.isTy) (liftM (node line (.ty ty))) :=
  .lift (.node rfl rfl (by simp [Form.children]))

/-- Literals are expressions without parts. -/
theorem leaf_of_literal? {t : Token} {form : Form Node} (h : literal? t = some form) :
    form.isExpression = true ∧ form.isShaped = true ∧ form.children = [] := by
  cases t with
  | int _ => cases h; exact ⟨rfl, rfl, rfl⟩
  | float _ => cases h; exact ⟨rfl, rfl, rfl⟩
  | str _ => cases h; exact ⟨rfl, rfl, rfl⟩
  | bool _ => cases h; exact ⟨rfl, rfl, rfl⟩
  | pi => cases h; exact ⟨rfl, rfl, rfl⟩
  | _ => cases h

theorem yields_relation (line : Nat) (rel : Rel) {left right : Node}
    (hleft : left.Is Form.isExpression) (hright : right.Is Form.isExpression) :
    Yields (Node.Is Form.isExpression) (liftM (node line (.relation rel left right))) := by
  refine .lift (.node rfl ?_ ?_)
  · simp [Form.isShaped, hleft.kind, hright.kind]
  · simpa [Form.children] using ⟨hleft.shaped, hright.shaped⟩

theorem yields_arith (line : Nat) (op : Arith) {left right : Node}
    (hleft : left.Is Form.isExpression) (hright : right.Is Form.isExpression) :
    Yields (Node.Is Form.isExpression) (liftM (node line (.arith op left right))) := by
  refine .lift (.node rfl ?_ ?_)
  · simp [Form.isShaped, hleft.kind, hright.kind]
  · simpa [Form.children] using ⟨hleft.shaped, hright.shaped⟩

theorem yields_args (line : Nat) {values : List Node}
    (h : ∀ n ∈ values, n.Is Form.isExpression) :
    Yields (Node.Is Form.isArgs) (liftM (node line (.args values))) := by
  refine .lift (.node rfl ?_ fun n hn => (h n hn).shaped)
  simp only [Form.isShaped, List.all_eq_true]
  exact fun n hn => (h n hn).kind

/-- The operators of all levels are relations and arithmetic. -/
theorem Level.operator?_eq_some {level : Level} {t : Token} {form : Node → Node → Form Node}
    (h : level.operator? t = some form) :
    (∃ rel, form = .relation rel) ∨ ∃ op, form = .arith op := by
  unfold Level.operator? at h
  split at h
  · obtain ⟨rel, _, rfl⟩ := Option.map_eq_some_iff.mp h
    exact .inl ⟨rel, rfl⟩
  all_goals first | (cases h; exact .inr ⟨_, rfl⟩) | cases h

theorem yields_typedName :
    Yields (fun pair => pair.1.Is Form.isBinder ∧ pair.2.Is Form.isTy) typedName := by
  refine .after fun name => .after fun _ => .after fun ty => ?_
  refine .bind (yields_binder name.2 name.1) fun left hleft => ?_
  exact .bind (yields_ty ty.2 ty.1) fun right hright => .pure ⟨hleft, hright⟩

theorem yields_moreParams (fuel : Nat) :
    Yields (fun pairs => ∀ pair ∈ pairs, pair.1.Is Form.isBinder ∧ pair.2.Is Form.isTy)
      (moreParams fuel) := by
  induction fuel with
  | zero => exact .exhausted
  | succ fuel ih =>
    rw [moreParams]
    refine .after fun comma => ?_
    split
    · refine .after fun _ => .bind yields_typedName fun pair hpair => ?_
      refine .bind ih fun pairs hpairs => .pure ?_
      exact List.forall_mem_cons.mpr ⟨hpair, hpairs⟩
    · exact .after fun _ => .pure (by simp)

theorem yields_paramList (fuel : Nat) :
    Yields (fun params => ∀ m ∈ params, m.Is Form.isParams) (paramList fuel) := by
  refine .after fun line => .after fun close => ?_
  split
  · exact .after fun _ => .pure (by simp)
  · refine .bind yields_typedName fun pair hpair => ?_
    refine .bind (yields_moreParams fuel) fun pairs hpairs => ?_
    have hall : ∀ p ∈ pair :: pairs, p.1.Is Form.isBinder ∧ p.2.Is Form.isTy :=
      List.forall_mem_cons.mpr ⟨hpair, hpairs⟩
    refine .bind (.lift (.node rfl ?_ ?_)) fun params hparams => .pure (by simpa using hparams)
    · simp only [Form.isShaped, List.all_eq_true, Bool.and_eq_true]
      exact fun p hp => ⟨(hall p hp).1.kind, (hall p hp).2.kind⟩
    · simp only [Form.children, List.mem_flatMap]
      rintro m ⟨p, hp, hm⟩
      simp only [List.mem_cons, List.not_mem_nil, or_false] at hm
      rcases hm with rfl | rfl
      · exact (hall p hp).1.shaped
      · exact (hall p hp).2.shaped

/-- Each rule of the grammar yields trees of the shape it stands for. -/
def Sound (fuel : Nat) : Rule → Prop
  | .statement => Yields (Node.Is Form.isStatement) (statement fuel)
  | .parenthesized => Yields (Node.Is Form.isStatement) (parenthesized fuel)
  | .braced => Yields (Node.Is Form.isBlock) (braced fuel)
  | .block nested => Makes (Node.Is Form.isBlock) (block nested fuel)
  | .statements nested =>
    Makes (fun ns => ∀ n ∈ ns, n.Is Form.isStatement) (statements nested fuel)
  | .operand level => Yields (Node.Is Form.isExpression) (operand fuel level)
  | .operators level left => left.Is Form.isExpression →
    Yields (Node.Is Form.isExpression) (operators fuel level left)
  | .tighter level => Yields (Node.Is Form.isExpression) (tighter fuel level)
  | .power => Yields (Node.Is Form.isExpression) (power fuel)
  | .primary => Yields (Node.Is Form.isExpression) (primary fuel)
  | .moreArgs => Yields (fun ns => ∀ n ∈ ns, n.Is Form.isExpression) (moreArgs fuel)

namespace Sound

section Succ

variable {fuel : Nat} (h : ∀ r, Sound fuel r)

include h

theorem statement_succ :
    Yields (Node.Is Form.isStatement) (Parser.statement (fuel + 1)) := by
  rw [Parser.statement]
  refine .after fun s => ?_
  split
  · exact .unexpected
  · refine .bind (h .braced) fun body hbody => ?_
    exact .lift (.node rfl hbody.kind (by simpa [Form.children] using hbody.shaped))
  · exact .after fun _ => .lift (.node rfl rfl (by simp [Form.children]))
  · refine .after fun _ => .bind (h .parenthesized) fun value hvalue => ?_
    exact .lift (.node rfl hvalue.kind (by simpa [Form.children] using hvalue.shaped))
  · refine .after fun _ => .bind (h .parenthesized) fun guard hguard => ?_
    refine .bind (h .braced) fun body hbody => .lift (.node rfl ?_ ?_)
    · simp [Form.isShaped, hguard.kind, hbody.kind]
    · simpa [Form.children] using ⟨hguard.shaped, hbody.shaped⟩
  · refine .after fun _ => .bind (h .parenthesized) fun guard hguard => ?_
    refine .bind (h .braced) fun body hbody => .lift (.node rfl ?_ ?_)
    · simp [Form.isShaped, hguard.kind, hbody.kind]
    · simpa [Form.children] using ⟨hguard.shaped, hbody.shaped⟩
  · refine .after fun _ => .after fun _ => .bind (h .statement) fun start hstart => ?_
    refine .after fun _ => .bind (h .statement) fun guard hguard => ?_
    refine .after fun _ => .bind (h .statement) fun step hstep => ?_
    refine .after fun _ => .bind (h .braced) fun body hbody => .lift (.node rfl ?_ ?_)
    · simp [Form.isShaped, hstart.kind, hguard.kind, hstep.kind, hbody.kind]
    · simpa [Form.children] using ⟨hstart.shaped, hguard.shaped, hstep.shaped, hbody.shaped⟩
  · refine .after fun _ => .after fun f => ?_
    refine .bind (yields_binder f.2 f.1) fun name hname => ?_
    refine .bind (yields_paramList fuel) fun params hparams => ?_
    refine .after fun _ => .bind (h .braced) fun body hbody => .lift (.node rfl ?_ ?_)
    · cases params with
      | none => simp [Form.isShaped, hname.kind, hbody.kind]
      | some m => simp [Form.isShaped, hname.kind, hbody.kind, (hparams m rfl).kind]
    · cases params with
      | none => simpa [Form.children] using ⟨hname.shaped, hbody.shaped⟩
      | some m => simpa [Form.children] using ⟨hname.shaped, (hparams m rfl).shaped, hbody.shaped⟩
  · refine .after fun _ => .after fun _ => .bind (yields_binder _ _) fun name hname => ?_
    refine .bind (h .statement) fun value hvalue => .lift (.node rfl ?_ ?_)
    · simp [Form.isShaped, hname.kind, hvalue.kind]
    · simpa [Form.children] using ⟨hname.shaped, hvalue.shaped⟩
  · refine .after fun _ => .after fun _ => .bind (yields_binder _ _) fun name hname => ?_
    refine .bind (h .statement) fun value hvalue => .lift (.node rfl ?_ ?_)
    · simp [Form.isShaped, hname.kind, hvalue.kind]
    · simpa [Form.children] using ⟨hname.shaped, hvalue.shaped⟩
  · refine .bind yields_typedName fun pair hpair => .lift (.node rfl ?_ ?_)
    · simp [Form.isShaped, hpair.1.kind, hpair.2.kind]
    · simpa [Form.children] using ⟨hpair.1.shaped, hpair.2.shaped⟩
  · intro s' n s'' hrun
    exact (h (.operand .relation) s' n s'' hrun).statement

theorem block_succ (nested : Bool) :
    Makes (Node.Is Form.isBlock) (Parser.block nested (fuel + 1)) := by
  intro s b u hblock
  obtain ⟨ns, t, hrun, rfl, -⟩ := exists_of_run_block hblock
  have hns := h (.statements nested) s ns t hrun
  refine ⟨rfl, Node.shaped_iff.mpr ⟨?_, fun n hn => (hns n hn).shaped⟩⟩
  simp only [Form.isShaped, List.all_eq_true]
  exact fun n hn => (hns n hn).kind

theorem statements_succ (nested : Bool) :
    Makes (fun ns => ∀ n ∈ ns, n.Is Form.isStatement) (Parser.statements nested (fuel + 1)) := by
  intro s ns u hrun
  cases passes_of_run_statements hrun with
  | nil => exact fun n hn => absurd hn List.not_mem_nil
  | closed => exact fun n hn => absurd hn List.not_mem_nil
  | separator _ _ hrun => exact h (.statements nested) _ ns u hrun
  | next _ _ _ hn hrun =>
    exact List.forall_mem_cons.mpr ⟨h .statement s _ _ hn, h (.statements nested) _ _ u hrun⟩
  | failed _ _ _ _ hrun => exact h (.statements nested) _ ns u hrun

theorem operators_succ (level : Level) (left : Node)
    (hleft : left.Is Form.isExpression) :
    Yields (Node.Is Form.isExpression) (Parser.operators (fuel + 1) level left) := by
  rw [Parser.operators]
  refine .after fun next => ?_
  split
  · exact .pure hleft
  next t =>
  split
  · exact .pure hleft
  next form hform =>
  refine .after fun _ => .bind (h (.tighter level)) fun right hright => ?_
  rcases Level.operator?_eq_some hform with ⟨rel, rfl⟩ | ⟨op, rfl⟩
  · exact .bind (yields_relation _ rel hleft hright) fun n hn => h (.operators level n) hn
  · exact .bind (yields_arith _ op hleft hright) fun n hn => h (.operators level n) hn

theorem power_succ : Yields (Node.Is Form.isExpression) (Parser.power (fuel + 1)) := by
  rw [Parser.power]
  refine .bind (h .primary) fun base hbase => .after fun next => ?_
  split
  · refine .after fun _ => .bind (h .power) fun exponent hexponent => ?_
    exact yields_arith _ .pow hbase hexponent
  · exact .pure hbase

theorem moreArgs_succ :
    Yields (fun ns => ∀ n ∈ ns, n.Is Form.isExpression) (Parser.moreArgs (fuel + 1)) := by
  rw [Parser.moreArgs]
  refine .after fun comma => ?_
  split
  · refine .after fun _ => .bind (h (.operand .relation)) fun value hvalue => ?_
    refine .bind (h .moreArgs) fun values hvalues => .pure ?_
    exact List.forall_mem_cons.mpr ⟨hvalue, hvalues⟩
  · exact .after fun _ => .pure (by simp)

theorem primary_succ :
    Yields (Node.Is Form.isExpression) (Parser.primary (fuel + 1)) := by
  rw [Parser.primary]
  refine .after fun s => ?_
  split
  · refine .after fun _ => .after fun _ => .bind (yields_binder _ _) fun name hname => ?_
    refine .after fun close => ?_
    split
    · refine .after fun _ => .lift (.node rfl ?_ ?_)
      · simp [Form.isShaped, hname.kind]
      · simpa [Form.children] using hname.shaped
    · refine .bind (h (.operand .relation)) fun value hvalue => ?_
      refine .bind (h .moreArgs) fun values hvalues => ?_
      refine .bind (yields_args _ (List.forall_mem_cons.mpr ⟨hvalue, hvalues⟩)) fun args hargs => ?_
      refine .lift (.node rfl ?_ ?_)
      · simp [Form.isShaped, hname.kind, hargs.kind]
      · simpa [Form.children] using ⟨hname.shaped, hargs.shaped⟩
  · exact .after fun _ => .lift (.node rfl rfl (by simp [Form.children]))
  · refine .after fun _ => .after fun _ => .bind (h (.operand .relation)) fun argument harg => ?_
    exact .after fun _ => .lift (.node rfl harg.kind (by simpa [Form.children] using harg.shaped))
  · refine .after fun _ => .after fun _ => .bind (h .statement) fun value hvalue => ?_
    refine .after fun _ => .after fun target => .after fun _ => ?_
    refine .bind (yields_ty target.2 target.1) fun ty hty => .lift (.node rfl ?_ ?_)
    · simp [Form.isShaped, hvalue.kind, hty.kind]
    · simpa [Form.children] using ⟨hvalue.shaped, hty.shaped⟩
  · refine .after fun _ => .bind (h (.operand .relation)) fun inner hinner => ?_
    exact .after fun _ => .pure hinner
  · next t _ _ _ _ _ _ _ =>
    split
    · next form hform =>
      obtain ⟨hkind, hshape, hleaf⟩ := leaf_of_literal? hform
      exact .after fun _ => .lift (.node hkind hshape (by simp [hleaf]))
    · exact .unexpected
  · exact .unexpected

end Succ

/-- **The rules of the grammar yield shaped trees.** -/
theorem all (fuel : Nat) (r : Rule) : Sound fuel r := by
  induction fuel, r using Rule.induction with
  | exhausted r =>
    cases r with
    | block | statements => exact nofun
    | operators => exact fun _ => .exhausted
    | _ => exact .exhausted
  | statement fuel h => exact statement_succ h
  | parenthesized fuel h =>
    exact .after fun _ => .bind (h .statement) fun _ hinner => .after fun _ => .pure hinner
  | braced fuel h =>
    exact .after fun _ => .bind (.lift (h (.block true))) fun _ hbody => .after fun _ => .pure hbody
  | block fuel nested h => exact block_succ h nested
  | statements fuel nested h => exact statements_succ h nested
  | operand fuel level h =>
    exact .bind (h (.tighter level)) fun left hleft => h (.operators level left) hleft
  | operators fuel level left h => exact operators_succ h level left
  | tighter fuel level h =>
    cases level with
    | relation => exact h (.operand .sum)
    | sum => exact h (.operand .product)
    | product => exact h .power
  | power fuel h => exact power_succ h
  | primary fuel h => exact primary_succ h
  | moreArgs fuel h => exact moreArgs_succ h

end Sound

end Parser

/-- **A parsed tree is the root of a program around a shaped block.** -/
theorem shaped_parse (tokens : List Lexed) (firstId : Nat) :
    ∃ body, (parse tokens firstId).tree.form = .program body ∧ body.Is Form.isBlock := by
  obtain ⟨fuel, ns, t, hrun⟩ := Parser.exists_run_statements false (Parser.start tokens firstId)
  rw [Parser.parse_eq_of_run hrun]
  exact ⟨_, rfl, Parser.Sound.all (fuel + 1) (.block false) _ _ _ (Parser.run_block hrun)⟩

end Scriptlet
