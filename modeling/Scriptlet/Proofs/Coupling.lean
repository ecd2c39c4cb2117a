import Scriptlet.Proofs.Matching
import Scriptlet.Proofs.Run

/-!
# Runs that are coupled

Two trees are evaluated side by side, in contexts that are related. The trees
have the same forms up to comments, their nodes are related, and so are the
bodies of the functions. Where the same move on both sides keeps the contexts
related, the two runs are coupled: whenever the first one ends, so does the
second one, with the same result and in a related context. Failures are no
exception; the same faults are reported.

How nodes, lines and contexts are related is a parameter. What is required of
the nodes is what evaluation reads off a node without evaluating it. Reports are
made on the line of a rule's own node and on those of its operands; so operands
may be required to be closer to each other than bodies are.

Results:
* `Couples.step_of_operands`, `Couples.step`: a rule applied to nodes that
  correspond is coupled to itself, also if more turns may be taken on the other
  side.
* `couples_eval_of_operands`, `couples_eval`: evaluating related trees is coupled,
  if related trees correspond.
* `coupling_tied`: contexts that agree but for related function bodies.
-/

namespace Scriptlet

open Eval

/-! ## Nodes that correspond -/

/-- The children of a form that stand for a name. -/
def Form.names {α : Type} : Form α → List α
  | assign name _ | declare name _ | define name _ | function name _ _ | call name _ => [name]
  | _ => []

theorem Form.names_map {α β : Type} (f : α → β) (form : Form α) :
    (form.map f).names = form.names.map f := by
  cases form <;> rfl

theorem Form.mem_children_of_mem_names {α : Type} {a : α} {form : Form α} (h : a ∈ form.names) :
    a ∈ form.children := by
  cases form with
  | assign | declare | define | function | call =>
    rw [List.mem_singleton.mp h]
    exact List.mem_cons_self
  | _ => cases h

namespace Node

/-- The name or the type that a node is. -/
def label? (n : Node) : Option (String ⊕ Ty) :=
  match n.form with
  | .binder x => some (.inl x)
  | .ty t => some (.inr t)
  | _ => none

theorem label?_eq_ty {n : Node} {t : Ty} : n.label? = some (.inr t) ↔ n.form = .ty t := by
  unfold label?
  split <;> simp_all

/-- Parameters are told by names and types alone. -/
theorem paramsOf_eq_filterMap (id line : Nat) (pairs : List (Node × Node)) :
    paramsOf (some ⟨id, line, .params pairs⟩) = pairs.filterMap fun pair =>
      match pair.1.label?, pair.2.label? with
      | some (.inl x), some (.inr t) => some (x, t)
      | _, _ => none := by
  refine List.filterMap_congr fun pair _ => ?_
  obtain ⟨⟨_, _, left⟩, ⟨_, _, right⟩⟩ := pair
  cases left with
  | binder x => cases right <;> rfl
  | _ => cases right <;> rfl

/-- Two nodes of one form whose children are related and stand for the same names.
    Blocks may have comments of their own. -/
inductive Corresponds (N : Node → Node → Prop) : Node → Node → Prop
  | same {id id' line line' : Nat} (pairs : Form (Node × Node)) :
      (∀ pair ∈ pairs.children, N pair.1 pair.2) →
      (∀ pair ∈ pairs.names, pair.2.name? = pair.1.name?) →
      Corresponds N ⟨id, line, pairs.map Prod.fst⟩ ⟨id', line', pairs.map Prod.snd⟩
  | block {id id' line line' : Nat} {ms ns : List Node} :
      List.Forall₂ N (ms.filter fun m => !m.isComment) (ns.filter fun n => !n.isComment) →
      Corresponds N ⟨id, line, .block ms⟩ ⟨id', line', .block ns⟩

/-- The nodes whose values a rule needs. Where there is none, that is reported on the
    line of the operand. -/
def needed (n : Node) : List Node :=
  match n.form with
  | .branch condition _ | .whileLoop condition _ | .forLoop _ condition _ _ => [condition]
  | .relation _ left right | .arith _ left right => [left, right]
  | .assign _ value | .define _ value | .cast value _ | .math _ value => [value]
  | .call _ args => argsOf args
  | _ => []

/-- Related nodes are the same to a rule that does not evaluate them: as statements,
    as names and types, as parameters and as arguments. -/
structure Recognizes (N : Node → Node → Prop) : Prop where
  isComment_eq {m n : Node} : N m n → n.isComment = m.isComment
  label?_eq {m n : Node} : N m n → n.label? = m.label?
  paramsOf_eq {m n : Node} : N m n → paramsOf (some n) = paramsOf (some m)
  argsOf {m n : Node} : N m n → List.Forall₂ N (argsOf (some m)) (argsOf (some n))

theorem Recognizes.ty_iff {N : Node → Node → Prop} (hN : Recognizes N) {m n : Node} (h : N m n)
    (t : Ty) : m.form = .ty t ↔ n.form = .ty t := by
  rw [← label?_eq_ty, ← label?_eq_ty, hN.label?_eq h]

/-- Related nodes are also the same to a report about them. -/
structure Reports (N : Node → Node → Prop) (L : Nat → Nat → Prop) : Prop
    extends Recognizes N where
  line {m n : Node} : N m n → L m.line n.line
  name?_eq {m n : Node} : N m n → n.name? = m.name?

namespace Corresponds

variable {N N' : Node → Node → Prop} {m n : Node}

/-- Two nodes whose forms are the projections of one form. -/
theorem of_forms (pairs : Form (Node × Node)) (hm : m.form = pairs.map Prod.fst)
    (hn : n.form = pairs.map Prod.snd) (hchildren : ∀ pair ∈ pairs.children, N pair.1 pair.2)
    (hnames : ∀ pair ∈ pairs.names, pair.2.name? = pair.1.name?) : m.Corresponds N n := by
  obtain ⟨id, line, form⟩ := m
  obtain ⟨id', line', form'⟩ := n
  obtain rfl : form = _ := hm
  obtain rfl : form' = _ := hn
  exact .same pairs hchildren hnames

/-- The nodes that a rule needs the values of are related if the nodes correspond. -/
theorem needed (hN : Recognizes N) (h : m.Corresponds N n) :
    List.Forall₂ N m.needed n.needed := by
  cases h with
  | block _ => exact .nil
  | same pairs hchildren _ =>
    cases pairs with
    | branch guardNode _ => exact .cons (hchildren guardNode (by simp [Form.children])) .nil
    | whileLoop guardNode _ => exact .cons (hchildren guardNode (by simp [Form.children])) .nil
    | forLoop _ guardNode _ _ => exact .cons (hchildren guardNode (by simp [Form.children])) .nil
    | relation _ left right =>
      obtain ⟨hleft, hright⟩ := forall_mem_two.mp hchildren
      exact .cons hleft (.cons hright .nil)
    | arith _ left right =>
      obtain ⟨hleft, hright⟩ := forall_mem_two.mp hchildren
      exact .cons hleft (.cons hright .nil)
    | assign _ value => exact .cons (hchildren value (by simp [Form.children])) .nil
    | define _ value => exact .cons (hchildren value (by simp [Form.children])) .nil
    | cast value _ => exact .cons (hchildren value (by simp [Form.children])) .nil
    | math _ value => exact .cons (hchildren value (by simp [Form.children])) .nil
    | call _ args =>
      cases args with
      | none => exact .nil
      | some pair => exact hN.argsOf (hchildren pair (by simp [Form.children]))
    | _ => exact .nil

theorem mono (h : m.Corresponds N n) (hN : ∀ a b, N a b → N' a b) : m.Corresponds N' n := by
  cases h with
  | same pairs hchildren hnames =>
    exact .same pairs (fun pair hpair => hN _ _ (hchildren pair hpair)) hnames
  | block h => exact .block (h.imp hN)

theorem symm (h : m.Corresponds N n) : n.Corresponds (fun a b => N b a) m := by
  cases h with
  | same pairs hchildren hnames =>
    refine of_forms (pairs.map Prod.swap) ?_ ?_ ?_ ?_
    · rw [Form.map_map]
      rfl
    · rw [Form.map_map]
      rfl
    · rw [Form.children_map]
      exact List.forall_mem_map.mpr hchildren
    · rw [Form.names_map]
      exact List.forall_mem_map.mpr fun pair hpair => (hnames pair hpair).symm
  | block h => exact .block h.flip

theorem refl (n : Node) : n.Corresponds Eq n := by
  refine of_forms (n.form.map fun m => (m, m)) ?_ ?_ ?_ ?_
  · rw [Form.map_map, Form.map_id]
  · rw [Form.map_map, Form.map_id]
  · rw [Form.children_map]
    exact List.forall_mem_map.mpr fun _ _ => rfl
  · rw [Form.names_map]
    exact List.forall_mem_map.mpr fun _ _ => rfl

end Corresponds

end Node

theorem Node.Reports.symm {N : Node → Node → Prop} {L : Nat → Nat → Prop} (hN : Reports N L) :
    Reports (fun n m => N m n) fun j i => L i j where
  isComment_eq h := (hN.isComment_eq h).symm
  label?_eq h := (hN.label?_eq h).symm
  paramsOf_eq h := (hN.paramsOf_eq h).symm
  argsOf h := (hN.argsOf h).flip
  line h := hN.line h
  name?_eq h := (hN.name?_eq h).symm

/-- A node is the same to evaluation as itself. -/
theorem reports_eq : Node.Reports Eq Eq where
  isComment_eq h := by rw [h]
  label?_eq h := by rw [h]
  paramsOf_eq h := by rw [h]
  argsOf h := h ▸ List.forall₂_same.mpr fun _ _ => rfl
  line h := h ▸ rfl
  name?_eq h := by rw [h]

/-- Comments do not count. -/
theorem Eval.sequence_filter (ev : Evaluator) (last : Option Value) (ns : List Node) :
    sequence ev last (ns.filter fun n => !n.isComment) = sequence ev last ns := by
  induction ns generalizing last with
  | nil => rfl
  | cons n ns ih =>
    cases hn : n.isComment with
    | true => simp [sequence, hn, ih]
    | false => simp [sequence, hn, ih]

/-! ## Contexts -/

/-- Two functions that differ in their bodies only, which are related. -/
structure Definition.Tied (N : Node → Node → Prop) (f g : Definition) : Prop where
  name_eq : g.name = f.name
  params_eq : g.params = f.params
  body : N f.body g.body

theorem Definition.Tied.eq {f g : Definition} (h : f.Tied Eq g) : g = f := by
  obtain ⟨hname, hparams, hbody⟩ := h
  cases f
  cases g
  simp_all

/-- Tables of the same names with related functions. -/
def FunctionTable.Rel (R : Definition → Definition → Prop) : FunctionTable → FunctionTable → Prop :=
  List.Forall₂ fun d e => e.key = d.key ∧ R d.toDefinition e.toDefinition

theorem FunctionTable.Rel.imp {R R' : Definition → Definition → Prop} {fs gs : FunctionTable}
    (h : FunctionTable.Rel R fs gs) (hR : ∀ f g, R f g → R' f g) : FunctionTable.Rel R' fs gs :=
  List.Forall₂.imp (fun _ _ hfg => ⟨hfg.1, hR _ _ hfg.2⟩) h

theorem FunctionTable.Rel.refl {R : Definition → Definition → Prop} {fs : FunctionTable}
    (h : ∀ e ∈ fs, R e.toDefinition e.toDefinition) : FunctionTable.Rel R fs fs :=
  List.forall₂_same.mpr fun e he => ⟨rfl, h e he⟩

/-- Related functions are found under the same names. -/
theorem FunctionTable.Rel.named? {R : Definition → Definition → Prop} {fs gs : FunctionTable}
    (h : FunctionTable.Rel R fs gs) (f : String) : Option.Rel R (fs.named? f) (gs.named? f) := by
  induction h with
  | nil => exact .none
  | cons hfg _ ih =>
    rw [FunctionTable.named?_cons, FunctionTable.named?_cons, hfg.1]
    split
    · exact .some hfg.2
    · exact ih

/-- A relation between contexts that the same move on both sides does not break.
    Reports are made on lines related by `L`; that something was reported can be
    told on both sides or on none. -/
structure Coupling (N : Node → Node → Prop) (L : Nat → Nat → Prop)
    (R : Context → Context → Prop) : Prop where
  scopes_eq {c d : Context} : R c d → d.scopes = c.scopes
  maxCallDepth_eq {c d : Context} : R c d → d.maxCallDepth = c.maxCallDepth
  callDepth_eq {c d : Context} : R c d → d.callDepth = c.callDepth
  function? {c d : Context} : R c d → ∀ f,
    Option.Rel (Definition.Tied N) (c.function? f) (d.function? f)
  state {c d : Context} : R c d → ∀ s depth,
    R { c with scopes := s, callDepth := depth } { d with scopes := s, callDepth := depth }
  register {c d : Context} {f g : Definition} : R c d → f.Tied N g →
    R { c with functions := ⟨f, f.name⟩ :: c.functions }
      { d with functions := ⟨g, f.name⟩ :: d.functions }
  write {c d : Context} : R c d → ∀ text,
    R (c.write (.printed text)) (d.write (.printed text))
  report {c d : Context} {i j : Nat} : R c d → L i j → ∀ fault,
    R (c.report fault i) (d.report fault j)
  size_eq_iff {c d c₁ d₁ : Context} : R c d → R c₁ d₁ →
    (c₁.diagnostics.size = c.diagnostics.size ↔ d₁.diagnostics.size = d.diagnostics.size)

namespace Coupling

variable {N : Node → Node → Prop} {L : Nat → Nat → Prop} {R : Context → Context → Prop}
  {c d : Context}

theorem symm (hR : Coupling N L R) :
    Coupling (fun n m => N m n) (fun j i => L i j) fun d c => R c d where
  scopes_eq h := (hR.scopes_eq h).symm
  maxCallDepth_eq h := (hR.maxCallDepth_eq h).symm
  callDepth_eq h := (hR.callDepth_eq h).symm
  function? {d c} h f := by
    have hrel := hR.function? h f
    generalize c.function? f = x at hrel
    generalize d.function? f = y at hrel
    cases hrel with
    | none => exact .none
    | some hfg => exact .some ⟨hfg.name_eq.symm, hfg.params_eq.symm, hfg.body⟩
  state h s depth := hR.state h s depth
  register h hgf :=
    hgf.name_eq ▸ hR.register h ⟨hgf.name_eq.symm, hgf.params_eq.symm, hgf.body⟩
  write h text := hR.write h text
  report h hline fault := hR.report h hline fault
  size_eq_iff h h₁ := (hR.size_eq_iff h h₁).symm

theorem withScopes (hR : Coupling N L R) (h : R c d) (s : Scopes) :
    R { c with scopes := s } { d with scopes := s } := by
  have hstate := hR.state h s c.callDepth
  rw [← hR.callDepth_eq h] at hstate
  exact hR.callDepth_eq h ▸ hstate

/-- A function is registered on both sides, or refused for the same reason. -/
theorem register_or (hR : Coupling N L R) (h : R c d) {f g : Definition} (hfg : f.Tied N g) :
    (∃ fault, c.register f = .error fault ∧ d.register g = .error fault) ∨
      ∃ c' d', c.register f = .ok c' ∧ d.register g = .ok d' ∧ R c' d' := by
  have hknown : (d.function? f.name).isSome = (c.function? f.name).isSome := by
    have hrel := hR.function? h f.name
    generalize c.function? f.name = x at hrel
    generalize d.function? f.name = y at hrel
    cases hrel <;> rfl
  unfold Context.register
  rw [hR.scopes_eq h, hfg.name_eq, hknown]
  split
  · exact .inl ⟨_, rfl, rfl⟩
  · split
    · exact .inl ⟨_, rfl, rfl⟩
    · exact .inr ⟨_, _, rfl, rfl, hR.scopes_eq h ▸ hR.register h hfg⟩

end Coupling

/-! ## Steps -/

/-- Whenever the first step ends, the second one ends with the same result, in
    contexts that are related again. -/
def Couples {α : Type} (R : Context → Context → Prop) (m m' : Eval α) : Prop :=
  ∀ c d a c', R c d → m.run c = some (a, c') → ∃ d', m'.run d = some (a, d') ∧ R c' d'

namespace Couples

variable {α β : Type} {N : Node → Node → Prop} {L : Nat → Nat → Prop}
  {R : Context → Context → Prop}

theorem pure (a : α) : Couples R (pure a) (pure a) := by
  intro c d b c' h hrun
  obtain ⟨rfl, rfl⟩ := run_pure_eq_some.mp hrun
  exact ⟨d, rfl, h⟩

theorem exhausted (m : Eval α) : Couples R exhausted m := by
  intro c d a c' _ hrun
  cases hrun

theorem bind {m m' : Eval α} {f f' : α → Eval β} (hm : Couples R m m')
    (hf : ∀ a, Couples R (f a) (f' a)) : Couples R (m >>= f) (m' >>= f') := by
  intro c d b c'' h hrun
  obtain ⟨a, c', h1, h2⟩ := run_bind_eq_some.mp hrun
  obtain ⟨d', hd', h'⟩ := hm c d a c' h h1
  obtain ⟨d'', hd'', h''⟩ := hf a c' d' b c'' h' h2
  exact ⟨d'', run_bind_eq_some.mpr ⟨a, d', hd', hd''⟩, h''⟩

/-- After reading the contexts, what follows may depend on them. -/
theorem get_bind {f f' : Context → Eval α} (hf : ∀ c d, R c d → Couples R (f c) (f' d)) :
    Couples R (get >>= f) (get >>= f') := by
  intro c d a c' h hrun
  obtain ⟨_, _, h0, hrun⟩ := run_bind_eq_some.mp hrun
  obtain ⟨rfl, rfl⟩ := run_get_eq_some.mp h0
  obtain ⟨d', hd', h'⟩ := hf c d h c d a c' h hrun
  exact ⟨d', run_bind_eq_some.mpr ⟨d, d, rfl, hd'⟩, h'⟩

theorem modify {f f' : Context → Context} (hf : ∀ c d, R c d → R (f c) (f' d)) :
    Couples R (modify f : Eval Unit) (modify f') := by
  intro c d a c' h hrun
  obtain rfl := run_modify_eq_some.mp hrun
  exact ⟨f' d, rfl, hf c d h⟩

section Contexts

variable (hR : Coupling N L R)

include hR

theorem inScope {m m' : Eval α} (hm : Couples R m m') : Couples R (inScope m) (inScope m') := by
  refine bind (modify fun c d h => ?_) fun _ => bind hm fun a =>
    bind (modify fun c d h => ?_) fun _ => pure a
  · rw [hR.scopes_eq h]
    exact hR.withScopes h _
  · rw [hR.scopes_eq h]
    exact hR.withScopes h _

section Lines

variable {line line' : Nat} (hline : L line line')

include hline

theorem report (fault : Fault) : Couples R (report fault line) (report fault line') :=
  modify fun _ _ h => hR.report h hline fault

theorem settle (result : Except Fault α) :
    Couples R (settle line result) (settle line' result) := by
  cases result with
  | ok a => exact pure (some a)
  | error fault => exact bind (report hR hline fault) fun _ => pure none

/-- The same change of the scopes on both sides. -/
theorem update (f : Scopes → Change Unit Scopes) :
    Couples R (do setScopes line (f (← get).scopes); return (none : Option Value))
      (do setScopes line' (f (← get).scopes); return none) := by
  refine get_bind fun c d h => ?_
  rw [hR.scopes_eq h]
  refine bind (bind (modify fun _ _ h => hR.withScopes h _) fun _ => ?_) fun _ => pure none
  cases (f c.scopes).1 with
  | ok _ => exact pure ()
  | error fault => exact report hR hline fault

theorem define {f g : Definition} (hfg : f.Tied N g) :
    Couples R (Eval.define line f) (Eval.define line' g) := by
  intro c d a c' h hrun
  obtain ⟨_, _, h0, hrun⟩ := run_bind_eq_some.mp hrun
  obtain ⟨rfl, rfl⟩ := run_get_eq_some.mp h0
  rcases hR.register_or h hfg with ⟨fault, hc, hd⟩ | ⟨c₁, d₁, hc, hd, h₁⟩
  · rw [hc] at hrun
    obtain ⟨d', hd', h'⟩ :=
      bind (report hR hline fault) (fun _ => pure (none : Option Value)) c d a c' h hrun
    exact ⟨d', run_bind_eq_some.mpr ⟨d, d, rfl, by rw [hd]; exact hd'⟩, h'⟩
  · rw [hc] at hrun
    obtain ⟨_, _, h1, hrun⟩ := run_bind_eq_some.mp hrun
    obtain rfl := run_set_eq_some.mp h1
    obtain ⟨rfl, rfl⟩ := run_pure_eq_some.mp hrun
    exact ⟨d₁, run_bind_eq_some.mpr ⟨d, d, rfl, by rw [hd]; rfl⟩, h₁⟩

/-! ## Rules -/

variable {ev ev' : Evaluator} {id id' bound bound' : Nat}

theorem read (x : String) :
    Couples R (step ev bound ⟨id, line, .read x⟩) (step ev' bound' ⟨id', line', .read x⟩) := by
  refine get_bind fun c d h => ?_
  rw [hR.scopes_eq h]
  split
  · exact pure _
  · exact settle hR hline _

theorem declare {name name' ty ty' : Node} (hname : name'.name? = name.name?)
    (hty : ∀ t, ty.form = .ty t ↔ ty'.form = .ty t) :
    Couples R (step ev bound ⟨id, line, .declare name ty⟩)
      (step ev' bound' ⟨id', line', .declare name' ty'⟩) := by
  simp only [Eval.step, hname]
  split
  · next x t hx ht =>
    simp only [hx, (hty t).mp ht]
    exact update hR hline fun s => s.declare x t
  · next hno =>
    split
    · next x t hx ht => exact absurd ((hty t).mpr ht) (hno x t hx)
    · exact pure none

theorem function {name name' body body' : Node} {params params' : Option Node}
    (hname : name'.name? = name.name?) (hparams : paramsOf params' = paramsOf params)
    (hbody : N body body') :
    Couples R (step ev bound ⟨id, line, .function name params body⟩)
      (step ev' bound' ⟨id', line', .function name' params' body'⟩) := by
  simp only [Eval.step, hname]
  split
  · exact define hR hline ⟨rfl, hparams, hbody⟩
  · exact pure none

end Lines

section Operands

variable {O : Node → Node → Prop} (hO : Node.Reports O L) {ev ev' : Evaluator}
  (hev : ∀ m n, O m n → Couples R (ev m) (ev' n))

include hO hev

theorem required (missing : Fault) {m n : Node} (h : O m n) :
    Couples R (required ev missing m) (required ev' missing n) := by
  intro c d a c' hcd hrun
  obtain ⟨_, _, h0, hrun⟩ := run_bind_eq_some.mp hrun
  obtain ⟨rfl, rfl⟩ := run_get_eq_some.mp h0
  obtain ⟨value, c₁, h1, hrun⟩ := run_bind_eq_some.mp hrun
  obtain ⟨d₁, hd₁, hcd₁⟩ := hev m n h c d value c₁ hcd h1
  obtain ⟨_, _, h2, hrun⟩ := run_bind_eq_some.mp hrun
  obtain ⟨rfl, rfl⟩ := run_get_eq_some.mp h2
  have hrest : Couples R
      (do if value.isNone ∧ c₁.diagnostics.size = c.diagnostics.size then
            Eval.report missing m.line
          return value)
      (do if value.isNone ∧ d₁.diagnostics.size = d.diagnostics.size then
            Eval.report missing n.line
          return value) := by
    simp only [hR.size_eq_iff hcd hcd₁]
    split
    · exact bind (report hR (hO.line h) missing) fun _ => pure value
    · exact pure value
  obtain ⟨d', hd', hcd'⟩ := hrest c₁ d₁ a c' hcd₁ hrun
  refine ⟨d', run_bind_eq_some.mpr ⟨d, d, rfl, ?_⟩, hcd'⟩
  refine run_bind_eq_some.mpr ⟨value, d₁, hd₁, ?_⟩
  exact run_bind_eq_some.mpr ⟨d₁, d₁, rfl, hd'⟩

theorem operand {m n : Node} (h : O m n) : Couples R (operand ev m) (operand ev' n) := by
  unfold Eval.operand
  rw [hO.name?_eq h]
  exact required hR hO hev _ h

theorem combine {line line' : Nat} (hline : L line line') {l l' r r' : Node} (hl : O l l')
    (hr : O r r') (f : Value → Value → Except Fault Value) :
    Couples R (combine ev line l r f) (combine ev' line' l' r' f) := by
  refine bind (operand hR hO hev hl) fun a => bind (operand hR hO hev hr) fun b => ?_
  cases a <;> cases b <;> first | exact pure none | exact settle hR hline _

theorem transform {line line' : Nat} (hline : L line line') {m n : Node} (h : O m n)
    (f : Value → Except Fault Value) :
    Couples R (transform ev line m f) (transform ev' line' n f) := by
  refine bind (operand hR hO hev h) fun a => ?_
  cases a with
  | none => exact pure none
  | some a => exact settle hR hline (f a)

theorem guard {m n : Node} (h : O m n) : Couples R (guard ev m) (guard ev' n) := by
  refine bind (operand hR hO hev h) fun a => ?_
  split
  · exact pure _
  · exact bind (report hR (hO.line h) _) fun _ => pure none
  · exact pure none

/-- On the other side more turns may be taken. -/
theorem repeatWhile {m n : Node} (h : O m n) {turn turn' : Eval (Option Value)}
    (hturn : Couples R turn turn') {bound bound' : Nat} (hbound : bound ≤ bound') :
    ∀ last, Couples R (repeatWhile ev m turn bound last)
      (repeatWhile ev' n turn' bound' last) := by
  induction bound generalizing bound' with
  | zero => exact fun _ => exhausted _
  | succ bound ih =>
    intro last
    obtain ⟨more, rfl⟩ : ∃ more, bound' = more + 1 := ⟨bound' - 1, by omega⟩
    refine bind (guard hR hO hev h) fun g => ?_
    split
    · exact bind hturn (ih (by omega))
    · exact pure last

theorem operands {ms ns : List Node} (h : List.Forall₂ O ms ns) :
    Couples R (operands ev ms) (operands ev' ns) := by
  induction h with
  | nil => exact pure []
  | cons hmn _ ih => exact bind (operand hR hO hev hmn) fun _ => bind ih fun _ => pure _

variable {id id' line line' bound bound' : Nat}

theorem branch {g g' b b' : Node} (hguard : O g g') (hbody : Couples R (ev b) (ev' b')) :
    Couples R (step ev bound ⟨id, line, .branch g b⟩)
      (step ev' bound' ⟨id', line', .branch g' b'⟩) := by
  refine bind (guard hR hO hev hguard) fun value => ?_
  split
  · exact inScope hR hbody
  · exact pure none

theorem whileLoop (hbound : bound ≤ bound') {g g' b b' : Node} (hguard : O g g')
    (hbody : Couples R (ev b) (ev' b')) :
    Couples R (step ev bound ⟨id, line, .whileLoop g b⟩)
      (step ev' bound' ⟨id', line', .whileLoop g' b'⟩) :=
  inScope hR (repeatWhile hR hO hev hguard hbody hbound none)

theorem forLoop (hbound : bound ≤ bound') {a a' g g' s s' b b' : Node}
    (hstart : Couples R (ev a) (ev' a')) (hguard : O g g') (hstep : Couples R (ev s) (ev' s'))
    (hbody : Couples R (ev b) (ev' b')) :
    Couples R (step ev bound ⟨id, line, .forLoop a g s b⟩)
      (step ev' bound' ⟨id', line', .forLoop a' g' s' b'⟩) := by
  refine inScope hR (bind hstart fun _ => ?_)
  refine repeatWhile hR hO hev hguard ?_ hbound none
  exact bind hbody fun result => bind hstep fun _ => pure result

section Values

variable (hline : L line line') {value value' : Node} (hvalue : O value value')

include hline hvalue

theorem assign {name name' : Node} (hname : name'.name? = name.name?) :
    Couples R (step ev bound ⟨id, line, .assign name value⟩)
      (step ev' bound' ⟨id', line', .assign name' value'⟩) := by
  refine bind (operand hR hO hev hvalue) fun a => ?_
  rw [hname]
  split
  · next v x _ => exact update hR hline fun s => s.assign x v
  · exact pure none

theorem defineVariable {name name' : Node} (hname : name'.name? = name.name?) :
    Couples R (step ev bound ⟨id, line, .define name value⟩)
      (step ev' bound' ⟨id', line', .define name' value'⟩) := by
  refine bind (required hR hO hev _ hvalue) fun a => ?_
  rw [hname]
  split
  · next v x _ => exact update hR hline fun s => s.define x v
  · exact pure none

theorem cast {ty ty' : Node} (hty : ∀ t, ty.form = .ty t ↔ ty'.form = .ty t) :
    Couples R (step ev bound ⟨id, line, .cast value ty⟩)
      (step ev' bound' ⟨id', line', .cast value' ty'⟩) := by
  simp only [Eval.step]
  split
  · next t ht =>
    simp only [(hty t).mp ht]
    exact transform hR hO hev hline hvalue _
  · next hno =>
    split
    · next t ht => exact absurd ((hty t).mpr ht) (hno t)
    · exact pure none

end Values

end Operands

section Bodies

variable {ev ev' : Evaluator} (hev : ∀ m n, N m n → Couples R (ev m) (ev' n))

include hev

omit hR in
theorem statements (hN : Node.Recognizes N) {ms ns : List Node} (h : List.Forall₂ N ms ns) :
    ∀ last, Couples R (Eval.sequence ev last ms) (Eval.sequence ev' last ns) := by
  induction h with
  | nil => exact pure
  | cons hmn _ ih =>
    intro last
    simp only [Eval.sequence, hN.isComment_eq hmn]
    split
    · exact ih last
    · exact bind (hev _ _ hmn) ih

theorem enter {f g : Definition} (hfg : f.Tied N g) (s : Scopes) :
    Couples R (enter ev f s) (enter ev' g s) := by
  refine bind (modify fun c d h => ?_) fun _ => bind (hev _ _ hfg.body) fun a =>
    bind (modify fun c d h => ?_) fun _ => pure a
  · rw [hR.callDepth_eq h]
    exact hR.state h _ _
  · rw [hR.callDepth_eq h, hR.scopes_eq h]
    exact hR.state h _ _

theorem apply {line line' : Nat} (hline : L line line') {f g : Definition} (hfg : f.Tied N g)
    (values : List (Option Value)) :
    Couples R (apply ev line f values) (apply ev' line' g values) := by
  refine get_bind fun c d h => ?_
  rw [hfg.params_eq, hfg.name_eq, hR.maxCallDepth_eq h, hR.callDepth_eq h, hR.scopes_eq h]
  split
  · exact settle hR hline _
  · split
    · exact settle hR hline _
    · split
      · exact settle hR hline _
      · exact pure none
      · exact enter hR hev hfg _

section Rules

variable {O : Node → Node → Prop} (hO : Node.Reports O L) (hON : ∀ m n, O m n → N m n)

include hO hON

theorem call {line line' : Nat} (hline : L line line') (f : String) {args args' : Option Node}
    (hargs : List.Forall₂ O (argsOf args) (argsOf args')) :
    Couples R (call ev line f args) (call ev' line' f args') := by
  refine get_bind fun c d h => ?_
  have hknown := hR.function? h f
  generalize c.function? f = x at hknown
  generalize d.function? f = y at hknown
  cases hknown with
  | none => exact settle hR hline _
  | some hfg =>
    refine bind (operands hR hO (fun m n h => hev m n (hON m n h)) hargs) fun values => ?_
    exact apply hR hev hline hfg values

/-- **A rule applied to nodes that correspond is coupled to itself**, also if more
    turns may be taken on the other side. Operands are related as closely as reports
    on them need; the line of a block does not matter. -/
theorem step_of_operands (hN : Node.Recognizes N) {bound bound' : Nat} (hbound : bound ≤ bound')
    {m n : Node} (hline : m.statements? = none → L m.line n.line) (h : m.Corresponds N n)
    (hoperands : List.Forall₂ O m.needed n.needed) :
    Couples R (step ev bound m) (step ev' bound' n) := by
  have hevO : ∀ m n, O m n → Couples R (ev m) (ev' n) := fun m n h => hev m n (hON m n h)
  cases h with
  | block h =>
    show Couples R (Eval.sequence ev none _) (Eval.sequence ev' none _)
    rw [← sequence_filter ev, ← sequence_filter ev']
    exact statements hev hN h none
  | same pairs hchildren hnames =>
  cases pairs with
  | program body => exact hev _ _ (hchildren body (by simp [Form.children]))
  | block children =>
    refine statements hev hN ?_ none
    rw [List.forall₂_map_left_iff, List.forall₂_map_right_iff, List.forall₂_same]
    exact hchildren
  | scope body => exact inScope hR (hev _ _ (hchildren body (by simp [Form.children])))
  | branch guardNode body =>
    exact branch hR hO hevO (List.forall₂_cons.mp hoperands).1
      (hev _ _ (hchildren body (by simp [Form.children])))
  | whileLoop guardNode body =>
    exact whileLoop hR hO hevO hbound (List.forall₂_cons.mp hoperands).1
      (hev _ _ (hchildren body (by simp [Form.children])))
  | forLoop start guardNode stepNode body =>
    exact forLoop hR hO hevO hbound (hev _ _ (hchildren start (by simp [Form.children])))
      (List.forall₂_cons.mp hoperands).1
      (hev _ _ (hchildren stepNode (by simp [Form.children])))
      (hev _ _ (hchildren body (by simp [Form.children])))
  | relation rel left right =>
    obtain ⟨hleft, hright⟩ := List.forall₂_cons.mp hoperands
    exact combine hR hO hevO (hline rfl) hleft (List.forall₂_cons.mp hright).1 _
  | arith op left right =>
    obtain ⟨hleft, hright⟩ := List.forall₂_cons.mp hoperands
    exact combine hR hO hevO (hline rfl) hleft (List.forall₂_cons.mp hright).1 _
  | print value =>
    refine bind (hev _ _ (hchildren value (by simp [Form.children]))) fun _ => ?_
    exact bind (modify fun _ _ h => hR.write h _) fun _ => pure none
  | assign name value =>
    exact assign hR hO hevO (hline rfl) (List.forall₂_cons.mp hoperands).1
      (hnames name (by simp [Form.names]))
  | declare name ty =>
    exact declare hR (hline rfl) (hnames name (by simp [Form.names]))
      (hN.ty_iff (hchildren ty (by simp [Form.children])))
  | define name value =>
    exact defineVariable hR hO hevO (hline rfl) (List.forall₂_cons.mp hoperands).1
      (hnames name (by simp [Form.names]))
  | cast value ty =>
    exact cast hR hO hevO (hline rfl) (List.forall₂_cons.mp hoperands).1
      (hN.ty_iff (hchildren ty (by simp [Form.children])))
  | function name params body =>
    refine function hR (hline rfl) (hnames name (by simp [Form.names])) ?_
      (hchildren body (by simp [Form.children]))
    cases params with
    | none => rfl
    | some pair => exact hN.paramsOf_eq (hchildren pair (by simp [Form.children]))
  | call name args =>
    simp only [Eval.step, Form.map, hnames name (by simp [Form.names])]
    split
    · exact call hR hev hO hON (hline rfl) _ hoperands
    · exact pure none
  | math fn argument =>
    exact transform hR hO hevO (hline rfl) (List.forall₂_cons.mp hoperands).1 _
  | read name => exact read hR (hline rfl) name
  | _ => exact pure _

end Rules

end Bodies

section Evaluator

variable (hN : Node.Reports N L) {ev ev' : Evaluator}
  (hev : ∀ m n, N m n → Couples R (ev m) (ev' n))

include hN hev

omit hR in
theorem sequence {ms ns : List Node} (h : List.Forall₂ N ms ns) :
    ∀ last, Couples R (sequence ev last ms) (sequence ev' last ns) :=
  statements hev hN.toRecognizes h

/-- **A rule applied to nodes that correspond is coupled to itself**, also if more
    turns may be taken on the other side. -/
theorem step {bound bound' : Nat} (hbound : bound ≤ bound') {m n : Node}
    (hline : L m.line n.line) (h : m.Corresponds N n) :
    Couples R (step ev bound m) (step ev' bound' n) :=
  step_of_operands hR hev hN (fun _ _ => id) hN.toRecognizes hbound (fun _ => hline) h
    (h.needed hN.toRecognizes)

end Evaluator

end Contexts

end Couples

/-- **Evaluating related trees is coupled**, if related trees correspond and their
    operands are related as closely as reports on them need. -/
theorem couples_eval_of_operands {N O : Node → Node → Prop} {L : Nat → Nat → Prop}
    {R : Context → Context → Prop} (hR : Coupling N L R) (hN : Node.Recognizes N)
    (hO : Node.Reports O L) (hON : ∀ m n, O m n → N m n)
    (hline : ∀ m n, N m n → m.statements? = none → L m.line n.line)
    (h : ∀ m n, N m n → m.Corresponds N n)
    (hoperands : ∀ m n, N m n → List.Forall₂ O m.needed n.needed) (bound : Nat) :
    ∀ m n, N m n → Couples R (eval bound m) (eval bound n) := by
  induction bound with
  | zero => exact fun _ _ _ => .exhausted _
  | succ bound ih =>
    exact fun m n hmn => .step_of_operands hR ih hO hON hN (Nat.le_refl bound) (hline m n hmn)
      (h m n hmn) (hoperands m n hmn)

/-- **Evaluating related trees is coupled**, if related trees correspond. -/
theorem couples_eval {N : Node → Node → Prop} {L : Nat → Nat → Prop}
    {R : Context → Context → Prop} (hR : Coupling N L R) (hN : Node.Reports N L)
    (h : ∀ m n, N m n → m.Corresponds N n) (bound : Nat) :
    ∀ m n, N m n → Couples R (eval bound m) (eval bound n) :=
  couples_eval_of_operands hR hN.toRecognizes hN (fun _ _ => id)
    (fun _ _ hmn _ => hN.line hmn) h (fun m n hmn => (h m n hmn).needed hN.toRecognizes) bound

/-! ## Contexts with related functions -/

/-- Two contexts that agree but for the bodies of their functions, which are
    related. -/
structure Context.Tied (N : Node → Node → Prop) (c d : Context) : Prop where
  scopes_eq : d.scopes = c.scopes
  functions : FunctionTable.Rel (Definition.Tied N) c.functions d.functions
  maxCallDepth_eq : d.maxCallDepth = c.maxCallDepth
  callDepth_eq : d.callDepth = c.callDepth
  diagnostics_eq : d.diagnostics = c.diagnostics
  echo_eq : d.echo = c.echo
  writer_eq : d.writer = c.writer
  output_eq : d.output = c.output

namespace Context.Tied

variable {N : Node → Node → Prop} {c d : Context}

/-- Without functions a context agrees with itself. -/
theorem of_new (h : c.functions = []) : c.Tied N c := by
  refine ⟨rfl, ?_, rfl, rfl, rfl, rfl, rfl, rfl⟩
  rw [h]
  exact .nil

theorem write (h : c.Tied N d) (line : OutputLine) : (c.write line).Tied N (d.write line) := by
  unfold Context.write
  rw [h.writer_eq, h.output_eq]
  exact { h with writer_eq := rfl, output_eq := rfl }

theorem record (h : c.Tied N d) (x : Diagnostic) : (c.record x).Tied N (d.record x) := by
  have hshown : Tied N (if c.echo then c.write (.echoed x) else c)
      (if d.echo then d.write (.echoed x) else d) := by
    rw [h.echo_eq]
    split
    · exact h.write _
    · exact h
  exact { hshown with diagnostics_eq := congrArg (Array.push · x) hshown.diagnostics_eq }

end Context.Tied

/-- The same moves in two contexts keep them in agreement. -/
theorem coupling_tied (N : Node → Node → Prop) : Coupling N Eq (Context.Tied N) where
  scopes_eq h := h.scopes_eq
  maxCallDepth_eq h := h.maxCallDepth_eq
  callDepth_eq h := h.callDepth_eq
  function? h f := h.functions.named? f
  state h _ _ := { h with scopes_eq := rfl, callDepth_eq := rfl }
  register h hfg := { h with functions := .cons ⟨rfl, hfg⟩ h.functions }
  write h text := h.write (.printed text)
  report {c d i j} h hij fault := by
    subst hij
    exact h.record (.runtime fault i)
  size_eq_iff h h₁ := by rw [h.diagnostics_eq, h₁.diagnostics_eq]

end Scriptlet
