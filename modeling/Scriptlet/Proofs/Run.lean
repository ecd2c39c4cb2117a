import Scriptlet.Proofs.Scopes

/-!
# What a run keeps

Evaluation changes a context by a handful of moves: it writes a line, records a
diagnostic, binds or assigns a name, registers a function, and opens and closes
scopes around blocks and calls. A relation between an earlier and a later
context that none of these moves breaks holds between the two ends of every
evaluation, whatever the tree and whatever goes wrong on the way.

Results:
* `run_bind_eq_some`: a sequence of two steps ends iff both do.
* `Lasting.relates_eval`: a lasting relation holds between the two ends of every
  evaluation.
-/

namespace Scriptlet

/-! ## Functions -/

theorem FunctionTable.named?_cons (e : Entry) (table : FunctionTable) (f : String) :
    FunctionTable.named? (e :: table) f =
      if e.key = f then some e.toDefinition else table.named? f := by
  unfold named?
  rw [List.find?_cons]
  by_cases h : e.key = f
  · simp [h]
  · have : (e.key == f) = false := by simpa using h
    simp [this, h]

theorem Context.mem_of_function? {c : Context} {f : String} {d : Definition}
    (h : c.function? f = some d) : ⟨d, f⟩ ∈ c.functions := by
  obtain ⟨e, he, rfl⟩ := Option.map_eq_some_iff.mp h
  have hkey : e.key = f := by simpa using List.find?_some he
  rw [← hkey]
  exact List.mem_of_find?_eq_some he

/-! ## Steps in sequence -/

namespace Eval

variable {α β : Type}

/-- A sequence of two steps ends iff the first ends and the second ends after
    it. -/
theorem run_bind_eq_some {m : Eval α} {f : α → Eval β} {c c'' : Context} {b : β} :
    (m >>= f).run c = some (b, c'') ↔
      ∃ a c', m.run c = some (a, c') ∧ (f a).run c' = some (b, c'') := by
  rw [StateT.run_bind]
  cases m.run c with
  | none => simp
  | some result =>
    obtain ⟨a, c'⟩ := result
    constructor
    · intro h
      exact ⟨a, c', rfl, h⟩
    · rintro ⟨_, _, ⟨⟩, h⟩
      exact h

theorem run_pure_eq_some {a b : α} {c c' : Context} :
    (pure a : Eval α).run c = some (b, c') ↔ a = b ∧ c = c' := by
  simp [StateT.run_pure]

theorem run_get_eq_some {a c c' : Context} :
    (get : Eval Context).run c = some (a, c') ↔ c = a ∧ c = c' := by
  simp

theorem run_modify_eq_some {f : Context → Context} {c c' : Context} {a : Unit} :
    (modify f : Eval Unit).run c = some (a, c') ↔ f c = c' := by
  simp

theorem run_set_eq_some {c c' c'' : Context} {a : PUnit} :
    (set c' : Eval PUnit).run c = some (a, c'') ↔ c' = c'' := by
  simp

/-- A change of the scopes that fails is reported and not made. -/
theorem run_setScopes_error {change : Change Unit Scopes} {c : Context} {fault : Fault}
    {line : Nat} (hchange : change.AllOrNothing c.scopes) (h : change.1 = .error fault) :
    (setScopes line change).run c = some ((), c.report fault line) := by
  obtain ⟨result, s⟩ := change
  obtain rfl : s = c.scopes := hchange fault h
  obtain rfl : result = .error fault := h
  rfl

/-- Whenever a step ends, the contexts before and after it are related. -/
def Relates (R : Context → Context → Prop) (m : Eval α) : Prop :=
  ∀ c a c', m.run c = some (a, c') → R c c'

end Eval

open Eval

/-- A relation between an earlier and a later context that recording diagnostics
    does not break. -/
structure Reporting (R : Context → Context → Prop) : Prop where
  refl (c : Context) : R c c
  trans {a b c : Context} : R a b → R b c → R a c
  record (c : Context) (d : Diagnostic) : R c (c.record d)

/-- A relation between an earlier and a later context that no move of a running
    program breaks. -/
structure Lasting (R : Context → Context → Prop) : Prop extends Reporting R where
  write (c : Context) (text : String) : R c (c.write (.printed text))
  declare {c : Context} {x : String} {ty : Ty} {s : Scopes} :
    c.scopes.declare x ty = (.ok (), s) → R c { c with scopes := s }
  define {c : Context} {x : String} {value : Value} {s : Scopes} :
    c.scopes.define x value = (.ok (), s) → R c { c with scopes := s }
  assign {c : Context} {x : String} {value : Value} {s : Scopes} :
    c.scopes.assign x value = (.ok (), s) → R c { c with scopes := s }
  register {c c' : Context} {d : Definition} : c.register d = .ok c' → R c c'
  /-- closing a scope that was opened before -/
  leave {c c' : Context} :
    R { c with scopes := c.scopes.push } c' → R c { c' with scopes := c'.scopes.pop }
  /-- returning from a call whose parameters were bound in a scope of its own -/
  returned {c c' : Context} {params : List (String × Ty)} {values : List (Option Value)}
    {s : Scopes} : bindParams c.scopes.push params values = .ok (some s) →
    R { c with scopes := s, callDepth := c.callDepth + 1 } c' →
    R c { c' with scopes := c'.scopes.pop, callDepth := c'.callDepth - 1 }

namespace Eval.Relates

variable {α β : Type} {R : Context → Context → Prop}

/-- After reading the context, what follows may depend on it. -/
theorem get_bind {f : Context → Eval β} (hf : ∀ c b c', (f c).run c = some (b, c') → R c c') :
    Relates R (get >>= f) := by
  intro c b c'' h
  obtain ⟨a, c', h1, h2⟩ := run_bind_eq_some.mp h
  obtain ⟨rfl, rfl⟩ := run_get_eq_some.mp h1
  exact hf c b c'' h2

theorem modify {f : Context → Context} (hf : ∀ c, R c (f c)) :
    Relates R (modify f : Eval Unit) := by
  intro c a c' h
  rw [← run_modify_eq_some.mp h]
  exact hf c

theorem exhausted : Relates R (exhausted : Eval α) := by
  intro c a c' h
  cases h

end Eval.Relates

/-! ## Expressions -/

namespace Reporting

variable {α β : Type} {R : Context → Context → Prop}

theorem pure (hR : Reporting R) (a : α) : Relates R (pure a) := by
  intro c b c' h
  obtain ⟨-, rfl⟩ := run_pure_eq_some.mp h
  exact hR.refl c

theorem bind (hR : Reporting R) {m : Eval α} {f : α → Eval β} (hm : Relates R m)
    (hf : ∀ a, Relates R (f a)) : Relates R (m >>= f) := by
  intro c b c'' h
  obtain ⟨a, c', h1, h2⟩ := run_bind_eq_some.mp h
  exact hR.trans (hm c a c' h1) (hf a c' b c'' h2)

theorem report (hR : Reporting R) (fault : Fault) (line : Nat) : Relates R (report fault line) :=
  .modify fun c => hR.record c (.runtime fault line)

theorem settle (hR : Reporting R) (line : Nat) (result : Except Fault α) :
    Relates R (settle line result) := by
  cases result with
  | ok a => exact hR.pure (some a)
  | error fault => exact hR.bind (hR.report fault line) fun _ => hR.pure none

theorem read (hR : Reporting R) (ev : Evaluator) (bound id line : Nat) (x : String) :
    Relates R (step ev bound ⟨id, line, .read x⟩) := by
  refine .get_bind fun c a c' h => ?_
  split at h
  · exact hR.pure _ c a c' h
  · exact hR.settle line _ c a c' h

section Evaluator

variable {ev : Evaluator} (hR : Reporting R)

include hR

theorem required {n : Node} (h : Relates R (ev n)) (missing : Fault) :
    Relates R (required ev missing n) := by
  refine .get_bind fun c a c' hrun => ?_
  obtain ⟨value, c1, h1, hrun⟩ := run_bind_eq_some.mp hrun
  refine hR.trans (h c value c1 h1) ?_
  obtain ⟨_, _, h2, hrun⟩ := run_bind_eq_some.mp hrun
  obtain ⟨rfl, rfl⟩ := run_get_eq_some.mp h2
  split at hrun
  · exact hR.bind (hR.report missing n.line) (fun _ => hR.pure value) _ _ _ hrun
  · exact hR.pure value _ _ _ hrun

theorem operand {n : Node} (h : Relates R (ev n)) : Relates R (operand ev n) := hR.required h _

theorem combine {left right : Node} (hleft : Relates R (ev left)) (hright : Relates R (ev right))
    (line : Nat) (f : Value → Value → Except Fault Value) :
    Relates R (combine ev line left right f) := by
  refine hR.bind (hR.operand hleft) fun a => hR.bind (hR.operand hright) fun b => ?_
  cases a <;> cases b <;> first | exact hR.pure none | exact hR.settle line _

theorem transform {n : Node} (h : Relates R (ev n)) (line : Nat) (f : Value → Except Fault Value) :
    Relates R (transform ev line n f) := by
  refine hR.bind (hR.operand h) fun a => ?_
  cases a with
  | none => exact hR.pure none
  | some a => exact hR.settle line (f a)

theorem guard {n : Node} (h : Relates R (ev n)) : Relates R (guard ev n) := by
  refine hR.bind (hR.operand h) fun a => ?_
  split
  · exact hR.pure _
  · exact hR.bind (hR.report _ n.line) fun _ => hR.pure none
  · exact hR.pure none

end Evaluator

end Reporting

/-! ## Blocks and loops -/

namespace Lasting

variable {α : Type} {R : Context → Context → Prop}

/-- Replacing the scopes by scopes that the relation allows. -/
theorem setScopes (hR : Lasting R) {c c' : Context} {line : Nat} {change : Change Unit Scopes}
    (hchange : change.AllOrNothing c.scopes)
    (hok : ∀ s, change = (.ok (), s) → R c { c with scopes := s }) {a : Unit}
    (h : (setScopes line change).run c = some (a, c')) : R c c' := by
  obtain ⟨result, s⟩ := change
  cases result with
  | ok u =>
    obtain ⟨-, rfl⟩ := run_pure_eq_some.mp h
    exact hok s rfl
  | error fault =>
    rw [run_setScopes_error hchange rfl] at h
    exact hR.report fault line c a c' h

theorem inScope (hR : Lasting R) {m : Eval α} (hm : Relates R m) : Relates R (inScope m) := by
  intro c a c' h
  obtain ⟨_, c1, h1, h⟩ := run_bind_eq_some.mp h
  obtain ⟨b, c2, h2, h⟩ := run_bind_eq_some.mp h
  obtain ⟨_, c3, h3, h⟩ := run_bind_eq_some.mp h
  obtain ⟨-, rfl⟩ := run_pure_eq_some.mp h
  rw [← run_modify_eq_some.mp h3]
  rw [← run_modify_eq_some.mp h1] at h2
  exact hR.leave (hm _ b c2 h2)

section Evaluator

variable {ev : Evaluator} (hR : Lasting R) (hev : ∀ n, Relates R (ev n))

include hR hev

theorem sequence (statements : List Node) :
    ∀ last, Relates R (sequence ev last statements) := by
  induction statements with
  | nil => intro last; exact hR.pure last
  | cons n ns ih =>
    intro last
    unfold Eval.sequence
    split
    · exact ih last
    · exact hR.bind (hev n) ih

theorem repeatWhile (guardNode : Node) {turn : Eval (Option Value)} (hturn : Relates R turn) :
    ∀ bound last, Relates R (repeatWhile ev guardNode turn bound last) := by
  intro bound
  induction bound with
  | zero => intro last; exact .exhausted
  | succ bound ih =>
    intro last
    refine hR.bind (hR.guard (hev guardNode)) fun g => ?_
    split
    · exact hR.bind hturn ih
    · exact hR.pure last

/-! ## Functions -/

theorem operands (ns : List Node) : Relates R (operands ev ns) := by
  induction ns with
  | nil => exact hR.pure []
  | cons n ns ih =>
    exact hR.bind (hR.operand (hev n)) fun _ => hR.bind ih fun _ => hR.pure _

theorem enter {c c' : Context} {d : Definition} {values : List (Option Value)} {s : Scopes}
    {a : Option Value} (hs : bindParams c.scopes.push d.params values = .ok (some s))
    (h : (enter ev d s).run c = some (a, c')) : R c c' := by
  obtain ⟨_, c1, h1, h⟩ := run_bind_eq_some.mp h
  obtain ⟨b, c2, h2, h⟩ := run_bind_eq_some.mp h
  obtain ⟨_, c3, h3, h⟩ := run_bind_eq_some.mp h
  obtain ⟨-, rfl⟩ := run_pure_eq_some.mp h
  rw [← run_modify_eq_some.mp h3]
  rw [← run_modify_eq_some.mp h1] at h2
  exact hR.returned hs (hev d.body _ b c2 h2)

theorem apply (line : Nat) (d : Definition) (values : List (Option Value)) :
    Relates R (apply ev line d values) := by
  refine .get_bind fun c a c' h => ?_
  split at h
  · exact hR.settle line _ c a c' h
  · split at h
    · exact hR.settle line _ c a c' h
    · split at h
      · exact hR.settle line _ c a c' h
      · exact hR.pure none c a c' h
      · next s hs => exact hR.enter hev hs h

theorem call (line : Nat) (f : String) (args : Option Node) : Relates R (call ev line f args) := by
  refine .get_bind fun c a c' h => ?_
  split at h
  · exact hR.settle line _ c a c' h
  · next d _ =>
    exact hR.bind (hR.operands hev _) (fun values => hR.apply hev line d values) c a c' h

end Evaluator

theorem defineFunction (hR : Lasting R) (line : Nat) (d : Definition) :
    Relates R (Eval.define line d) := by
  refine .get_bind fun c a c' h => ?_
  split at h
  · next c1 hc1 =>
    obtain ⟨_, c2, h2, h⟩ := run_bind_eq_some.mp h
    obtain ⟨-, rfl⟩ := run_pure_eq_some.mp h
    obtain rfl := run_set_eq_some.mp h2
    exact hR.register hc1
  · next fault _ => exact hR.bind (hR.report fault line) (fun _ => hR.pure none) c a c' h

/-! ## Evaluation -/

theorem step (hR : Lasting R) {ev : Evaluator} (hev : ∀ n, Relates R (ev n)) (bound : Nat)
    (n : Node) : Relates R (step ev bound n) := by
  obtain ⟨id, line, form⟩ := n
  cases form with
  | program body => exact hev body
  | block statements => exact hR.sequence hev statements none
  | scope body => exact hR.inScope (hev body)
  | branch guardNode body =>
    refine hR.bind (hR.guard (hev guardNode)) fun g => ?_
    split
    · exact hR.inScope (hev body)
    · exact hR.pure none
  | whileLoop guardNode body =>
    exact hR.inScope (hR.repeatWhile hev guardNode (hev body) bound none)
  | forLoop start guardNode stepNode body =>
    refine hR.inScope (hR.bind (hev start) fun _ => ?_)
    refine hR.repeatWhile hev guardNode ?_ bound none
    exact hR.bind (hev body) fun _ => hR.bind (hev stepNode) fun _ => hR.pure _
  | relation rel left right => exact hR.combine (hev left) (hev right) line _
  | arith op left right => exact hR.combine (hev left) (hev right) line _
  | print value =>
    exact hR.bind (hev value) fun _ => hR.bind (.modify fun c => hR.write c _) fun _ => hR.pure none
  | assign name value =>
    refine hR.bind (hR.operand (hev value)) fun a => ?_
    split
    · refine .get_bind fun c b c' h => ?_
      obtain ⟨_, c1, h1, h⟩ := run_bind_eq_some.mp h
      obtain ⟨-, rfl⟩ := run_pure_eq_some.mp h
      exact hR.setScopes (Scopes.allOrNothing_assign _ _ _) (fun s hs => hR.assign hs) h1
    · exact hR.pure none
  | declare name ty =>
    simp only [Eval.step]
    split
    · refine .get_bind fun c b c' h => ?_
      obtain ⟨_, c1, h1, h⟩ := run_bind_eq_some.mp h
      obtain ⟨-, rfl⟩ := run_pure_eq_some.mp h
      exact hR.setScopes (Scopes.allOrNothing_declare _ _ _) (fun s hs => hR.declare hs) h1
    · exact hR.pure none
  | define name value =>
    refine hR.bind (hR.required (hev value) _) fun a => ?_
    split
    · refine .get_bind fun c b c' h => ?_
      obtain ⟨_, c1, h1, h⟩ := run_bind_eq_some.mp h
      obtain ⟨-, rfl⟩ := run_pure_eq_some.mp h
      exact hR.setScopes (Scopes.allOrNothing_define _ _ _) (fun s hs => hR.define hs) h1
    · exact hR.pure none
  | cast value ty =>
    simp only [Eval.step]
    split
    · exact hR.transform (hev value) line _
    · exact hR.pure none
  | function name params body =>
    simp only [Eval.step]
    split
    · exact hR.defineFunction line _
    · exact hR.pure none
  | call name args =>
    simp only [Eval.step]
    split
    · exact hR.call hev line _ args
    · exact hR.pure none
  | math fn argument => exact hR.transform (hev argument) line _
  | read name => exact hR.read ev bound id line name
  | _ => exact hR.pure _

/-- A lasting relation holds between the two ends of every evaluation. -/
theorem relates_eval (hR : Lasting R) : ∀ bound n, Relates R (eval bound n) := by
  intro bound
  induction bound with
  | zero => intro n; exact .exhausted
  | succ bound ih => intro n; exact hR.step ih bound n

end Lasting

end Scriptlet
