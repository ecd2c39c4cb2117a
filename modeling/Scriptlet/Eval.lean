import Scriptlet.Context
import Scriptlet.Value.Arithmetic
import Scriptlet.Value.Cast

/-!
# Evaluation

A node yields a value or nothing. Failures do not stop a program: a failing
node reports a fault and yields nothing, and evaluation goes on. A node whose
value is needed and that yields nothing is itself a fault, unless it has
already reported one.

Programs need not terminate. `eval` takes a bound on its depth and on the
number of turns of each loop, and gives `none` if the bound is too small; a
larger bound never changes a result. `Terminates` says that some bound is
enough.

The rules for each form are stated with the evaluator of the children as a
parameter; `eval` ties the knot.
-/

namespace Scriptlet

/-- A step of a running program; `none` if the bound was too small. -/
abbrev Eval := StateT Context Option

/-- Evaluates a node. -/
abbrev Evaluator := Node → Eval (Option Value)

namespace Eval

/-- The bound is used up. -/
def exhausted {α : Type} : Eval α := fun _ => none

/-- Reports a fault. -/
def report (fault : Fault) (line : Nat) : Eval Unit := modify fun c => c.report fault line

/-- A result, or nothing and a report. -/
def settle {α : Type} (line : Nat) : Except Fault α → Eval (Option α)
  | .ok result => return some result
  | .error fault => do
    report fault line
    return none

/-- Goes on with the scopes that a change leaves, and reports why it failed if it did. -/
def setScopes (line : Nat) (change : Change Unit Scopes) : Eval Unit := do
  modify fun c => { c with scopes := change.2 }
  match change.1 with
  | .ok () => return
  | .error fault => report fault line

/-- Runs a step inside a scope of its own. -/
def inScope {α : Type} (body : Eval α) : Eval α := do
  modify fun c => { c with scopes := c.scopes.push }
  let result ← body
  modify fun c => { c with scopes := c.scopes.pop }
  return result

/-! ## Operands -/

/-- Evaluates a node whose value is needed. If it yields nothing without any
    report, `missing` is reported. -/
def required (ev : Evaluator) (missing : Fault) (n : Node) : Eval (Option Value) := do
  let before := (← get).diagnostics.size
  let value ← ev n
  if value.isNone ∧ (← get).diagnostics.size = before then
    report missing n.line
  return value

/-- Evaluates an operand. -/
def operand (ev : Evaluator) (n : Node) : Eval (Option Value) :=
  required ev (.mismatch (.noValue n.name?)) n

/-- Evaluates two operands, the left one first, and combines their values if
    both have one. -/
def combine (ev : Evaluator) (line : Nat) (left right : Node)
    (f : Value → Value → Except Fault Value) : Eval (Option Value) := do
  let a ← operand ev left
  let b ← operand ev right
  match a, b with
  | some a, some b => settle line (f a b)
  | _, _ => return none

/-- Evaluates an operand and transforms its value if it has one. -/
def transform (ev : Evaluator) (line : Nat) (n : Node) (f : Value → Except Fault Value) :
    Eval (Option Value) := do
  match ← operand ev n with
  | some a => settle line (f a)
  | none => return none

/-! ## Blocks, guards and loops -/

/-- Evaluates statements in order. The result is that of the last statement, or
    `last` if there is none; comments do not count. -/
def sequence (ev : Evaluator) (last : Option Value) : List Node → Eval (Option Value)
  | [] => return last
  | n :: ns => do
    if n.isComment then sequence ev last ns
    else sequence ev (← ev n) ns

/-- Evaluates a guard, which must be a truth value. -/
def guard (ev : Evaluator) (n : Node) : Eval (Option Bool) := do
  match ← operand ev n with
  | some (.bool b) => return some b
  | some other => do
    report (.mismatch (.guard other.ty)) n.line
    return none
  | none => return none

/-- Takes turns as long as the guard holds. The result is that of the last
    turn, or `last` if there is none. -/
def repeatWhile (ev : Evaluator) (guardNode : Node) (turn : Eval (Option Value)) :
    Nat → Option Value → Eval (Option Value)
  | 0, _ => exhausted
  | bound + 1, last => do
    match ← guard ev guardNode with
    | some true => do
      let result ← turn
      repeatWhile ev guardNode turn bound result
    | _ => return last

/-! ## Functions -/

/-- The parameters that a node declares. -/
def paramsOf : Option Node → List (String × Ty)
  | some ⟨_, _, .params pairs⟩ => pairs.filterMap fun
    | (⟨_, _, .binder x⟩, ⟨_, _, .ty ty⟩) => some (x, ty)
    | _ => none
  | _ => []

/-- The argument nodes of a call. -/
def argsOf : Option Node → List Node
  | some ⟨_, _, .args values⟩ => values
  | _ => []

/-- Evaluates operands from left to right. -/
def operands (ev : Evaluator) : List Node → Eval (List (Option Value))
  | [] => return []
  | n :: ns => do
    let value ← operand ev n
    return value :: (← operands ev ns)

/-- Binds parameters in the innermost scope, each to its argument converted to
    its type. There is no result if an argument is absent; that has been
    reported where the argument was evaluated. -/
def bindParams (s : Scopes) :
    List (String × Ty) → List (Option Value) → Except Fault (Option Scopes)
  | _ :: _, none :: _ => .ok none
  | (x, ty) :: params, some value :: values =>
    match value.cast ty with
    | .error fault => .error fault
    | .ok value =>
      match (s.define x value : Except Fault Scopes) with
      | .error fault => .error fault
      | .ok s => bindParams s params values
  | _, _ => .ok (some s)

/-- Evaluates the body of a function on scopes to which the scope of the call
    has been added. -/
def enter (ev : Evaluator) (d : Definition) (s : Scopes) : Eval (Option Value) := do
  modify fun c => { c with scopes := s, callDepth := c.callDepth + 1 }
  let result ← ev d.body
  modify fun c => { c with scopes := c.scopes.pop, callDepth := c.callDepth - 1 }
  return result

/-- Calls a function with arguments that have been evaluated. -/
def apply (ev : Evaluator) (line : Nat) (d : Definition) (values : List (Option Value)) :
    Eval (Option Value) := do
  let c ← get
  if values.length ≠ d.params.length then
    settle line (.error (.arity d.name d.params.length values.length))
  else if c.maxCallDepth ≤ c.callDepth then
    settle line (.error (.callDepth d.name c.maxCallDepth))
  else
    match bindParams c.scopes.push d.params values with
    | .error fault => settle line (.error fault)
    | .ok none => return none
    | .ok (some s) => enter ev d s

/-- Evaluates a call: the function must exist, then the arguments are evaluated
    in the scopes of the caller. -/
def call (ev : Evaluator) (line : Nat) (f : String) (args : Option Node) : Eval (Option Value) := do
  match (← get).function? f with
  | none => settle line (.error (.unknownFunction f))
  | some d =>
    let values ← operands ev (argsOf args)
    apply ev line d values

/-- Adds a function to the context. -/
def define (line : Nat) (d : Definition) : Eval (Option Value) := do
  match (← get).register d with
  | .ok c => set c
  | .error fault => report fault line
  return none

/-! ## The evaluator -/

/-- Evaluates a node, given an evaluator for its children and a bound on the
    turns of a loop. -/
def step (ev : Evaluator) (bound : Nat) (n : Node) : Eval (Option Value) :=
  let line := n.line
  match n.form with
  | .program body => ev body
  | .block statements => sequence ev none statements
  | .scope body => inScope (ev body)
  | .branch guardNode body => do
    match ← guard ev guardNode with
    | some true => inScope (ev body)
    | _ => return none
  | .whileLoop guardNode body => inScope (repeatWhile ev guardNode (ev body) bound none)
  | .forLoop start guardNode stepNode body => inScope do
    let _ ← ev start
    let turn : Eval (Option Value) := do
      let result ← ev body
      let _ ← ev stepNode
      return result
    repeatWhile ev guardNode turn bound none
  | .relation rel left right =>
    combine ev line left right fun a b => (Value.relate rel a b).map .bool
  | .arith op left right => combine ev line left right (Value.apply op)
  | .print value => do
    let result ← ev value
    modify fun c => c.write (.printed ((result.map Value.text).getD "none"))
    return none
  | .assign name value => do
    match ← operand ev value, name.name? with
    | some value, some x => setScopes line ((← get).scopes.assign x value)
    | _, _ => pure ()
    return none
  | .declare name ty => do
    match name.name?, ty.form with
    | some x, .ty ty => setScopes line ((← get).scopes.declare x ty)
    | _, _ => pure ()
    return none
  | .define name value => do
    match ← required ev (.invalidType "none") value, name.name? with
    | some value, some x => setScopes line ((← get).scopes.define x value)
    | _, _ => pure ()
    return none
  | .cast value ty =>
    match ty.form with
    | .ty ty => transform ev line value fun a => a.cast ty
    | _ => return none
  | .function name params body =>
    match name.name? with
    | some f => define line ⟨f, paramsOf params, body⟩
    | none => return none
  | .call name args =>
    match name.name? with
    | some f => call ev line f args
    | none => return none
  | .math fn argument => transform ev line argument (Value.applyMath fn)
  | .read name => do
    match (← get).scopes.get name with
    | .ok value => return value
    | .error fault => settle line (.error fault)
  | .int n => return some (.int n)
  | .float x => return some (.float x)
  | .str s => return some (.str s)
  | .bool b => return some (.bool b)
  | .pi => return some (.float pi)
  | .comment _ | .params _ | .args _ | .binder _ | .ty _ => return none
where
  /-- The double nearest to π. -/
  pi : Float := 3.141592653589793

end Eval

/-- Evaluates a node within a bound. -/
def eval : Nat → Evaluator
  | 0, _ => Eval.exhausted
  | bound + 1, n => Eval.step (eval bound) bound n

/-- Evaluating a node in a context ends, with this value and this context. -/
def Evaluates (n : Node) (c : Context) (value : Option Value) (c' : Context) : Prop :=
  ∃ bound, (eval bound n).run c = some (value, c')

/-- Evaluating a node in a context ends. -/
def Terminates (n : Node) (c : Context) : Prop := ∃ value c', Evaluates n c value c'

end Scriptlet
