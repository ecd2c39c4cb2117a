import Scriptlet.Fault

/-!
# Scopes

Variables live in nested scopes. A read goes from the innermost scope outwards
to the first scope that binds the name. An assignment looks at the innermost
scope and at the global one only: a block inside a function can read the
variables of the function's body, but not overwrite them. A declaration binds
in the innermost scope.

The global scope is always there, so `Scopes` keeps it apart from the inner
ones.
-/

namespace Scriptlet

/-- The names that cannot be declared. -/
def reservedNames : List String :=
  ["if", "while", "for", "function", "print", "static_cast", "true", "false", "int", "float",
    "string", "bool"]

/-- Whether a name is reserved; the case of ASCII letters does not matter. -/
def isReserved (name : String) : Bool := reservedNames.contains (name.map Char.toLower)

/-- A variable: the type it was declared with, and its value if it has one. -/
structure Variable where
  ty : Ty
  value : Option Value
  deriving DecidableEq

/-- What a change comes to: its result or the reason why it failed, and the state
    that it leaves in either case. -/
abbrev Change (ρ σ : Type) := Except Fault ρ × σ

/-- The state after a change if it was made, where a failed change is of no use. -/
def Change.made {ρ σ : Type} (change : Change ρ σ) : Except Fault σ :=
  change.1.map fun _ => change.2

instance {ρ σ : Type} : CoeOut (Change ρ σ) (Except Fault σ) := ⟨Change.made⟩

/-- The variables of one scope. A name is bound at most once. -/
abbrev Scope := List (String × Variable)

namespace Scope

/-- The variable a name is bound to in this scope. -/
def find? (scope : Scope) (name : String) : Option Variable := List.lookup name scope

/-- Binds a new name. -/
def bind (scope : Scope) (name : String) (v : Variable) : Change Unit Scope :=
  if isReserved name then (.error (.reservedName name), scope)
  else if (scope.find? name).isSome then (.error (.alreadyExists name), scope)
  else (.ok (), (name, v) :: scope)

/-- Gives a bound name a value, whatever its type. -/
def store (scope : Scope) (name : String) (value : Value) : Scope :=
  scope.map fun (x, v) => if x = name then (x, { v with value := some value }) else (x, v)

/-- Gives a name a value of its declared type, if the name is bound here; the
    result is whether it is. -/
def assign (scope : Scope) (name : String) (value : Value) : Change Bool Scope :=
  match scope.find? name with
  | none => (.ok false, scope)
  | some v =>
    if v.ty = value.ty then (.ok true, scope.store name value)
    else (.error (.mismatch (.assignment value name v.ty)), scope)

end Scope

/-- The scopes of a running program. -/
structure Scopes where
  /-- the scopes inside the global one, the innermost first -/
  inner : List Scope
  globals : Scope

namespace Scopes

/-- The global scope alone, with nothing in it. -/
def initial : Scopes := ⟨[], []⟩

/-- The number of scopes. -/
def depth (s : Scopes) : Nat := s.inner.length + 1

/-- All scopes, the innermost first. -/
def toList (s : Scopes) : List Scope := s.inner ++ [s.globals]

/-- The innermost scope. -/
def top (s : Scopes) : Scope := s.inner.headD s.globals

/-- The same scopes with another innermost one. -/
def setTop (s : Scopes) (scope : Scope) : Scopes :=
  match s.inner with
  | [] => { s with globals := scope }
  | _ :: rest => { s with inner := scope :: rest }

/-- Opens a scope. -/
def push (s : Scopes) : Scopes := { s with inner := [] :: s.inner }

/-- Closes the innermost scope. The global scope stays. -/
def pop (s : Scopes) : Scopes := { s with inner := s.inner.tail }

/-- The scopes after a change of the innermost one. -/
def onTop {ρ : Type} (s : Scopes) (change : Change ρ Scope) : Change ρ Scopes :=
  (change.1, s.setTop change.2)

/-- The scopes after a change of the global one. -/
def onGlobals {ρ : Type} (s : Scopes) (change : Change ρ Scope) : Change ρ Scopes :=
  (change.1, { s with globals := change.2 })

/-- Declares a name without a value in the innermost scope. -/
def declare (s : Scopes) (name : String) (ty : Ty) : Change Unit Scopes :=
  s.onTop (s.top.bind name ⟨ty, none⟩)

/-- Declares a name in the innermost scope with a value, whose type it takes. -/
def define (s : Scopes) (name : String) (value : Value) : Change Unit Scopes :=
  s.onTop (s.top.bind name ⟨value.ty, some value⟩)

/-- Gives a name of the innermost or else of the global scope a new value. -/
def assign (s : Scopes) (name : String) (value : Value) : Change Unit Scopes :=
  match s.onTop (s.top.assign name value) with
  | (.error fault, s) => (.error fault, s)
  | (.ok true, s) => (.ok (), s)
  | (.ok false, s) =>
    match s.onGlobals (s.globals.assign name value) with
    | (.error fault, s) => (.error fault, s)
    | (.ok true, s) => (.ok (), s)
    | (.ok false, s) => (.error (.undeclared name), s)

/-- The variable that a read of a name finds. -/
def find? (s : Scopes) (name : String) : Option Variable :=
  s.toList.findSome? fun scope => scope.find? name

/-- Reads a name. A declared variable may have no value. -/
def get (s : Scopes) (name : String) : Except Fault (Option Value) :=
  match s.find? name with
  | some v => .ok v.value
  | none => .error (.undeclared name)

/-- Whether a new function may take a name: it must not be reserved, nor be
    bound in any scope. -/
def available (s : Scopes) (name : String) : Except Fault Unit :=
  if isReserved name then .error (.reservedName name)
  else if (s.find? name).isSome then .error (.redefinition name)
  else .ok ()

end Scopes

end Scriptlet
