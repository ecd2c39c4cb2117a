import Scriptlet.Operator
import Scriptlet.Ty

/-!
# Syntax trees

A program is a tree of nodes. A node has an id, the line it comes from, and a
form, which says what kind of statement or expression it is and holds its
children. `Form` is given for children of any type, so that one and the same
type also describes a node without its subtrees (`Form Unit`).

Not every tree is the tree of a program: a cast, for instance, holds two nodes,
and nothing forces the second one to be the name of a type. The evaluator and
the optimiser are defined on all trees.
-/

namespace Scriptlet

/-- The form of a node with children of type `α`. -/
inductive Form (α : Type) where
  /-- the root of a program, around its outermost block -/
  | program (block : α)
  /-- statements in order; a block alone opens no scope -/
  | block (statements : List α)
  /-- a block in braces that stands as a statement and opens a scope -/
  | scope (block : α)
  /-- `if (guard) body` -/
  | branch (guard body : α)
  /-- `while (guard) body` -/
  | whileLoop (guard body : α)
  /-- `for (start; guard; step) body` -/
  | forLoop (start guard step body : α)
  | relation (rel : Rel) (left right : α)
  | arith (op : Arith) (left right : α)
  /-- `print(value)` -/
  | print (value : α)
  /-- `name = value`, for a variable that exists -/
  | assign (name value : α)
  /-- `name: ty`, a variable without a value -/
  | declare (name ty : α)
  /-- `name := value`, a variable of the type of its first value -/
  | define (name value : α)
  /-- `static_cast(value, ty)` -/
  | cast (value ty : α)
  /-- the parameters of a function, each a name and a type -/
  | params (pairs : List (α × α))
  /-- the arguments of a call -/
  | args (values : List α)
  /-- `function name(params) = body`; without parameters there is no node for them -/
  | function (name : α) (params : Option α) (body : α)
  /-- `name(args)`; without arguments there is no node for them -/
  | call (name : α) (args : Option α)
  | math (fn : MathFn) (argument : α)
  /-- a comment; the text after the `#` -/
  | comment (text : String)
  | int (n : Int64)
  | float (x : Float)
  | str (s : String)
  | bool (b : Bool)
  /-- a name where it is bound: a target, a function, a parameter -/
  | binder (name : String)
  /-- a name where a variable is read -/
  | read (name : String)
  /-- the name of a type -/
  | ty (t : Ty)
  /-- the constant `PI` -/
  | pi
  deriving BEq, DecidableEq

/-- A node of a syntax tree. -/
structure Node where
  id : Nat
  line : Nat
  form : Form Node

namespace Form

variable {α β : Type}

/-- The children of a form in source order. -/
def children : Form α → List α
  | program body => [body]
  | block statements => statements
  | scope body => [body]
  | branch guard body => [guard, body]
  | whileLoop guard body => [guard, body]
  | forLoop start guard step body => [start, guard, step, body]
  | relation _ left right => [left, right]
  | arith _ left right => [left, right]
  | print value => [value]
  | assign name value => [name, value]
  | declare name type => [name, type]
  | define name value => [name, value]
  | cast value type => [value, type]
  | params pairs => pairs.flatMap fun pair => [pair.1, pair.2]
  | args values => values
  | function name parameters body => name :: (parameters.toList ++ [body])
  | call name arguments => name :: arguments.toList
  | math _ argument => [argument]
  | comment _ | int _ | float _ | str _ | bool _ | binder _ | read _ | ty _ | pi => []

/-- The form with every child replaced. -/
def map (f : α → β) : Form α → Form β
  | program body => program (f body)
  | block statements => block (statements.map f)
  | scope body => scope (f body)
  | branch guard body => branch (f guard) (f body)
  | whileLoop guard body => whileLoop (f guard) (f body)
  | forLoop start guard step body => forLoop (f start) (f guard) (f step) (f body)
  | relation rel left right => relation rel (f left) (f right)
  | arith op left right => arith op (f left) (f right)
  | print value => print (f value)
  | assign name value => assign (f name) (f value)
  | declare name type => declare (f name) (f type)
  | define name value => define (f name) (f value)
  | cast value type => cast (f value) (f type)
  | params pairs => params (pairs.map fun pair => (f pair.1, f pair.2))
  | args values => args (values.map f)
  | function name parameters body => function (f name) (parameters.map f) (f body)
  | call name arguments => call (f name) (arguments.map f)
  | math fn argument => math fn (f argument)
  | comment text => comment text
  | int n => int n
  | float x => float x
  | str s => str s
  | bool b => bool b
  | binder name => binder name
  | read name => read name
  | ty t => ty t
  | pi => pi

theorem children_map (f : α → β) (form : Form α) : (form.map f).children = form.children.map f := by
  cases form with
  | function _ parameters _ => cases parameters <;> rfl
  | call _ arguments => cases arguments <;> rfl
  | params pairs => simp [children, map, List.flatMap_map, List.map_flatMap]
  | _ => rfl

/-- The form alone, without the children. -/
def head (form : Form α) : Form Unit := form.map fun _ => ()

end Form

namespace Node

/-- The children of a node in source order. -/
def children (n : Node) : List Node := n.form.children

/-- The name a node stands for, where it is bound or read. -/
def name? (n : Node) : Option String :=
  match n.form with
  | .binder name => some name
  | .read name => some name
  | _ => none

/-- The name that a declaration, an assignment or a function definition binds. -/
def target? (n : Node) : Option String :=
  match n.form with
  | .assign name _ => name.name?
  | .declare name _ => name.name?
  | .define name _ => name.name?
  | .function name _ _ => name.name?
  | _ => none

/-- The statements of a block. -/
def statements? (n : Node) : Option (List Node) :=
  match n.form with
  | .block statements => some statements
  | _ => none

/-- Whether a node is an integer or a float literal. -/
def isNumber (n : Node) : Bool :=
  match n.form with
  | .int _ => true
  | .float _ => true
  | _ => false

/-- Whether a node is a comment. -/
def isComment (n : Node) : Bool :=
  match n.form with
  | .comment _ => true
  | _ => false

end Node

end Scriptlet
