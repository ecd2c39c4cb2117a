/-!
# Operators and built-in functions

The arithmetic operators, the relations and the mathematical functions of the
language, each with the text that stands for it in source and in messages.
-/

namespace Scriptlet

/-- A binary arithmetic operator. -/
inductive Arith where
  /-- addition of numbers, concatenation of strings -/
  | add
  | sub
  | mul
  /-- true division: the result is a float -/
  | div
  /-- exponentiation -/
  | pow
  deriving DecidableEq, Repr, Inhabited

/-- A relation between two values of one type. -/
inductive Rel where
  | lt
  | gt
  | le
  | ge
  | eq
  | ne
  deriving DecidableEq, Repr, Inhabited

/-- A built-in mathematical function. -/
inductive MathFn where
  | sin
  | cos
  | exp
  | sqrt
  /-- the natural logarithm -/
  | log
  deriving DecidableEq, Repr, Inhabited

namespace Arith

/-- The sign of an operator. -/
def symbol : Arith → String
  | add => "+"
  | sub => "-"
  | mul => "*"
  | div => "/"
  | pow => "^"

/-- Every operator, each once. -/
def all : List Arith := [add, sub, mul, div, pow]

/-- The operator a sign stands for. -/
def ofSymbol? (sign : String) : Option Arith := all.find? fun op => op.symbol == sign

theorem ofSymbol?_symbol (op : Arith) : ofSymbol? op.symbol = some op := by cases op <;> decide

end Arith

namespace Rel

/-- The sign of a relation. -/
def symbol : Rel → String
  | lt => "<"
  | gt => ">"
  | le => "<="
  | ge => ">="
  | eq => "=="
  | ne => "!="

/-- Every relation, each once. -/
def all : List Rel := [lt, gt, le, ge, eq, ne]

/-- The relation a sign stands for. -/
def ofSymbol? (sign : String) : Option Rel := all.find? fun rel => rel.symbol == sign

theorem ofSymbol?_symbol (rel : Rel) : ofSymbol? rel.symbol = some rel := by cases rel <;> decide

/-- Whether the relation holds between two things of which the first compares
    to the second as `order` says. -/
def holds : Rel → Ordering → Bool
  | lt, order => order == .lt
  | gt, order => order == .gt
  | le, order => order != .gt
  | ge, order => order != .lt
  | eq, order => order == .eq
  | ne, order => order != .eq

end Rel

namespace MathFn

/-- The name of a function in source text and in messages. -/
def name : MathFn → String
  | sin => "sin"
  | cos => "cos"
  | exp => "exp"
  | sqrt => "sqrt"
  | log => "log"

/-- Every function, each once. -/
def all : List MathFn := [sin, cos, exp, sqrt, log]

/-- The function a word names. -/
def ofName? (word : String) : Option MathFn := all.find? fun fn => fn.name == word

theorem ofName?_name (fn : MathFn) : ofName? fn.name = some fn := by cases fn <;> decide

end MathFn

end Scriptlet
