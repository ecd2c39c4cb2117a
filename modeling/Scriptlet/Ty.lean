/-!
# The four primitive types

Every value of the language has one of the types `int`, `float`, `string` and
`bool`. A variable keeps the type it was declared with.
-/

namespace Scriptlet

/-- A primitive type. -/
inductive Ty where
  /-- 64-bit signed integers -/
  | int
  /-- double precision floating-point numbers -/
  | float
  /-- texts -/
  | string
  /-- truth values -/
  | bool
  deriving DecidableEq, Repr, Inhabited

namespace Ty

/-- The word for a type in source text and in messages. -/
def name : Ty → String
  | int => "int"
  | float => "float"
  | string => "string"
  | bool => "bool"

/-- Every type, each once. -/
def all : List Ty := [int, float, string, bool]

/-- The type a word names. Letter case matters. -/
def ofName? (word : String) : Option Ty := all.find? fun ty => ty.name == word

theorem mem_all (ty : Ty) : ty ∈ all := by cases ty <;> decide

theorem ofName?_name (ty : Ty) : ofName? ty.name = some ty := by cases ty <;> decide

end Ty

end Scriptlet
