import Scriptlet.Operator
import Scriptlet.Value

/-!
# What can go wrong while a program runs

A fault says what failed and with which names, types and values. It carries no
line; the line of the failing part of the program is added when the fault is
reported. The wording is in `Fault.message` and nowhere else.
-/

namespace Scriptlet

/-- Values or types that do not fit together. -/
inductive Mismatch where
  /-- an operator that strings do not have -/
  | notForStrings (op : Arith)
  /-- operands of different types -/
  | operands (op : Arith) (left right : Ty)
  /-- a comparison of different types -/
  | comparison (left right : Ty)
  /-- a value that has no counterpart in the wanted type -/
  | conversion (value : Value) (target : Ty)
  /-- a value assigned to a variable of another type -/
  | assignment (value : Value) (name : String) (declared : Ty)
  /-- a mathematical function applied to something that is no number -/
  | notANumber (fn : MathFn) (found : Ty)
  /-- a guard that is no truth value -/
  | guard (found : Ty)
  /-- an operand that yields nothing; a variable is given by name -/
  | noValue (name : Option String)
  deriving DecidableEq

/-- Arithmetic without a result. -/
inductive Undefined where
  /-- an integer result out of range -/
  | overflow (op : Arith) (left right : Int64)
  | divisionByZero
  /-- a power of finite floats that is not finite -/
  | power (base exponent : Float)
  | rootOfNegative (x : Float)
  | logOfNonPositive (x : Float)
  /-- a mathematical function that exceeds the largest float -/
  | tooLarge (fn : MathFn) (x : Float)
  deriving DecidableEq

/-- The cause of a failure. -/
inductive Fault where
  /-- the name is already bound in the current scope -/
  | alreadyExists (name : String)
  /-- the name is a keyword or the name of a type -/
  | reservedName (name : String)
  /-- a word that names no type, or `none` for a definition without a value -/
  | invalidType (word : String)
  | mismatch (what : Mismatch)
  /-- the name is bound nowhere it is looked up -/
  | undeclared (name : String)
  /-- a call with the wrong number of arguments -/
  | arity (function : String) (expected found : Nat)
  /-- a function takes a name that is in use -/
  | redefinition (name : String)
  /-- a call of a function that does not exist -/
  | unknownFunction (name : String)
  | arithmetic (what : Undefined)
  /-- too many calls inside each other -/
  | callDepth (function : String) (limit : Nat)
  deriving DecidableEq

/-- What does not fit, in words. -/
def Mismatch.details : Mismatch → String
  | notForStrings op => s!"operator '{op.symbol}' is not defined for strings"
  | operands op left right => s!"cannot apply '{op.symbol}' to {left.name} and {right.name}"
  | comparison left right => s!"cannot compare {left.name} with {right.name}"
  | conversion value target =>
    s!"cannot convert {value.ty.name} '{value.text}' to {target.name}"
  | assignment value name declared =>
    s!"cannot assign {value.ty.name} '{value.text}' to '{name}' of type {declared.name}"
  | notANumber fn found => s!"{fn.name} expects a number, found {found.name}"
  | guard found => s!"condition must be bool, found {found.name}"
  | noValue none => "operand has no value"
  | noValue (some name) => s!"'{name}' has no value"

/-- Which arithmetic has no result, in words. -/
def Undefined.details : Undefined → String
  | overflow op left right =>
    s!"integer overflow in {Value.intText left} {op.symbol} {Value.intText right}"
  | divisionByZero => "division by zero"
  | power base exponent =>
    let base := Decimal.render Decimal.plain base
    let exponent := Decimal.render Decimal.plain exponent
    s!"{base} ^ {exponent} has no finite value"
  | rootOfNegative x => "sqrt of negative number " ++ Decimal.render Decimal.plain x
  | logOfNonPositive x => "log of non-positive number " ++ Decimal.render Decimal.plain x
  | tooLarge fn x =>
    let x := Decimal.render Decimal.plain x
    s!"{fn.name}({x}) overflows"

/-- The sentence that tells the user about a fault. -/
def Fault.message : Fault → String
  | alreadyExists name => s!"Variable '{name}' already exists in this scope."
  | reservedName name => s!"'{name}' is a keyword or type name and cannot be declared."
  | invalidType word => s!"'{word}' is not a valid type."
  | mismatch what => s!"Type mismatch: {what.details}."
  | undeclared name => s!"Undeclared name '{name}'."
  | arity function expected found =>
    s!"Function '{function}' expects {expected} argument(s) but {found} were given."
  | redefinition name => s!"Name '{name}' is already defined."
  | unknownFunction name => s!"Function '{name}' is not defined."
  | arithmetic what => s!"Arithmetic error: {what.details}."
  | callDepth function limit =>
    s!"Call to '{function}' exceeds the maximum call depth of {limit}."

end Scriptlet
