import Scriptlet.Decimal.Layout
import Scriptlet.Ty

/-!
# Values

What an expression yields. A statement without a result, and a failed one,
yields no value at all; that is `none : Option Value` where it matters, never a
value of its own.
-/

namespace Scriptlet

/-- A value of one of the primitive types. -/
inductive Value where
  | int (n : Int64)
  | float (x : Float)
  | str (s : String)
  | bool (b : Bool)
  deriving DecidableEq, Inhabited

namespace Value

/-- The type of a value. -/
def ty : Value → Ty
  | int _ => .int
  | float _ => .float
  | str _ => .string
  | bool _ => .bool

/-- The text of an integer: decimal digits, a minus sign before a negative one. -/
def intText (n : Int64) : String := toString n.toInt

/-- The word for a truth value. -/
def boolText (b : Bool) : String := if b then "true" else "false"

/-- The text a value is printed as. -/
def text : Value → String
  | int n => intText n
  | float x => Decimal.render Decimal.literal x
  | str s => s
  | bool b => boolText b

/-- Whether a value counts as true: a number other than zero, a string other
    than the empty one, or `true`. A NaN is a number other than zero. -/
def isTruthy : Value → Bool
  | int n => n != 0
  | float x => x != 0
  | str s => s != ""
  | bool b => b

/-- The value as a number. Truth values count as zero and one; strings are no
    numbers. -/
def asFloat? : Value → Option Float
  | int n => some (widen n)
  | float x => some x
  | str _ => none
  | bool b => some (if b then 1 else 0)

end Value

end Scriptlet
