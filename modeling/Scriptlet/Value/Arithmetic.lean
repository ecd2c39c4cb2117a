import Scriptlet.Fault

/-!
# Arithmetic and comparison of values

Both operands of an operator must have one type.

* Integers are exact: a sum, difference or product out of range is a fault, and
  never wraps around. Division is true division and yields a float. A power is
  computed in floats and truncated back.
* Floats follow IEEE 754, except that division by zero and a power of finite
  numbers that is not finite are faults.
* Truth values count as the integers zero and one; a power of them is a truth
  value again.
* Strings have concatenation only.

The evaluator and the constant folder share `Value.apply`.
-/

namespace Scriptlet.Value

/-- Arithmetic on floats. -/
def applyFloat (op : Arith) (a b : Float) : Except Fault Float :=
  match op with
  | .add => .ok (a + b)
  | .sub => .ok (a - b)
  | .mul => .ok (a * b)
  | .div => if b == 0 then .error (.arithmetic .divisionByZero) else .ok (a / b)
  | .pow =>
    let power := a.pow b
    if !power.isFinite && a.isFinite && b.isFinite then .error (.arithmetic (.power a b))
    else .ok power

/-- An exact integer as the result of `a op b`, unless it is out of range. -/
def inWord (op : Arith) (a b : Int64) (result : Option Int64) : Except Fault Value :=
  match result with
  | some n => .ok (int n)
  | none => .error (.arithmetic (.overflow op a b))

/-- Arithmetic on integers. -/
def applyInt (op : Arith) (a b : Int64) : Except Fault Value :=
  match op with
  | .add => inWord op a b (word? (a.toInt + b.toInt))
  | .sub => inWord op a b (word? (a.toInt - b.toInt))
  | .mul => inWord op a b (word? (a.toInt * b.toInt))
  | .div => (applyFloat .div (widen a) (widen b)).map float
  | .pow =>
    match applyFloat .pow (widen a) (widen b) with
    | .ok power => inWord op a b (truncate? power)
    | .error fault => .error fault

/-- A truth value as an integer. -/
def boolInt (b : Bool) : Int64 := if b then 1 else 0

/-- Arithmetic on truth values. -/
def applyBool (op : Arith) (a b : Bool) : Except Fault Value :=
  match applyInt op (boolInt a) (boolInt b) with
  | .ok (int n) => .ok (if op = .pow then bool (n != 0) else int n)
  | result => result

/-- Applies an operator to two values. -/
def apply (op : Arith) (left right : Value) : Except Fault Value :=
  match left, right with
  | int a, int b => applyInt op a b
  | float a, float b => (applyFloat op a b).map float
  | bool a, bool b => applyBool op a b
  | str a, str b =>
    if op = .add then .ok (str (a ++ b)) else .error (.mismatch (.notForStrings op))
  | left, right => .error (.mismatch (.operands op left.ty right.ty))

/-- How two floats compare; a NaN does not compare with anything. -/
def compareFloat (a b : Float) : Option Ordering :=
  if a < b then some .lt else if a > b then some .gt else if a == b then some .eq else none

/-- How two values of one type compare: numbers by size, strings by the code
    points of their characters, `false` before `true`. -/
def ordering (left right : Value) : Except Fault (Option Ordering) :=
  match left, right with
  | int a, int b => .ok (some (compare a.toInt b.toInt))
  | float a, float b => .ok (compareFloat a b)
  | str a, str b => .ok (some (compareOfLessAndEq a b))
  | bool a, bool b => .ok (some (compare a.toNat b.toNat))
  | left, right => .error (.mismatch (.comparison left.ty right.ty))

/-- Whether a relation holds. Things that do not compare are different. -/
def relate (rel : Rel) (left right : Value) : Except Fault Bool :=
  (ordering left right).map fun
    | some order => rel.holds order
    | none => rel = .ne

/-- The number of decimal places that mathematical functions are rounded to. -/
def mathPlaces : Nat := 5

/-- A mathematical function of a float, before rounding. -/
def mathResult (fn : MathFn) (x : Float) : Except Fault Float :=
  match fn with
  | .sin => .ok x.sin
  | .cos => .ok x.cos
  | .exp => .ok x.exp
  | .sqrt => if x < 0 then .error (.arithmetic (.rootOfNegative x)) else .ok x.sqrt
  | .log => if x ≤ 0 then .error (.arithmetic (.logOfNonPositive x)) else .ok x.log

/-- Applies a mathematical function to a value. The result is a float rounded
    to five places, and never a negative zero. -/
def applyMath (fn : MathFn) (argument : Value) : Except Fault Value :=
  match argument.asFloat? with
  | none => .error (.mismatch (.notANumber fn argument.ty))
  | some x =>
    match mathResult fn x with
    | .error fault => .error fault
    | .ok result =>
      if !result.isFinite && x.isFinite then .error (.arithmetic (.tooLarge fn x))
      else .ok (float (roundTo mathPlaces result + 0))

end Scriptlet.Value
