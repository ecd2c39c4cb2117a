import Scriptlet.Fault
import Scriptlet.Text.Blank
import Scriptlet.Text.Numeral

/-!
# Conversion between types

A value converts to its own type unchanged. Otherwise:

* to `int`: a float is truncated toward zero, a truth value is zero or one, and
  a string is read as an integer, or else as a decimal that is then truncated;
* to `float`: an integer is widened, a string is read as a decimal;
* to `string`: the text the value is printed as;
* to `bool`: whether the value counts as true.

White space around the number in a string does not matter.
-/

namespace Scriptlet.Value

/-- The integer a string stands for. -/
def readInt? (s : String) : Option Int64 :=
  let text := Text.trim s.toList
  ((Text.integer? text).bind word?).or ((Text.decimal? text).bind truncate?)

/-- The float a string stands for. -/
def readFloat? (s : String) : Option Float := Text.decimal? (Text.trim s.toList)

/-- The counterpart of a value in another type, if it has one. -/
def convert? : Value → Ty → Option Value
  | int n, .int => some (int n)
  | float x, .int => (truncate? x).map int
  | str s, .int => (readInt? s).map int
  | bool b, .int => some (int (if b then 1 else 0))
  | int n, .float => some (float (widen n))
  | float x, .float => some (float x)
  | str s, .float => (readFloat? s).map float
  | bool b, .float => some (float (if b then 1 else 0))
  | value, .string => some (str value.text)
  | bool b, .bool => some (bool b)
  | value, .bool => some (bool value.isTruthy)

/-- Converts a value to a type. -/
def cast (value : Value) (target : Ty) : Except Fault Value :=
  match value.convert? target with
  | some result => .ok result
  | none => .error (.mismatch (.conversion value target))

/-- A converted value has the wanted type. -/
theorem ty_of_convert? {value result : Value} {target : Ty}
    (h : value.convert? target = some result) : result.ty = target := by
  cases value <;> cases target <;>
    simp only [convert?, Option.some.injEq, Option.map_eq_some_iff] at h
  all_goals first
    | (subst h; rfl)
    | (obtain ⟨_, _, rfl⟩ := h; rfl)

theorem ty_of_cast {value result : Value} {target : Ty} (h : value.cast target = .ok result) :
    result.ty = target := by
  unfold cast at h
  split at h
  · cases h; exact ty_of_convert? (by assumption)
  · cases h

/-- A value converts to its own type unchanged. -/
theorem cast_self (value : Value) : value.cast value.ty = .ok value := by
  cases value <;> rfl

end Scriptlet.Value
