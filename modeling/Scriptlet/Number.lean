/-!
# Integers and floats

Integers are 64-bit signed words, floats are IEEE 754 doubles. This module
holds the exact passages between the two and the integers of mathematics:

* `word?`: an integer as a word, if it fits;
* `Parts`: a finite double as sign, mantissa and power of two;
* `truncate?`, `widen`, `roundTo`: the conversions the language uses.

Results: `word?_eq_some_iff`, the word of an integer is exact;
`word?_eq_none_iff`, it is missing exactly outside the range.
-/

namespace Scriptlet

/-! ## Words -/

/-- Whether an integer lies in the range of 64-bit signed words. -/
def InRange (n : Int) : Prop := -9223372036854775808 ≤ n ∧ n ≤ 9223372036854775807

instance (n : Int) : Decidable (InRange n) := inferInstanceAs (Decidable (_ ∧ _))

/-- The word of an integer, if it is in range. -/
def word? (n : Int) : Option Int64 := if InRange n then some (Int64.ofInt n) else none

theorem inRange_toInt (n : Int64) : InRange n.toInt := by
  have hlow := n.le_toInt
  have hhigh := n.toInt_lt
  unfold InRange
  omega

theorem word?_toInt (n : Int64) : word? n.toInt = some n := by
  simp [word?, inRange_toInt n]

theorem toInt_word? {n : Int} {w : Int64} (h : word? n = some w) : w.toInt = n := by
  unfold word? at h
  split at h
  · next hr =>
    cases h
    unfold InRange at hr
    exact Int64.toInt_ofInt_of_le (by omega) (by omega)
  · cases h

theorem word?_eq_some_iff {n : Int} {w : Int64} : word? n = some w ↔ w.toInt = n :=
  ⟨toInt_word?, fun h => h ▸ word?_toInt w⟩

theorem word?_eq_none_iff {n : Int} : word? n = none ↔ ¬ InRange n := by
  unfold word?
  split <;> simp_all

/-! ## Doubles -/

/-- A finite double `± mantissa · 2 ^ exponent`. -/
structure Parts where
  negative : Bool
  mantissa : Nat
  exponent : Int
  deriving DecidableEq, Repr

/-- The parts of a finite double; an infinity or a NaN has none. The mantissa
    has at most 53 bits, and fewer only at the least exponent `-1074`. -/
def Parts.ofFloat? (x : Float) : Option Parts :=
  let bits : Nat := x.toBits.toNat
  let negative := bits / Nat.pow 2 63 == 1
  let scale : Nat := bits / Nat.pow 2 52 % Nat.pow 2 11
  let fraction : Nat := bits % Nat.pow 2 52
  if scale = Nat.pow 2 11 - 1 then none
  else if scale = 0 then some ⟨negative, fraction, -1074⟩
  else some ⟨negative, fraction + Nat.pow 2 52, (scale : Int) - 1075⟩

/-- The integer next to the double in the direction of zero. -/
def Parts.toInt (p : Parts) : Int :=
  let magnitude : Nat :=
    if 0 ≤ p.exponent then p.mantissa * Nat.pow 2 p.exponent.toNat
    else p.mantissa / Nat.pow 2 (-p.exponent).toNat
  if p.negative then -(magnitude : Int) else magnitude

/-- A float truncated toward zero; none if it is not finite or its integral
    part is no word. -/
def truncate? (x : Float) : Option Int64 := (Parts.ofFloat? x).bind fun p => word? p.toInt

/-- The float nearest to an integer; of two equally near, the one with the even
    mantissa. -/
def widen (n : Int64) : Float := Float.ofInt n.toInt

/-- A float rounded to a number of decimal places, a half going away from zero.
    A float too large to have that many places is left alone. -/
def roundTo (places : Nat) (x : Float) : Float :=
  let factor := Float.ofNat (Nat.pow 10 places)
  let scaled := x * factor
  if scaled.isFinite then scaled.round / factor else x

end Scriptlet
