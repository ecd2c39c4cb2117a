import Scriptlet.Number

/-!
# The shortest decimal of a double

Every real number in a certain interval around a double rounds to that double.
The shortest decimal of the double is the decimal of that interval that has the
fewest digits, and of those with equally many the one nearest to the double; of
two equally near ones it is the larger.

All comparisons are made between natural numbers, so that nothing is rounded on
the way.
-/

namespace Scriptlet.Decimal

/-- The decimal `coefficient · 10 ^ exponent`. -/
structure Digits where
  coefficient : Nat
  exponent : Int
  deriving DecidableEq, Repr

namespace Digits

/-- The digits of the coefficient, the first not `0` unless it is all there is. -/
def toList (d : Digits) : List Char := Nat.toDigits 10 d.coefficient

/-- The power of ten of the first digit. -/
def magnitude (d : Digits) : Int := d.exponent + d.toList.length - 1

/-- The same decimal without zeros at the end of its coefficient. The first
    argument bounds the number of zeros that are dropped. -/
def dropZeros : Nat → Digits → Digits
  | 0, d => d
  | n + 1, d =>
    if d.coefficient ≠ 0 ∧ d.coefficient % 10 = 0 then
      dropZeros n ⟨d.coefficient / 10, d.exponent + 1⟩
    else d

end Digits

/-- The real numbers that round to the positive double `value`, all multiplied
    by one common scale. The ends belong to the interval iff `closed`. -/
structure Interval where
  low : Nat
  value : Nat
  high : Nat
  closed : Bool

/-- Whether a number, on the scale of the interval, lies in it. -/
def Interval.contains (i : Interval) (n : Nat) : Bool :=
  if i.closed then i.low ≤ n && n ≤ i.high else i.low < n && n < i.high

/-- The rounding interval of a positive double and the grid of the multiples of
    `10 ^ k`, on one scale; the second component is the distance between two
    points of the grid. Below a power of two the doubles are twice as dense, so
    that the interval reaches half as far down. -/
def interval (p : Parts) (k : Int) : Interval × Nat :=
  let tens := Nat.pow 10 (-k).toNat
  let unit := Nat.pow 10 k.toNat * Nat.pow 2 (2 - p.exponent).toNat
  let scale := tens * Nat.pow 2 (p.exponent - 2).toNat
  let m := 4 * p.mantissa
  let below := if p.mantissa = Nat.pow 2 52 ∧ -1074 < p.exponent then 1 else 2
  (⟨(m - below) * scale, m * scale, (m + 2) * scale, p.mantissa % 2 == 0⟩, unit)

/-- The multiple of `10 ^ k` that is nearest to the double, if it or its
    neighbour on the other side of the double lies in the interval. -/
def onGrid? (p : Parts) (k : Int) : Option Digits :=
  let (i, unit) := interval p k
  let down := i.value / unit
  let up := down + 1
  let downFits := i.contains (down * unit)
  let upFits := i.contains (up * unit)
  let upNearer := up * unit - i.value ≤ i.value - down * unit
  if upFits && (!downFits || upNearer) then some ⟨up, k⟩
  else if downFits then some ⟨down, k⟩
  else none

/-- The largest power of ten that is at most the positive double. -/
def leadingExponent (p : Parts) : Int :=
  let shift : Nat := 340
  let scaled : Nat :=
    if 0 ≤ p.exponent then p.mantissa * Nat.pow 2 p.exponent.toNat * Nat.pow 10 shift
    else p.mantissa * Nat.pow 10 shift / Nat.pow 2 (-p.exponent).toNat
  ((Nat.toDigits 10 scaled).length : Int) - 1 - shift

/-- The first of the grids with `count`, `count + 1`, … digits that has a point
    in the interval; at most `n` grids are tried. -/
def searchGrids (p : Parts) (lead : Int) : Nat → Nat → Digits
  | 0, _ => ⟨p.mantissa, p.exponent⟩
  | n + 1, count =>
    match onGrid? p (lead - count + 1) with
    | some d => d
    | none => searchGrids p lead n (count + 1)

/-- The shortest decimal of a double, its sign left aside. Seventeen digits
    always suffice. -/
def shortest (p : Parts) : Digits :=
  if p.mantissa = 0 then ⟨0, 0⟩
  else (searchGrids p (leadingExponent p) 17 1).dropZeros 17

end Scriptlet.Decimal
