import Scriptlet.Decimal.Shortest

/-!
# How floats are written

A float is written with its shortest digits. Two layouts are in use:

* `literal` for values, tokens and diagrams: always with a fractional part or an
  exponent, so that a float is never mistaken for an integer;
* `plain` inside messages about arithmetic: never with an exponent, and a whole
  number without a point.
-/

namespace Scriptlet.Decimal

/-- The choices a layout makes. -/
structure Layout where
  /-- whether a number whose first digit stands at this power of ten is written
      without an exponent -/
  positional : Int → Bool
  /-- whether a whole number in positional form ends in `.0` -/
  wholePoint : Bool

/-- Values of a moderate size are written in positional form, and always with a
    point; all others with an exponent. -/
def literal : Layout where
  positional magnitude := -4 ≤ magnitude && magnitude < 16
  wholePoint := true

/-- Every number is written in positional form, a whole one without a point. -/
def plain : Layout where
  positional _ := true
  wholePoint := false

/-- A decimal without exponent. -/
def positionalText (wholePoint : Bool) (d : Digits) : List Char :=
  let ds := d.toList
  if 0 ≤ d.exponent then
    ds ++ List.replicate d.exponent.toNat '0' ++ (if wholePoint then ['.', '0'] else [])
  else
    let places := d.exponent.natAbs
    let padded := List.replicate (places + 1 - ds.length) '0' ++ ds
    padded.take (padded.length - places) ++ '.' :: padded.drop (padded.length - places)

/-- A decimal with one digit before the point and an exponent. -/
def scientificText (d : Digits) : List Char :=
  let exponent := (toString d.magnitude).toList
  match d.toList with
  | [] => []
  | [c] => c :: 'e' :: exponent
  | c :: cs => c :: '.' :: cs ++ 'e' :: exponent

/-- The text of a float in a layout. -/
def render (layout : Layout) (x : Float) : String :=
  match Parts.ofFloat? x with
  | none => if x.isNaN then "NaN" else if x < 0 then "-inf" else "inf"
  | some p =>
    let d := shortest p
    let body :=
      if p.mantissa = 0 || layout.positional d.magnitude then positionalText layout.wholePoint d
      else scientificText d
    String.ofList (if p.negative then '-' :: body else body)

end Scriptlet.Decimal
