import Scriptlet.Number

/-!
# Reading numbers

* `digits?`: an unsigned integer, one or more ASCII digits;
* `integer?`: the same with an optional sign;
* `decimal?`: a decimal fraction with an optional sign and exponent, or one of
  the words for infinity and NaN.

A decimal denotes the double nearest to it.
-/

namespace Scriptlet.Text

/-- The number written by a run of ASCII digits. -/
def digitsValue (ds : List Char) : Nat := ds.foldl (fun n c => n * 10 + (c.toNat - '0'.toNat)) 0

/-- Reads one or more digits and nothing else. -/
def digits? (text : List Char) : Option Nat :=
  if text ≠ [] ∧ text.all Char.isDigit then some (digitsValue text) else none

/-- Splits off a leading sign; `true` stands for minus. -/
def splitSign : List Char → Bool × List Char
  | '-' :: rest => (true, rest)
  | '+' :: rest => (false, rest)
  | text => (false, text)

/-- Reads an optional sign and one or more digits. -/
def integer? (text : List Char) : Option Int :=
  let (negative, rest) := splitSign text
  (digits? rest).map fun n => if negative then -(n : Int) else n

/-- The double nearest to `coefficient · 10 ^ exponent`. Outside the exponents
    in which doubles live the result is known without the arithmetic. -/
def nearestFloat (coefficient : Nat) (exponent : Int) : Float :=
  let top := (Nat.toDigits 10 coefficient).length + exponent
  if coefficient = 0 ∨ top < -330 then Float.ofNat 0
  else if 310 < top then Float.ofBits 0x7ff0000000000000
  else if exponent < 0 then Float.ofScientific coefficient true exponent.natAbs
  else Float.ofScientific coefficient false exponent.natAbs

/-- Reads the part of a decimal after the mantissa: nothing, or `e` and an
    integer. -/
def exponent? : List Char → Option Int
  | [] => some 0
  | c :: rest => if c = 'e' ∨ c = 'E' then integer? rest else none

/-- Reads an unsigned decimal: digits with at most one point among or around
    them, at least one digit, and then possibly an exponent. -/
def unsignedDecimal? (text : List Char) : Option Float :=
  let whole := text.takeWhile Char.isDigit
  let (fraction, rest) : List Char × List Char :=
    match text.dropWhile Char.isDigit with
    | '.' :: rest => (rest.takeWhile Char.isDigit, rest.dropWhile Char.isDigit)
    | rest => ([], rest)
  if whole ++ fraction = [] then none
  else (exponent? rest).map fun e =>
    nearestFloat (digitsValue (whole ++ fraction)) (e - fraction.length)

/-- Reads the words for the values that are no finite number, in any letter
    case. -/
def special? (text : List Char) : Option Float :=
  let word := text.map Char.toLower
  if word = "inf".toList ∨ word = "infinity".toList then some (Float.ofBits 0x7ff0000000000000)
  else if word = "nan".toList then some (Float.ofBits 0x7ff8000000000000)
  else none

/-- Reads a decimal. -/
def decimal? (text : List Char) : Option Float :=
  let (negative, rest) := splitSign text
  ((special? rest).or (unsignedDecimal? rest)).map fun x => if negative then -x else x

end Scriptlet.Text
