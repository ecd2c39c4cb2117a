import Scriptlet.SourceError
import Scriptlet.Text.Numeral

/-!
# Splitting a source into lexemes

A source is cut into consecutive pieces, from left to right, each as long as
possible. A piece is a token, a run of blanks, a line break, a number that is
out of range or, where nothing else fits, a single illegal character.

`Lexeme.read` finds the piece at the front of a text, `Lexeme.split` cuts a
whole text, and `tokenize` keeps the tokens and the errors together with their
lines. Lines are counted at line breaks; a lone carriage return is none.
-/

namespace Scriptlet

/-- What a piece of a source is. -/
inductive Reading where
  | token (t : Token)
  | blank
  | lineBreak
  /-- digits that denote no 64-bit integer -/
  | outOfRange
  /-- a character that starts no token -/
  | illegal (c : Char)
  deriving DecidableEq

/-- A piece of a source and what it is. -/
structure Lexeme where
  text : List Char
  reading : Reading
  deriving DecidableEq

namespace Lexeme

/-- Whether a character may start a name. -/
def startsWord (c : Char) : Bool := c.isAlpha || c == '_'

/-- Whether a character may continue a name. -/
def continuesWord (c : Char) : Bool := c.isAlphanum || c == '_'

/-- Whether a character may stand in a comment. -/
def inComment (c : Char) : Bool := c != '\n' && c != '\r'

/-- Whether a character may stand between the quotes of a string. -/
def inString (c : Char) : Bool := c != '"' && c != '\n'

/-- Whether a character is a blank. -/
def isBlank (c : Char) : Bool := c == ' ' || c == '\t'

/-- The integer written by digits. -/
def readInt (digits : List Char) : Reading :=
  match word? (Text.digitsValue digits) with
  | some n => .token (.int n)
  | none => .outOfRange

/-- The float written by the digits before and after a point. -/
def readFloat (whole fraction : List Char) : Reading :=
  .token (.float (Text.nearestFloat (Text.digitsValue (whole ++ fraction)) (-fraction.length)))

/-- The number that starts with the digit `c`: a float if the digits are
    followed by a point and a further digit. The first component counts the
    characters after `c`. -/
def readNumber (c : Char) (cs : List Char) : Nat × Reading :=
  let whole := cs.takeWhile Char.isDigit
  let fraction : List Char :=
    match cs.dropWhile Char.isDigit with
    | '.' :: rest => rest.takeWhile Char.isDigit
    | _ => []
  if fraction = [] then (whole.length, readInt (c :: whole))
  else (whole.length + 1 + fraction.length, readFloat (c :: whole) fraction)

/-- The sign at the front of a text. The first component counts the characters
    after `c`. -/
def readSign (c : Char) (cs : List Char) : Nat × Reading :=
  match c, cs with
  | ':', '=' :: _ => (1, .token (.sign .colonEquals))
  | ':', _ => (0, .token (.sign .colon))
  | '=', '=' :: _ => (1, .token (.sign .equalEqual))
  | '=', _ => (0, .token (.sign .equals))
  | '!', '=' :: _ => (1, .token (.sign .bangEqual))
  | '<', '=' :: _ => (1, .token (.sign .lessEqual))
  | '<', _ => (0, .token (.sign .less))
  | '>', '=' :: _ => (1, .token (.sign .greaterEqual))
  | '>', _ => (0, .token (.sign .greater))
  | '*', '*' :: _ => (1, .token (.sign .caret))
  | '*', _ => (0, .token (.sign .star))
  | '^', _ => (0, .token (.sign .caret))
  | '+', _ => (0, .token (.sign .plus))
  | '-', _ => (0, .token (.sign .minus))
  | '/', _ => (0, .token (.sign .slash))
  | '(', _ => (0, .token (.sign .openParen))
  | ')', _ => (0, .token (.sign .closeParen))
  | ';', _ => (0, .token (.sign .semicolon))
  | '{', _ => (0, .token (.sign .openBrace))
  | '}', _ => (0, .token (.sign .closeBrace))
  | ',', _ => (0, .token (.sign .comma))
  | c, _ => (0, .illegal c)

/-- The piece at the front of the text `c :: cs`: the number of its characters
    after `c`, and what it is. -/
def read (c : Char) (cs : List Char) : Nat × Reading :=
  if c.isDigit then readNumber c cs
  else if startsWord c then
    let rest := cs.takeWhile continuesWord
    (rest.length, .token (.ofWord (String.ofList (c :: rest))))
  else if isBlank c then ((cs.takeWhile isBlank).length, .blank)
  else match c with
  | '.' =>
    let fraction := cs.takeWhile Char.isDigit
    if fraction = [] then (0, .illegal c) else (fraction.length, readFloat [] fraction)
  | '#' =>
    let text := cs.takeWhile inComment
    (text.length, .token (.comment (String.ofList text)))
  | '"' =>
    let text := cs.takeWhile inString
    match cs.dropWhile inString with
    | '"' :: _ => (text.length + 1, .token (.str (String.ofList text)))
    | _ => (0, .illegal c)
  | '\n' => (0, .lineBreak)
  | '\r' =>
    match cs with
    | '\n' :: _ => (1, .lineBreak)
    | _ => (0, .illegal c)
  | _ => readSign c cs

/-- The pieces of a text of which the first `skip` characters are already
    taken. -/
def splitAfter : Nat → List Char → List Lexeme
  | _, [] => []
  | skip + 1, _ :: cs => splitAfter skip cs
  | 0, c :: cs =>
    let (n, reading) := read c cs
    ⟨c :: cs.take n, reading⟩ :: splitAfter n cs

/-- The pieces of a text. -/
def split (source : List Char) : List Lexeme := splitAfter 0 source

theorem splitAfter_eq_split_drop (skip : Nat) (cs : List Char) :
    splitAfter skip cs = split (cs.drop skip) := by
  induction cs generalizing skip with
  | nil => simp [split, splitAfter]
  | cons c cs ih => cases skip <;> simp [split, splitAfter, ih]

theorem split_cons (c : Char) (cs : List Char) :
    split (c :: cs) =
      ⟨c :: cs.take (read c cs).1, (read c cs).2⟩ :: split (cs.drop (read c cs).1) := by
  rw [← splitAfter_eq_split_drop]
  rfl

/-- Pieces with the lines they start on, the first piece being on `line`. -/
def number (line : Nat) : List Lexeme → List (Lexeme × Nat)
  | [] => []
  | l :: ls => (l, line) :: number (if l.reading = .lineBreak then line + 1 else line) ls

/-- The token of a piece, if it is one. -/
def token? (piece : Lexeme × Nat) : Option Lexed :=
  match piece.1.reading with
  | .token t => some ⟨t, piece.2⟩
  | _ => none

/-- The error of a piece, if it is one. -/
def error? (piece : Lexeme × Nat) : Option SourceError :=
  match piece.1.reading with
  | .outOfRange => some (.integerOutOfRange (String.ofList piece.1.text) piece.2)
  | .illegal c => some (.illegalCharacter c piece.2)
  | _ => none

end Lexeme

/-- The tokens of a source and the errors in it, both in source order. -/
def tokenize (source : String) : List Lexed × List SourceError :=
  let pieces := Lexeme.number 1 (Lexeme.split source.toList)
  (pieces.filterMap Lexeme.token?, pieces.filterMap Lexeme.error?)

end Scriptlet
