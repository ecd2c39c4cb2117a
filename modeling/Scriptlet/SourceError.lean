import Scriptlet.Token

/-!
# Errors in a source text

Errors found while a source is split into tokens and while the tokens are put
together into a tree. None of them ends the work: the offending piece is
skipped.
-/

namespace Scriptlet

/-- An error in a source text, with its line. -/
inductive SourceError where
  /-- a character that starts no token -/
  | illegalCharacter (c : Char) (line : Nat)
  /-- a run of digits that denotes no 64-bit integer -/
  | integerOutOfRange (digits : String) (line : Nat)
  /-- a token that cannot stand where it stands -/
  | unexpectedToken (token : Token) (line : Nat)
  /-- the source ends inside a statement; the line of its last token -/
  | unexpectedEnd (line : Nat)
  deriving DecidableEq

namespace SourceError

/-- The line an error was found on. -/
def line : SourceError → Nat
  | illegalCharacter _ line => line
  | integerOutOfRange _ line => line
  | unexpectedToken _ line => line
  | unexpectedEnd line => line

/-- What is wrong, in words. -/
def details : SourceError → String
  | illegalCharacter c _ => s!"Illegal character '{c}'."
  | integerOutOfRange digits _ => s!"Integer literal {digits} is out of range."
  | unexpectedToken token _ => s!"Unexpected token: {token.text}."
  | unexpectedEnd _ => "Unexpected end of input."

/-- The sentence that tells the user about an error. -/
def message (e : SourceError) : String := s!"Error on line {e.line}: {e.details}"

end SourceError

end Scriptlet
