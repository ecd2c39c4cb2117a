import Scriptlet.Operator
import Scriptlet.Value

/-!
# Tokens

The words and signs a source text is made of. `Token.text` is the spelling of a
token, in the one form in which messages quote it: `**` is shown as `^`.
-/

namespace Scriptlet

/-- A word with a fixed meaning that starts a statement or an expression. -/
inductive Keyword where
  | staticCast
  | ifWord
  | whileWord
  | forWord
  | function
  | print
  deriving DecidableEq, Repr

/-- Punctuation. -/
inductive Sign where
  /-- `:=` -/
  | colonEquals
  /-- `:` -/
  | colon
  /-- `=` -/
  | equals
  /-- `+` -/
  | plus
  /-- `-` -/
  | minus
  /-- `*` -/
  | star
  /-- `/` -/
  | slash
  /-- `^`, also written `**` -/
  | caret
  /-- `(` -/
  | openParen
  /-- `)` -/
  | closeParen
  /-- `;` -/
  | semicolon
  /-- `{` -/
  | openBrace
  /-- `}` -/
  | closeBrace
  /-- `,` -/
  | comma
  /-- `==` -/
  | equalEqual
  /-- `!=` -/
  | bangEqual
  /-- `<=` -/
  | lessEqual
  /-- `>=` -/
  | greaterEqual
  /-- `<` -/
  | less
  /-- `>` -/
  | greater
  deriving DecidableEq, Repr

/-- A token. -/
inductive Token where
  | float (x : Float)
  | int (n : Int64)
  | bool (b : Bool)
  | keyword (k : Keyword)
  | ty (t : Ty)
  | math (fn : MathFn)
  /-- the constant `PI` -/
  | pi
  /-- a comment; the text after the `#` -/
  | comment (text : String)
  /-- a string literal; the text between the quotes -/
  | str (text : String)
  /-- a name given by the program -/
  | name (text : String)
  | sign (s : Sign)
  /-- a line break; lines are counted where a source is split, so that these
      tokens only occur in token lists made by hand -/
  | lineBreak
  /-- a run of blanks, which likewise never comes from a source -/
  | blank
  deriving DecidableEq

namespace Keyword

/-- The spelling of a keyword. -/
def text : Keyword → String
  | staticCast => "static_cast"
  | ifWord => "if"
  | whileWord => "while"
  | forWord => "for"
  | function => "function"
  | print => "print"

/-- Every keyword, each once. -/
def all : List Keyword := [staticCast, ifWord, whileWord, forWord, function, print]

end Keyword

namespace Sign

/-- The spelling of a sign. -/
def text : Sign → String
  | colonEquals => ":="
  | colon => ":"
  | equals => "="
  | plus => "+"
  | minus => "-"
  | star => "*"
  | slash => "/"
  | caret => "^"
  | openParen => "("
  | closeParen => ")"
  | semicolon => ";"
  | openBrace => "\x7b"
  | closeBrace => "\x7d"
  | comma => ","
  | equalEqual => "=="
  | bangEqual => "!="
  | lessEqual => "<="
  | greaterEqual => ">="
  | less => "<"
  | greater => ">"

/-- Every sign, each once. -/
def all : List Sign :=
  [colonEquals, colon, equals, plus, minus, star, slash, caret, openParen, closeParen, semicolon,
    openBrace, closeBrace, comma, equalEqual, bangEqual, lessEqual, greaterEqual, less, greater]

/-- The arithmetic operator a sign stands for. -/
def arith? : Sign → Option Arith
  | plus => some .add
  | minus => some .sub
  | star => some .mul
  | slash => some .div
  | caret => some .pow
  | _ => none

/-- The relation a sign stands for. -/
def rel? : Sign → Option Rel
  | less => some .lt
  | greater => some .gt
  | lessEqual => some .le
  | greaterEqual => some .ge
  | equalEqual => some .eq
  | bangEqual => some .ne
  | _ => none

end Sign

namespace Token

/-- The spelling of a token. -/
def text : Token → String
  | float x => Decimal.render Decimal.literal x
  | int n => Value.intText n
  | bool b => Value.boolText b
  | keyword k => k.text
  | ty t => t.name
  | math fn => fn.name
  | pi => "PI"
  | comment s => "#" ++ s
  | str s => "\"" ++ s ++ "\""
  | name s => s
  | sign s => s.text
  | lineBreak => "\n"
  | blank => " "

/-- The tokens that are spelled like names but are none. -/
def words : List Token :=
  [bool true, bool false] ++ Keyword.all.map keyword ++ Ty.all.map ty ++ MathFn.all.map math ++ [pi]

/-- The token of a word: one with a fixed meaning, or else a name. -/
def ofWord (word : String) : Token := (words.find? fun t => t.text == word).getD (name word)

end Token

/-- A token on a line of a source. -/
structure Lexed where
  token : Token
  line : Nat
  deriving DecidableEq

end Scriptlet
