import Scriptlet.Text.Quoted
import Scriptlet.Token

/-!
# Listing tokens

A listing shows each token by the word for its kind and by what it holds.
-/

namespace Scriptlet

/-- The word for the kind of a sign. -/
def Sign.kind : Sign → String
  | colonEquals => "ColonEquals"
  | colon => "Colon"
  | equals => "Equals"
  | plus => "Plus"
  | minus => "Minus"
  | star => "Star"
  | slash => "Slash"
  | caret => "Caret"
  | openParen => "LParen"
  | closeParen => "RParen"
  | semicolon => "Semicolon"
  | openBrace => "LBrace"
  | closeBrace => "RBrace"
  | comma => "Comma"
  | equalEqual => "EqualEqual"
  | bangEqual => "BangEqual"
  | lessEqual => "LessEqual"
  | greaterEqual => "GreaterEqual"
  | less => "Less"
  | greater => "Greater"

/-- The word for the kind of a keyword. -/
def Keyword.kind : Keyword → String
  | staticCast => "StaticCast"
  | ifWord => "If"
  | whileWord => "While"
  | forWord => "For"
  | function => "Function"
  | print => "Print"

namespace Token

/-- The word for the kind of a token. -/
def kind : Token → String
  | float _ => "Float"
  | int _ => "Integer"
  | bool _ => "Bool"
  | keyword k => k.kind
  | ty _ => "TypeName"
  | math _ => "MathFunction"
  | pi => "Pi"
  | comment _ => "Comment"
  | str _ => "Str"
  | name _ => "Identifier"
  | sign s => s.kind
  | lineBreak => "NewLine"
  | blank => "Ignored"

/-- What a token holds besides its kind. -/
def payload? : Token → Option String
  | float x => some (Decimal.render Decimal.literal x)
  | int n => some (Value.intText n)
  | bool b => some (Value.boolText b)
  | ty t => some t.name.capitalize
  | math fn => some fn.name.capitalize
  | comment s => some (Text.quote s)
  | str s => some (Text.quote s)
  | name s => some (Text.quote s)
  | _ => none

/-- A token in a listing. -/
def listing (t : Token) : String :=
  match t.payload? with
  | some payload => t.kind ++ "(" ++ payload ++ ")"
  | none => t.kind

end Token

/-- A token in a listing, with its line. -/
def Lexed.listing (t : Lexed) : String := toString t.line ++ ": " ++ t.token.listing

end Scriptlet
