import Scriptlet.Tree.Parser

/-!
# The grammar

Which lists of tokens are programs, said without a parser. A rule of the grammar
is a constructor of `Derives`; the words and signs of the language stand in it
as they stand in a source.

The grammar is ambiguous. Statements need nothing between them, so that
`x (y)` is a call, and also two statements.
-/

namespace Scriptlet.Grammar

open Scriptlet.Parser (Level)

/-- Tokens between parentheses. -/
def parens (ts : List Token) : List Token :=
  .sign .openParen :: (ts ++ [.sign .closeParen])

/-- Tokens between braces. -/
def braces (ts : List Token) : List Token :=
  .sign .openBrace :: (ts ++ [.sign .closeBrace])

/-- The tokens of a name with its type. -/
def typed (x : String) (ty : Ty) : List Token := [.name x, .sign .colon, .ty ty]

/-- The operators of a level. -/
def operatorSigns : Level → List Sign
  | .relation => [.less, .greater, .lessEqual, .greaterEqual, .equalEqual, .bangEqual]
  | .sum => [.plus, .minus]
  | .product => [.star, .slash]

/-- The operators of a level are told by their signs. -/
theorem operator?_isSome {level : Level} {t : Token} :
    (level.operator? t).isSome ↔ ∃ sg ∈ operatorSigns level, t = .sign sg := by
  cases t with
  | sign sg => cases level <;> cases sg <;> simp [Level.operator?, operatorSigns, Sign.rel?]
  | _ => cases level <;> simp [Level.operator?]

/-- What a rule of the grammar derives. -/
inductive Category where
  | block
  | statement
  /-- the parameters of a function, if it has any -/
  | parameters
  /-- further parameters, each after a comma -/
  | moreParameters
  /-- an expression whose loosest operators are those of a level -/
  | operand (level : Level)
  /-- further operands of a level, each after an operator -/
  | operators (level : Level)
  | power
  | primary
  /-- the arguments of a call, if it has any -/
  | arguments
  /-- further arguments, each after a comma -/
  | moreArguments
  deriving DecidableEq, Repr

/-- An expression; its loosest operators are relations. -/
abbrev Category.expression : Category := .operand .relation

/-- The operands that the operators of a level stand between. -/
def tighter : Level → Category
  | .relation => .operand .sum
  | .sum => .operand .product
  | .product => .power

/-- The tokens that a category stands for. -/
inductive Derives : Category → List Token → Prop
  -- block := (statement | ";")*
  | done : Derives .block []
  | separator {ts : List Token} : Derives .block ts → Derives .block (.sign .semicolon :: ts)
  | next {s ts : List Token} : Derives .statement s → Derives .block ts → Derives .block (s ++ ts)
  -- statements
  | scope {body : List Token} : Derives .block body → Derives .statement (braces body)
  | comment (text : String) : Derives .statement [.comment text]
  | print {value : List Token} : Derives .statement value →
      Derives .statement (.keyword .print :: parens value)
  | branch {guard body : List Token} : Derives .statement guard → Derives .block body →
      Derives .statement (.keyword .ifWord :: (parens guard ++ braces body))
  | whileLoop {guard body : List Token} : Derives .statement guard → Derives .block body →
      Derives .statement (.keyword .whileWord :: (parens guard ++ braces body))
  | forLoop {start guard step body : List Token} : Derives .statement start →
      Derives .statement guard → Derives .statement step → Derives .block body →
      Derives .statement (.keyword .forWord ::
        (parens (start ++ .sign .semicolon :: (guard ++ .sign .semicolon :: step)) ++ braces body))
  | function (f : String) {params body : List Token} : Derives .parameters params →
      Derives .block body → Derives .statement
        (.keyword .function :: .name f :: (parens params ++ .sign .equals :: braces body))
  | assign (x : String) {value : List Token} : Derives .statement value →
      Derives .statement (.name x :: .sign .equals :: value)
  | define (x : String) {value : List Token} : Derives .statement value →
      Derives .statement (.name x :: .sign .colonEquals :: value)
  | declare (x : String) (ty : Ty) : Derives .statement (typed x ty)
  | expression {ts : List Token} : Derives .expression ts → Derives .statement ts
  -- parameters := (typed ("," typed)*)?
  | noParameters : Derives .parameters []
  | parameters (x : String) (ty : Ty) {ts : List Token} : Derives .moreParameters ts →
      Derives .parameters (typed x ty ++ ts)
  | lastParameter : Derives .moreParameters []
  | nextParameter (x : String) (ty : Ty) {ts : List Token} : Derives .moreParameters ts →
      Derives .moreParameters (.sign .comma :: (typed x ty ++ ts))
  -- operand := tighter (operator tighter)*, for relations, sums and products
  | operand {level : Level} {a ts : List Token} : Derives (tighter level) a →
      Derives (.operators level) ts → Derives (.operand level) (a ++ ts)
  | lastOperand {level : Level} : Derives (.operators level) []
  | nextOperand {level : Level} {s : Sign} {a ts : List Token} : s ∈ operatorSigns level →
      Derives (tighter level) a → Derives (.operators level) ts →
      Derives (.operators level) (.sign s :: (a ++ ts))
  -- power := primary ("^" power)?
  | base {ts : List Token} : Derives .primary ts → Derives .power ts
  | power {a b : List Token} : Derives .primary a → Derives .power b →
      Derives .power (a ++ .sign .caret :: b)
  -- primaries
  | int (n : Int64) : Derives .primary [.int n]
  | float (x : Float) : Derives .primary [.float x]
  | str (s : String) : Derives .primary [.str s]
  | bool (b : Bool) : Derives .primary [.bool b]
  | pi : Derives .primary [.pi]
  | read (x : String) : Derives .primary [.name x]
  | call (f : String) {args : List Token} : Derives .arguments args →
      Derives .primary (.name f :: parens args)
  | math (fn : MathFn) {ts : List Token} : Derives .expression ts →
      Derives .primary (.math fn :: parens ts)
  | cast {value : List Token} (ty : Ty) : Derives .statement value →
      Derives .primary (.keyword .staticCast :: parens (value ++ [.sign .comma, .ty ty]))
  | enclosed {ts : List Token} : Derives .expression ts → Derives .primary (parens ts)
  -- arguments := (expression ("," expression)*)?
  | noArguments : Derives .arguments []
  | arguments {a ts : List Token} : Derives .expression a → Derives .moreArguments ts →
      Derives .arguments (a ++ ts)
  | lastArgument : Derives .moreArguments []
  | nextArgument {a ts : List Token} : Derives .expression a → Derives .moreArguments ts →
      Derives .moreArguments (.sign .comma :: (a ++ ts))

end Scriptlet.Grammar
