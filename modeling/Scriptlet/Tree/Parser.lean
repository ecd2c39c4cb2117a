import Scriptlet.SourceError
import Scriptlet.Tree

/-!
# From tokens to a tree

The grammar, with the words of the language in quotes:

    block      := (statement | ";")*
    statement  := braced | COMMENT
                | "print" "(" statement ")"
                | ("if" | "while") "(" statement ")" braced
                | "for" "(" statement ";" statement ";" statement ")" braced
                | "function" NAME "(" (typed ("," typed)*)? ")" "=" braced
                | NAME "=" statement | NAME ":=" statement | typed
                | relation
    braced     := "{" block "}"
    typed      := NAME ":" TYPE
    relation   := sum (("<" | ">" | "<=" | ">=" | "==" | "!=") sum)*
    sum        := product (("+" | "-") product)*
    product    := power (("*" | "/") power)*
    power      := primary ("^" power)?
    primary    := NUMBER | STRING | BOOL | "PI" | NAME
                | NAME "(" (relation ("," relation)*)? ")"
                | MATH "(" relation ")"
                | "static_cast" "(" statement "," TYPE ")"
                | "(" relation ")"

Relations, sums and products associate to the left, powers to the right.

A statement that fits no rule is reported and dropped, and the block goes on
with the token the error was found at; if nothing was read since the statement
began, that token is dropped first, unless it closes the block. Ids are given
out in the order in which nodes are finished, also to the parts of statements
that are dropped later.

The rules call each other without bound on the depth, so each of them carries a
bound on the number of rules that may still be entered. A rule gives nothing, not
even an error, if its bound is used up. `Parser.fuel` is enough for every list of
tokens.
-/

namespace Scriptlet

namespace Parser

/-- What a parser knows: the tokens ahead, the ids given out, the errors found,
    and the line on which the source ends. -/
structure State where
  ahead : List Lexed
  nextId : Nat
  errors : Array SourceError
  endLine : Nat

end Parser

/-- A step that meets no error; `none` if the bound was too small. -/
abbrev Parser.Step := StateT Parser.State Option

/-- A parser yields a result or the error that stopped it, or nothing if the bound
    was too small. The state survives an error. -/
abbrev Parser := ExceptT SourceError Parser.Step

namespace Parser

/-- The bound is used up. -/
def exhausted {α : Type} : Step α := fun _ => none

/-! ## Tokens -/

/-- The next token, which stays ahead. -/
def peek : Step (Option Lexed) := return (← get).ahead.head?

/-- Drops the next token. -/
def advance : Step Unit := modify fun s => { s with ahead := s.ahead.tail }

/-- Whether a sign comes next. -/
def sees (s : Sign) : Step Bool := return (← peek).map Lexed.token = some (.sign s)

/-- Fails at the next token, or at the end of the source. -/
def unexpected {α : Type} : Parser α := do
  let s ← get
  match s.ahead with
  | t :: _ => throw (.unexpectedToken t.token t.line)
  | [] => throw (.unexpectedEnd s.endLine)

/-- Takes the next token if `accept?` does, and gives its line as well. -/
def take {α : Type} (accept? : Token → Option α) : Parser (α × Nat) := do
  match ← peek with
  | some t =>
    match accept? t.token with
    | some result =>
      advance
      return (result, t.line)
    | none => unexpected
  | none => unexpected

/-- Takes a sign and gives its line. -/
def sign (s : Sign) : Parser Nat :=
  return (← take fun t => if t = .sign s then some () else none).2

/-- Takes a name. -/
def name : Parser (String × Nat) := take fun | .name s => some s | _ => none

/-- Takes the name of a type. -/
def typeName : Parser (Ty × Nat) := take fun | .ty t => some t | _ => none

/-! ## Nodes and errors -/

/-- Makes a node with a fresh id. -/
def node (line : Nat) (form : Form Node) : Step Node := do
  let s ← get
  set { s with nextId := s.nextId + 1 }
  return ⟨s.nextId, line, form⟩

/-- Records an error. The end of the source is recorded once only. -/
def record (e : SourceError) : Step Unit :=
  modify fun s =>
    match e, s.errors.back? with
    | .unexpectedEnd _, some (.unexpectedEnd _) => s
    | _, _ => { s with errors := s.errors.push e }

/-- Runs a parser and turns its failure into `none`, recording the error. -/
def recover {α : Type} (p : Parser α) : Step (Option α) := do
  match ← p.run with
  | .ok result => return some result
  | .error e =>
    record e
    return none

/-! ## Expressions -/

/-- The levels of left-associative operators, from the loosest to the
    tightest. -/
inductive Level where
  | relation
  | sum
  | product
  deriving DecidableEq, Repr

/-- What a token makes of two operands if it is an operator of a level. -/
def Level.operator? (level : Level) (t : Token) : Option (Node → Node → Form Node) :=
  match level, t with
  | .relation, .sign s => s.rel?.map Form.relation
  | .sum, .sign .plus => some (.arith .add)
  | .sum, .sign .minus => some (.arith .sub)
  | .product, .sign .star => some (.arith .mul)
  | .product, .sign .slash => some (.arith .div)
  | _, _ => none

/-- The literal that a token stands for. -/
def literal? : Token → Option (Form Node)
  | .int n => some (.int n)
  | .float x => some (.float x)
  | .str s => some (.str s)
  | .bool b => some (.bool b)
  | .pi => some .pi
  | _ => none

/-- `NAME ":" TYPE` as two nodes. -/
def typedName : Parser (Node × Node) := do
  let (x, line) ← name
  let _ ← sign .colon
  let (ty, tyLine) ← typeName
  return (← node line (.binder x), ← node tyLine (.ty ty))

/-- Further parameters, each after a comma, up to the closing parenthesis. -/
def moreParams : Nat → Parser (List (Node × Node))
  | 0 => exhausted
  | fuel + 1 => do
    if ← sees .comma then
      advance
      let pair ← typedName
      return pair :: (← moreParams fuel)
    else
      let _ ← sign .closeParen
      return []

/-- The parameters of a function between parentheses. Without any there is no
    node. -/
def paramList (fuel : Nat) : Parser (Option Node) := do
  let line ← sign .openParen
  if ← sees .closeParen then
    advance
    return none
  else
    let pair ← typedName
    let pairs ← moreParams fuel
    return some (← node line (.params (pair :: pairs)))

mutual

/-- A statement, by its first token; a name is followed by the sign that says
    what is done with it. -/
def statement : Nat → Parser Node
  | 0 => exhausted
  | fuel + 1 => do
    let s ← get
    match s.ahead with
    | [] => unexpected
    | ⟨.sign .openBrace, line⟩ :: _ =>
      let body ← braced fuel
      node line (.scope body)
    | ⟨.comment text, line⟩ :: _ =>
      advance
      node line (.comment text)
    | ⟨.keyword .print, line⟩ :: _ =>
      advance
      let value ← parenthesized fuel
      node line (.print value)
    | ⟨.keyword .ifWord, line⟩ :: _ =>
      advance
      let guard ← parenthesized fuel
      let body ← braced fuel
      node line (.branch guard body)
    | ⟨.keyword .whileWord, line⟩ :: _ =>
      advance
      let guard ← parenthesized fuel
      let body ← braced fuel
      node line (.whileLoop guard body)
    | ⟨.keyword .forWord, line⟩ :: _ =>
      advance
      let _ ← sign .openParen
      let start ← statement fuel
      let _ ← sign .semicolon
      let guard ← statement fuel
      let _ ← sign .semicolon
      let step ← statement fuel
      let _ ← sign .closeParen
      let body ← braced fuel
      node line (.forLoop start guard step body)
    | ⟨.keyword .function, line⟩ :: _ =>
      advance
      let (f, nameLine) ← name
      let f ← node nameLine (.binder f)
      let params ← paramList fuel
      let _ ← sign .equals
      let body ← braced fuel
      node line (.function f params body)
    | ⟨.name x, line⟩ :: ⟨.sign .equals, _⟩ :: _ =>
      advance
      advance
      let target ← node line (.binder x)
      let value ← statement fuel
      node line (.assign target value)
    | ⟨.name x, line⟩ :: ⟨.sign .colonEquals, _⟩ :: _ =>
      advance
      advance
      let target ← node line (.binder x)
      let value ← statement fuel
      node line (.define target value)
    | ⟨.name _, line⟩ :: ⟨.sign .colon, _⟩ :: _ =>
      let (target, ty) ← typedName
      node line (.declare target ty)
    | _ => operand fuel .relation

/-- A statement between parentheses. -/
def parenthesized : Nat → Parser Node
  | 0 => exhausted
  | fuel + 1 => do
    let _ ← sign .openParen
    let inner ← statement fuel
    let _ ← sign .closeParen
    return inner

/-- A block between braces. -/
def braced : Nat → Parser Node
  | 0 => exhausted
  | fuel + 1 => do
    let _ ← sign .openBrace
    let body ← block true fuel
    let _ ← sign .closeBrace
    return body

/-- A block up to the end of the source or, if it is nested, up to a closing
    brace, which is left. -/
def block (nested : Bool) : Nat → Step Node
  | 0 => exhausted
  | fuel + 1 => do
    let line := ((← peek).map Lexed.line).getD 1
    let statements ← statements nested fuel
    node line (.block statements)

/-- The statements of a block. -/
def statements (nested : Bool) : Nat → Step (List Node)
  | 0 => exhausted
  | fuel + 1 => do
    match (← get).ahead with
    | [] => return []
    | t :: rest =>
      if nested ∧ t.token = .sign .closeBrace then return []
      else if t.token = .sign .semicolon then
        advance
        statements nested fuel
      else
        match ← recover (statement fuel) with
        | some n => return n :: (← statements nested fuel)
        | none =>
          let stalled := (← get).ahead.length = rest.length + 1
          let closing := nested ∧ (← sees .closeBrace)
          if stalled ∧ ¬ closing then advance
          statements nested fuel

/-- An expression whose loosest operators are those of a level. -/
def operand : Nat → Level → Parser Node
  | 0, _ => exhausted
  | fuel + 1, level => do
    let left ← tighter fuel level
    operators fuel level left

/-- Further operators of a level, applied from left to right. -/
def operators : Nat → Level → Node → Parser Node
  | 0, _, _ => exhausted
  | fuel + 1, level, left => do
    match ← peek with
    | none => return left
    | some t =>
      match level.operator? t.token with
      | none => return left
      | some form =>
        advance
        let right ← tighter fuel level
        let left ← node t.line (form left right)
        operators fuel level left

/-- An expression whose operators are tighter than those of a level. -/
def tighter : Nat → Level → Parser Node
  | 0, _ => exhausted
  | fuel + 1, .relation => operand fuel .sum
  | fuel + 1, .sum => operand fuel .product
  | fuel + 1, .product => power fuel

/-- A power. -/
def power : Nat → Parser Node
  | 0 => exhausted
  | fuel + 1 => do
    let base ← primary fuel
    match ← peek with
    | some ⟨.sign .caret, line⟩ =>
      advance
      let exponent ← power fuel
      node line (.arith .pow base exponent)
    | _ => return base

/-- An operand. -/
def primary : Nat → Parser Node
  | 0 => exhausted
  | fuel + 1 => do
    let s ← get
    match s.ahead with
    | ⟨.name f, line⟩ :: ⟨.sign .openParen, argsLine⟩ :: _ =>
      advance
      advance
      let target ← node line (.binder f)
      if ← sees .closeParen then
        advance
        node line (.call target none)
      else
        let value ← operand fuel .relation
        let values ← moreArgs fuel
        let args ← node argsLine (.args (value :: values))
        node line (.call target (some args))
    | ⟨.name x, line⟩ :: _ =>
      advance
      node line (.read x)
    | ⟨.math fn, line⟩ :: _ =>
      advance
      let _ ← sign .openParen
      let argument ← operand fuel .relation
      let _ ← sign .closeParen
      node line (.math fn argument)
    | ⟨.keyword .staticCast, line⟩ :: _ =>
      advance
      let _ ← sign .openParen
      let value ← statement fuel
      let _ ← sign .comma
      let (ty, tyLine) ← typeName
      let _ ← sign .closeParen
      let ty ← node tyLine (.ty ty)
      node line (.cast value ty)
    | ⟨.sign .openParen, _⟩ :: _ =>
      advance
      let inner ← operand fuel .relation
      let _ ← sign .closeParen
      return inner
    | t :: _ =>
      match literal? t.token with
      | some form =>
        advance
        node t.line form
      | none => unexpected
    | [] => unexpected

/-- Further arguments of a call, each after a comma, up to the closing
    parenthesis. -/
def moreArgs : Nat → Parser (List Node)
  | 0 => exhausted
  | fuel + 1 => do
    if ← sees .comma then
      advance
      let value ← operand fuel .relation
      return value :: (← moreArgs fuel)
    else
      let _ ← sign .closeParen
      return []

end

/-- A number of rules that is never used up: from one token that is read to the
    next, fewer than twelve rules are entered. -/
def fuel (tokens : List Lexed) : Nat := 12 * tokens.length + 12

/-- A whole source. -/
def program (tokens : List Lexed) : Step Node := do
  let body ← block false (fuel tokens)
  node 1 (.program body)

end Parser

/-- What came out of a list of tokens. -/
structure Parsed where
  tree : Node
  errors : List SourceError
  /-- the first id that is still free -/
  nextId : Nat

/-- The tree of a list of tokens, with ids from `firstId` on. Errors never
    prevent a tree; it then holds the statements that could be read. The bound is
    large enough, so the last case never arises. -/
def parse (tokens : List Lexed) (firstId : Nat) : Parsed :=
  let endLine := (tokens.getLast?.map Lexed.line).getD 1
  match (Parser.program tokens).run ⟨tokens, firstId, #[], endLine⟩ with
  | some (tree, s) => ⟨tree, s.errors.toList, s.nextId⟩
  | none => ⟨⟨firstId + 1, 1, .program ⟨firstId, 1, .block []⟩⟩, [], firstId + 2⟩

end Scriptlet
