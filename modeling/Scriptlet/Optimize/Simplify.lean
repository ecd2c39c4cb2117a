import Scriptlet.Tree
import Scriptlet.Value.Arithmetic

/-!
# Folding and simplification of arithmetic

A tree is simplified from the leaves to the root:

* an operator between two literals of one kind becomes the literal of its
  result, computed as the running program would compute it. Where that fails,
  or gives a float that is not finite, the operator stays, so that the failure
  is still reported when the program runs;
* an operator between a literal and a variable is simplified by an identity
  such as `x + 0 = x` or `x * 2 = x + x`;
* comments are dropped from blocks.

A node that is left alone keeps its id; new nodes get fresh ids.
-/

namespace Scriptlet

/-- A computation with a supply of ids: the first that is still free. -/
abbrev Fresh := StateM Nat

namespace Fresh

/-- Makes a node with a fresh id. -/
def node (line : Nat) (form : Form Node) : Fresh Node := do
  let id ← get
  set (id + 1)
  return ⟨id, line, form⟩

end Fresh

namespace Optimize

/-! ## Literals -/

/-- The value of a number literal. -/
def literalValue? (n : Node) : Option Value :=
  match n.form with
  | .int n => some (.int n)
  | .float x => some (.float x)
  | _ => none

/-- The literal for a value that an operator between literals may become. -/
def literalForm? : Value → Option (Form Node)
  | .int n => some (.int n)
  | .float x => if x.isFinite then some (.float x) else none
  | _ => none

/-- The literal that `left op right` becomes. -/
def foldLiterals? (op : Arith) (left right : Node) : Option (Form Node) :=
  match literalValue? left, literalValue? right with
  | some a, some b =>
    match Value.apply op a b with
    | .ok result => literalForm? result
    | .error _ => none
  | _, _ => none

/-- Whether a node is the literal for a number, as an integer or as a float. -/
def isNumeral (n : Node) (k : Nat) : Bool :=
  match n.form with
  | .int n => n.toInt == k
  | .float x => x == Float.ofNat k
  | _ => false

/-- Whether a node is the float literal for a number. -/
def isFloatNumeral (n : Node) (k : Nat) : Bool :=
  match n.form with
  | .float x => x == Float.ofNat k
  | _ => false

/-- Whether a node reads a variable. -/
def isRead (n : Node) : Bool :=
  match n.form with
  | .read _ => true
  | _ => false

/-! ## Identities -/

/-- What an operator between a variable `x` and a literal comes to. -/
inductive Identity where
  /-- the variable alone -/
  | operand
  /-- the literal alone -/
  | literal
  /-- the number one, of the kind of the literal -/
  | one
  /-- `x + x` -/
  | double
  /-- `x * x` -/
  | square
  /-- `x * 0.5` -/
  | halve
  deriving DecidableEq, Repr

/-- The identity for `literal op x`. There is none for powers. -/
def leftIdentity? (op : Arith) (literal : Node) : Option Identity :=
  match op with
  | .add => if isNumeral literal 0 then some .operand else none
  | .mul =>
    if isNumeral literal 0 then some .literal
    else if isNumeral literal 1 then some .operand
    else if isNumeral literal 2 then some .double
    else none
  | _ => none

/-- The identity for `x op literal`. Dividing integers gives a float, so only a
    float divisor leaves the kind of the variable alone. -/
def rightIdentity? (op : Arith) (literal : Node) : Option Identity :=
  match op with
  | .add | .sub => if isNumeral literal 0 then some .operand else none
  | .mul =>
    if isNumeral literal 0 then some .literal
    else if isNumeral literal 1 then some .operand
    else if isNumeral literal 2 then some .double
    else none
  | .div =>
    if isFloatNumeral literal 1 then some .operand
    else if isFloatNumeral literal 2 then some .halve
    else none
  | .pow =>
    if isNumeral literal 0 then some .one
    else if isNumeral literal 1 then some .operand
    else if isNumeral literal 2 then some .square
    else none

/-- An identity together with the variable and the literal it is about. -/
structure Match where
  identity : Identity
  operand : Node
  literal : Node

/-- The identity that applies to `left op right`. -/
def match? (op : Arith) (left right : Node) : Option Match :=
  if left.isNumber ∧ isRead right then
    (leftIdentity? op left).map fun identity => ⟨identity, right, left⟩
  else if right.isNumber ∧ isRead left then
    (rightIdentity? op right).map fun identity => ⟨identity, left, right⟩
  else none

/-- The number one of the kind of a literal. -/
def oneLike (literal : Node) : Form Node :=
  match literal.form with
  | .float _ => .float 1
  | _ => .int 1

/-- `operand op operand`; the second occurrence is a copy with its own id. -/
def twice (op : Arith) (line : Nat) (operand : Node) : Fresh Node := do
  let copy ← Fresh.node operand.line operand.form
  Fresh.node line (.arith op operand copy)

/-- What an identity makes of an operator on a line. -/
def applyIdentity (line : Nat) (m : Match) : Fresh Node :=
  match m.identity with
  | .operand => return m.operand
  | .literal => return m.literal
  | .one => Fresh.node line (oneLike m.literal)
  | .double => twice .add line m.operand
  | .square => twice .mul line m.operand
  | .halve => do
    let half ← Fresh.node m.literal.line (.float 0.5)
    Fresh.node line (.arith .mul m.operand half)

/-- Simplifies an operator whose operands are simplified. -/
def simplifyArith (id line : Nat) (op : Arith) (left right : Node) : Fresh Node :=
  match foldLiterals? op left right with
  | some form => Fresh.node line form
  | none =>
    match match? op left right with
    | some m => applyIdentity line m
    | none => return ⟨id, line, .arith op left right⟩

/-! ## Trees -/

mutual

/-- Simplifies a tree. -/
def simplify : Node → Fresh Node
  | ⟨id, line, .program body⟩ => return ⟨id, line, .program (← simplify body)⟩
  | ⟨id, line, .block statements⟩ => do
    let statements ← simplifyAll statements
    return ⟨id, line, .block (statements.filter fun n => !n.isComment)⟩
  | ⟨id, line, .scope body⟩ => return ⟨id, line, .scope (← simplify body)⟩
  | ⟨id, line, .branch guard body⟩ =>
    return ⟨id, line, .branch (← simplify guard) (← simplify body)⟩
  | ⟨id, line, .whileLoop guard body⟩ =>
    return ⟨id, line, .whileLoop (← simplify guard) (← simplify body)⟩
  | ⟨id, line, .forLoop start guard step body⟩ =>
    return ⟨id, line,
      .forLoop (← simplify start) (← simplify guard) (← simplify step) (← simplify body)⟩
  | ⟨id, line, .relation rel left right⟩ =>
    return ⟨id, line, .relation rel (← simplify left) (← simplify right)⟩
  | ⟨id, line, .arith op left right⟩ => do
    let left ← simplify left
    let right ← simplify right
    simplifyArith id line op left right
  | ⟨id, line, .print value⟩ => return ⟨id, line, .print (← simplify value)⟩
  | ⟨id, line, .assign name value⟩ =>
    return ⟨id, line, .assign (← simplify name) (← simplify value)⟩
  | ⟨id, line, .declare name ty⟩ =>
    return ⟨id, line, .declare (← simplify name) (← simplify ty)⟩
  | ⟨id, line, .define name value⟩ =>
    return ⟨id, line, .define (← simplify name) (← simplify value)⟩
  | ⟨id, line, .cast value ty⟩ => return ⟨id, line, .cast (← simplify value) (← simplify ty)⟩
  | ⟨id, line, .params pairs⟩ => return ⟨id, line, .params (← simplifyPairs pairs)⟩
  | ⟨id, line, .args values⟩ => return ⟨id, line, .args (← simplifyAll values)⟩
  | ⟨id, line, .function name params body⟩ =>
    return ⟨id, line,
      .function (← simplify name) (← simplifyOption params) (← simplify body)⟩
  | ⟨id, line, .call name args⟩ =>
    return ⟨id, line, .call (← simplify name) (← simplifyOption args)⟩
  | ⟨id, line, .math fn argument⟩ => return ⟨id, line, .math fn (← simplify argument)⟩
  | ⟨id, line, .comment text⟩ => return ⟨id, line, .comment text⟩
  | ⟨id, line, .int n⟩ => return ⟨id, line, .int n⟩
  | ⟨id, line, .float x⟩ => return ⟨id, line, .float x⟩
  | ⟨id, line, .str s⟩ => return ⟨id, line, .str s⟩
  | ⟨id, line, .bool b⟩ => return ⟨id, line, .bool b⟩
  | ⟨id, line, .binder name⟩ => return ⟨id, line, .binder name⟩
  | ⟨id, line, .read name⟩ => return ⟨id, line, .read name⟩
  | ⟨id, line, .ty t⟩ => return ⟨id, line, .ty t⟩
  | ⟨id, line, .pi⟩ => return ⟨id, line, .pi⟩
termination_by structural n => n

/-- Simplifies a list of trees from left to right. -/
def simplifyAll : List Node → Fresh (List Node)
  | [] => return []
  | n :: ns => return (← simplify n) :: (← simplifyAll ns)
termination_by structural ns => ns

/-- Simplifies a tree that may be absent. -/
def simplifyOption : Option Node → Fresh (Option Node)
  | none => return none
  | some n => return some (← simplify n)
termination_by structural n => n

/-- Simplifies a list of pairs from left to right. -/
def simplifyPairs : List (Node × Node) → Fresh (List (Node × Node))
  | [] => return []
  | pair :: pairs => return (← simplifyPair pair) :: (← simplifyPairs pairs)
termination_by structural pairs => pairs

/-- Simplifies a pair. -/
def simplifyPair : Node × Node → Fresh (Node × Node)
  | (left, right) => return (← simplify left, ← simplify right)
termination_by structural pair => pair

end

end Optimize

end Scriptlet
