import Scriptlet.Tree.Walk

/-!
# Which names are used

A name is used where it is read or called. Functions run wherever they are
called from, so a name that is called anywhere, or read inside any function, is
used everywhere. The target of an assignment also counts as used if the value
has effects, for then the assignment stays and needs its variable.

Sets of names are lists; only membership matters.
-/

namespace Scriptlet

/-- A set of names. -/
abbrev Names := List String

namespace Form

variable {α : Type}

/-- Whether evaluating a node of this form has no effect of its own: all it can
    do is to yield a value or to report a fault. -/
def isEffectFree : Form α → Bool
  | int _ | float _ | str _ | bool _ | binder _ | read _ | ty _ | pi => true
  | arith _ _ _ | relation _ _ _ | math _ _ | cast _ _ => true
  | _ => false

end Form

namespace Node

/-- Whether evaluating a tree can only yield a value or report a fault. -/
def isPure (n : Node) : Bool := n.preorder.all fun m => m.form.isEffectFree

theorem isPure_eq (n : Node) : n.isPure = (n.form.isEffectFree && n.children.all isPure) := by
  unfold isPure
  rw [preorder_eq]
  simp [List.all_flatMap]

/-- The names a node itself calls. -/
def ownCalls (n : Node) : Names :=
  match n.form with
  | .call name _ => name.name?.toList
  | _ => []

/-- The names a node itself reads. -/
def ownReads (n : Node) : Names :=
  match n.form with
  | .read name => [name]
  | _ => []

/-- The targets a node itself needs: that of an assignment of a value with
    effects. -/
def ownTargets (n : Node) : Names :=
  match n.form with
  | .assign name value => if value.isPure then [] else name.name?.toList
  | _ => []

/-- The names used anywhere in a tree. -/
def used (n : Node) : Names :=
  n.preorder.flatMap fun m => m.ownReads ++ m.ownCalls ++ m.ownTargets

theorem used_eq (n : Node) :
    n.used = n.ownReads ++ n.ownCalls ++ n.ownTargets ++ n.children.flatMap used := by
  unfold used
  rw [preorder_eq]
  simp [List.flatMap_assoc]

/-- Whether a node defines a function. -/
def isFunction (n : Node) : Bool :=
  match n.form with
  | .function _ _ _ => true
  | _ => false

/-- The nodes of a tree, each with whether it stands inside a function. -/
def withFunction (inside : Bool) (n : Node) : List (Bool × Node) :=
  n.walk (fun m inside => inside || m.isFunction) inside

/-- The names that are used everywhere: those called anywhere in the program,
    and those read inside a function. -/
def usedEverywhere (n : Node) : Names :=
  (n.withFunction false).flatMap fun (inside, m) =>
    m.ownCalls ++ if inside then m.ownReads else []

/-- Whether a statement never yields a value. -/
def isValueless (n : Node) : Bool :=
  match n.form with
  | .assign _ _ | .declare _ _ | .define _ _ | .function _ _ _ | .print _ => true
  | _ => false

/-- Whether a node is an assignment to an existing variable. -/
def isAssign (n : Node) : Bool :=
  match n.form with
  | .assign _ _ => true
  | _ => false

end Node

/-- The uses that matter to the statements of one block. -/
structure Liveness where
  /-- names used in the block, beside it in the head of its statement, or
      everywhere -/
  near : Names
  /-- those, and the names used in the blocks around it -/
  visible : Names
  /-- names that the block's own statements declare -/
  declared : Names

namespace Liveness

/-- The liveness of a block with the given statements. `head` holds the nodes
    that run alongside the block, such as the guard of a loop, and `outer` the
    names visible in the blocks around it. -/
def ofBlock (everywhere outer : Names) (head statements : List Node) : Liveness :=
  let near := everywhere ++ (head ++ statements).flatMap Node.used
  { near
    visible := outer ++ near
    declared := (statements.filter fun n => !n.isAssign).filterMap Node.target? }

/-- Whether a statement of the block can be dropped: it only binds a name that
    nobody uses. -/
def isDead (live : Liveness) (n : Node) : Bool :=
  match n.target? with
  | none => false
  | some x =>
    match n.form with
    | .declare _ _ => !live.near.contains x
    | .function _ _ _ => !live.near.contains x
    | .define _ value => !live.near.contains x && value.isPure
    | .assign _ value =>
      let names := if live.declared.contains x then live.near else live.visible
      !names.contains x && value.isPure
    | _ => false

end Liveness

end Scriptlet
