import Scriptlet.Tree

/-!
# Walks over a tree

`Node.walk` visits a node and then, in order, the subtrees of its children. On
its way down it carries a mark, which each node passes on to its children:
their depth, say, or the id of their parent. The set of names a program uses,
its size, its listing and its drawing are all read off such walks.

Main statement: `walk_eq`, which unfolds a walk by one node whatever the form.
-/

namespace Scriptlet.Node

variable {σ : Type}

mutual

/-- The nodes of a tree, each with its mark, in the order in which they are met
    from the root. `next` gives the mark of a node's children. -/
def walk (next : Node → σ → σ) (mark : σ) : Node → List (σ × Node)
  | ⟨id, line, form⟩ =>
    (mark, ⟨id, line, form⟩) :: walkForm next (next ⟨id, line, form⟩ mark) form
termination_by structural n => n

/-- The walk over the children of a form. -/
def walkForm (next : Node → σ → σ) (mark : σ) : Form Node → List (σ × Node)
  | .program block => walk next mark block
  | .block statements => walkAll next mark statements
  | .scope block => walk next mark block
  | .branch guard body => walk next mark guard ++ walk next mark body
  | .whileLoop guard body => walk next mark guard ++ walk next mark body
  | .forLoop start guard step body =>
    walk next mark start ++ walk next mark guard ++ walk next mark step ++ walk next mark body
  | .relation _ left right => walk next mark left ++ walk next mark right
  | .arith _ left right => walk next mark left ++ walk next mark right
  | .print value => walk next mark value
  | .assign name value => walk next mark name ++ walk next mark value
  | .declare name ty => walk next mark name ++ walk next mark ty
  | .define name value => walk next mark name ++ walk next mark value
  | .cast value ty => walk next mark value ++ walk next mark ty
  | .params pairs => walkPairs next mark pairs
  | .args values => walkAll next mark values
  | .function name params body =>
    walk next mark name ++ walkOption next mark params ++ walk next mark body
  | .call name args => walk next mark name ++ walkOption next mark args
  | .math _ argument => walk next mark argument
  | .comment _ | .int _ | .float _ | .str _ | .bool _ | .binder _ | .read _ | .ty _ | .pi => []
termination_by structural form => form

/-- The walk over a list of nodes. -/
def walkAll (next : Node → σ → σ) (mark : σ) : List Node → List (σ × Node)
  | [] => []
  | n :: ns => walk next mark n ++ walkAll next mark ns
termination_by structural ns => ns

/-- The walk over a node that may be absent. -/
def walkOption (next : Node → σ → σ) (mark : σ) : Option Node → List (σ × Node)
  | none => []
  | some n => walk next mark n
termination_by structural n => n

/-- The walk over a list of pairs. -/
def walkPairs (next : Node → σ → σ) (mark : σ) : List (Node × Node) → List (σ × Node)
  | [] => []
  | pair :: pairs => walkPair next mark pair ++ walkPairs next mark pairs
termination_by structural pairs => pairs

/-- The walk over a pair. -/
def walkPair (next : Node → σ → σ) (mark : σ) : Node × Node → List (σ × Node)
  | (left, right) => walk next mark left ++ walk next mark right
termination_by structural pair => pair

end

theorem walkAll_eq_flatMap (next : Node → σ → σ) (mark : σ) (ns : List Node) :
    walkAll next mark ns = ns.flatMap (walk next mark) := by
  induction ns with
  | nil => rfl
  | cons n ns ih => simp [walkAll, ih]

theorem walkPairs_eq_flatMap (next : Node → σ → σ) (mark : σ) (pairs : List (Node × Node)) :
    walkPairs next mark pairs =
      (pairs.flatMap fun pair => [pair.1, pair.2]).flatMap (walk next mark) := by
  induction pairs with
  | nil => rfl
  | cons pair pairs ih =>
    obtain ⟨left, right⟩ := pair
    simp [walkPairs, walkPair, ih]

/-- A walk visits the node and then walks over its children in order. -/
theorem walk_eq (next : Node → σ → σ) (mark : σ) (n : Node) :
    n.walk next mark = (mark, n) :: n.children.flatMap (walk next (next n mark)) := by
  obtain ⟨id, line, form⟩ := n
  cases form with
  | function name params body =>
    cases params <;> simp [walk, walkForm, walkOption, children, Form.children]
  | call name args =>
    cases args <;> simp [walk, walkForm, walkOption, children, Form.children]
  | _ =>
    simp [walk, walkForm, children, Form.children, walkAll_eq_flatMap, walkPairs_eq_flatMap]

/-- All nodes of a tree, each before its children. -/
def preorder (n : Node) : List Node := (n.walk (fun _ _ => ()) ()).map Prod.snd

theorem preorder_eq (n : Node) : n.preorder = n :: n.children.flatMap preorder := by
  unfold preorder
  rw [walk_eq]
  simp [List.map_flatMap]

/-- The number of nodes of a tree. -/
def size (n : Node) : Nat := n.preorder.length

theorem size_eq (n : Node) : n.size = (n.children.flatMap preorder).length + 1 := by
  unfold size
  rw [preorder_eq, List.length_cons]

/-- All nodes of a tree, each with its depth; the root has depth zero. -/
def withDepth (n : Node) : List (Nat × Node) := n.walk (fun _ depth => depth + 1) 0

/-- A tree as a list of its nodes without their subtrees. -/
def outline (n : Node) : List (Nat × Nat × Form Unit) :=
  n.preorder.map fun m => (m.id, m.line, m.form.head)

/-- Whether two trees agree in ids, lines and forms. Floats are compared as
    numbers, so that a tree with a NaN agrees with none. -/
def agrees (a b : Node) : Bool := a.outline == b.outline

end Scriptlet.Node
