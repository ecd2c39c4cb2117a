import Scriptlet.Tree.Walk
import Scriptlet.Value

/-!
# Drawing a tree

A tree is drawn by strokes: a labelled node, or an edge between two nodes. Each
node of the tree gets a node labelled with its kind, an edge from its parent,
and, where it holds a name, an operator or a literal, a further node with that
text. A `Graph` collects strokes, and `Graph.dot` writes it in the DOT language.
-/

namespace Scriptlet

namespace Form

variable {α : Type}

/-- The kind of a node, as diagrams and listings show it. -/
def label : Form α → String
  | program _ => "Program"
  | block _ => "Block"
  | scope _ => "InstructionBlock"
  | branch _ _ => "Condition"
  | whileLoop _ _ => "While"
  | forLoop _ _ _ _ => "For"
  | relation _ _ _ => "Relation"
  | arith _ _ _ => "Operator"
  | print _ => "Print"
  | assign _ _ => "Assign"
  | declare _ _ => "TypeDeclare"
  | define _ _ => "AssignWithType"
  | cast _ _ => "Cast"
  | params _ => "Args"
  | args _ => "ArgsVal"
  | function _ _ _ => "Function"
  | call _ _ => "Call"
  | math _ _ => "MathFunction"
  | comment _ => "Comment"
  | int _ => "IntVal"
  | float _ => "FloatVal"
  | str _ => "StringVal"
  | bool _ => "BoolVal"
  | binder _ => "NameVal"
  | read _ => "KeyVal"
  | ty _ => "TypeVal"
  | pi => "Pi"

/-- The text a node holds besides its children: an operator, a name or a
    literal. A string literal is shown with its quotes. -/
def detail? : Form α → Option String
  | relation rel _ _ => some rel.symbol
  | arith op _ _ => some op.symbol
  | math fn _ => some fn.name
  | comment text => some text
  | int n => some (Value.intText n)
  | float x => some (Decimal.render Decimal.literal x)
  | str s => some ("\"" ++ s ++ "\"")
  | bool b => some (Value.boolText b)
  | binder name => some name
  | read name => some name
  | ty t => some t.name
  | pi => some "PI"
  | _ => none

end Form

/-- The name of the node with an id. -/
def nodeName (id : Nat) : String := "Node" ++ toString id

/-- The name of the node that shows the detail of the node with an id. -/
def detailName (id : Nat) : String := nodeName id ++ "_detail"

/-- A step of a drawing. -/
inductive Stroke where
  | node (name label : String)
  | edge (source target : String)
  deriving DecidableEq

/-- The strokes for one node of a tree whose parent has the given id. -/
def Node.ownStrokes (parent : Option Nat) (n : Node) : List Stroke :=
  let name := nodeName n.id
  let incoming := parent.toList.map fun id => Stroke.edge (nodeName id) name
  let detail := n.form.detail?.toList.flatMap fun text =>
    [.node (detailName n.id) text, .edge name (detailName n.id)]
  .node name n.form.label :: (incoming ++ detail)

/-- The strokes for a tree. -/
def Node.draw (n : Node) : List Stroke :=
  (n.walk (fun m _ => some m.id) none).flatMap fun (parent, m) => m.ownStrokes parent

/-- A drawing. Nodes are known by name and numbered in the order in which they
    were added; an edge joins two numbers. -/
structure Graph where
  nodes : Array (String × String)
  edges : Array (Nat × Nat)

namespace Graph

/-- The drawing with nothing on it. -/
def empty : Graph := ⟨#[], #[]⟩

/-- The number of the node with a name. -/
def find? (g : Graph) (name : String) : Option Nat := g.nodes.findIdx? fun node => node.1 == name

/-- Adds a stroke. A node whose name is taken and an edge with a missing end are
    left out. -/
def add (g : Graph) : Stroke → Graph
  | .node name label =>
    if (g.find? name).isSome then g else { g with nodes := g.nodes.push (name, label) }
  | .edge source target =>
    match g.find? source, g.find? target with
    | some i, some j => { g with edges := g.edges.push (i, j) }
    | _, _ => g

/-- The drawing of a tree. -/
def ofTree (n : Node) : Graph := n.draw.foldl add empty

/-- A label between quotes: quotes and backslashes are marked by a backslash, a
    line break becomes `\l`. -/
def quoteLabel (label : String) : String :=
  String.ofList (label.toList.flatMap fun
    | '"' => ['\\', '"']
    | '\\' => ['\\', '\\']
    | '\n' => ['\\', 'l']
    | c => [c])

/-- The line for a node. -/
def nodeLine (number : Nat) (label : String) : String :=
  "    " ++ toString number ++ " [ label = \"" ++ quoteLabel label ++ "\" ]\n"

/-- The line for an edge. -/
def edgeLine (edge : Nat × Nat) : String :=
  "    " ++ toString edge.1 ++ " -> " ++ toString edge.2 ++ " [ ]\n"

/-- The drawing in the DOT language: the nodes, then the edges. -/
def dot (g : Graph) : String :=
  let nodes := (g.nodes.toList.map Prod.snd).zipIdx.map fun (label, number) => nodeLine number label
  let edges := g.edges.toList.map edgeLine
  "digraph \x7b\n" ++ String.join nodes ++ String.join edges ++ "\x7d\n"

end Graph

end Scriptlet
