import Scriptlet.Optimize.Liveness

/-!
# Dropping statements without use

A sweep drops from every block the statements that only bind a name nobody
uses. That can leave further names without use, so sweeps are repeated until
one drops nothing.

The last statement of a block whose value is observed stays where the statement
before it may yield a value: dropping it would let that value through. The
value of a block is observed if the block is the program or the body of a
function, or the last statement of such a block.
-/

namespace Scriptlet.Optimize

mutual

/-- One sweep over a tree. `everywhere` are the names used everywhere, `outer`
    those visible around the tree. A block is swept only where it is the body of
    a statement; `head` then holds the nodes that run alongside it. -/
def sweep (everywhere outer : Names) (head : Option (List Node)) (observed : Bool) : Node → Node
  | ⟨id, line, .program body⟩ =>
    ⟨id, line, .program (sweep everywhere outer (some []) true body)⟩
  | ⟨id, line, .block statements⟩ =>
    match head with
    | none => ⟨id, line, .block statements⟩
    | some head =>
      let live := Liveness.ofBlock everywhere outer head statements
      ⟨id, line, .block (sweepAll everywhere live observed false statements)⟩
  | ⟨id, line, .scope body⟩ =>
    ⟨id, line, .scope (sweep everywhere outer (some []) observed body)⟩
  | ⟨id, line, .branch guard body⟩ =>
    ⟨id, line, .branch guard (sweep everywhere outer (some [guard]) observed body)⟩
  | ⟨id, line, .whileLoop guard body⟩ =>
    ⟨id, line, .whileLoop guard (sweep everywhere outer (some [guard]) observed body)⟩
  | ⟨id, line, .forLoop start guard step body⟩ =>
    ⟨id, line, .forLoop start guard step
      (sweep everywhere outer (some [start, guard, step]) observed body)⟩
  | ⟨id, line, .function name params body⟩ =>
    ⟨id, line, .function name params (sweep everywhere outer (some []) true body)⟩
  | n => n
termination_by structural n => n

/-- One sweep over the statements of a block. `yields` says whether the
    statement before them was kept and may yield a value. -/
def sweepAll (everywhere : Names) (live : Liveness) (observed yields : Bool) :
    List Node → List Node
  | [] => []
  | n :: ns =>
    let last := observed && ns.isEmpty
    if live.isDead n && !(last && yields) then sweepAll everywhere live observed yields ns
    else
      sweep everywhere live.visible none last n ::
        sweepAll everywhere live observed (!n.isValueless) ns
termination_by structural ns => ns

end

/-- One sweep over a whole program. -/
def sweepProgram (n : Node) : Node := sweep n.usedEverywhere [] none true n

/-- Drops all statements without use. -/
def eliminate (n : Node) : Node :=
  let swept := sweepProgram n
  if swept.size < n.size then eliminate swept else swept
termination_by n.size

end Scriptlet.Optimize
