import Scriptlet.Optimize.DeadCode
import Scriptlet.Optimize.Simplify

/-!
# Optimisation

A tree is first simplified; then, if wanted, statements without use are
dropped. That is not wanted where later programs may still use the names.
-/

namespace Scriptlet

/-- Optimises a tree. -/
def optimize (dropDeadCode : Bool) (n : Node) : Fresh Node := do
  let n ← Optimize.simplify n
  return if dropDeadCode then Optimize.eliminate n else n

end Scriptlet
