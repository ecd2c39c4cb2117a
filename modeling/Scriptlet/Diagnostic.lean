import Scriptlet.Fault
import Scriptlet.SourceError

/-!
# Diagnostics

Every failure, in the source text or in the run, ends up as a diagnostic. It is
recorded, and the work goes on.
-/

namespace Scriptlet

/-- A recorded failure. -/
inductive Diagnostic where
  | source (e : SourceError)
  | runtime (fault : Fault) (line : Nat)
  deriving DecidableEq

namespace Diagnostic

/-- The line a diagnostic points at. -/
def line : Diagnostic → Nat
  | source e => e.line
  | runtime _ line => line

/-- The sentence that tells the user about a failure. -/
def message : Diagnostic → String
  | source e => e.message
  | runtime fault line => s!"Error on line {line}: {fault.message}"

end Diagnostic

end Scriptlet
