import Scriptlet.Diagnostic
import Scriptlet.Scope
import Scriptlet.Tree

/-!
# The state of a running program

A context holds the scopes, the functions, the diagnostics recorded so far and
the lines written so far. It outlives a single program, so that variables and
functions persist from one program to the next.

Output is kept line by line, and an echoed diagnostic is told apart from a
printed line; `outputText` is what a reader sees.
-/

namespace Scriptlet

/-- A line of output. -/
inductive OutputLine where
  /-- written by a `print` -/
  | printed (text : String)
  /-- a diagnostic shown when it is recorded -/
  | echoed (d : Diagnostic)
  deriving DecidableEq

/-- The text of a line, without its line break. -/
def OutputLine.text : OutputLine → String
  | printed text => text
  | echoed d => d.message

/-- The text of some lines, each with its line break. -/
def outputText (lines : List OutputLine) : String :=
  String.join (lines.map fun line => line.text ++ "\n")

/-- The place that output goes to. Writes are numbered from 0 on, in the order in
    which they are tried; a write that does not work is lost. -/
structure Writer where
  /-- whether a write works, by its number -/
  works : Nat → Bool
  /-- how many writes have been tried -/
  tried : Nat

namespace Writer

/-- A writer that always works, or that never does. -/
def steady (works : Bool) : Writer := ⟨fun _ => works, 0⟩

/-- Whether the next write works. -/
def accepts (w : Writer) : Bool := w.works w.tried

/-- The writer after a further write. -/
def next (w : Writer) : Writer := { w with tried := w.tried + 1 }

end Writer

/-- A function defined by the program. -/
structure Definition where
  name : String
  /-- names and types of the parameters, in order -/
  params : List (String × Ty)
  body : Node

/-- A function in a table. -/
structure Entry extends Definition where
  /-- the name it is kept under -/
  key : String

/-- Functions under the names they are called by, the last defined one first. -/
abbrev FunctionTable := List Entry

/-- The function that is kept under a name. -/
def FunctionTable.named? (table : FunctionTable) (name : String) : Option Definition :=
  (table.find? fun e => e.key == name).map Entry.toDefinition

/-- The state of a running program. -/
structure Context where
  scopes : Scopes
  functions : FunctionTable
  /-- how many calls may be inside each other -/
  maxCallDepth : Nat
  /-- how many calls are being evaluated -/
  callDepth : Nat
  diagnostics : Array Diagnostic
  /-- whether diagnostics are also written to the output -/
  echo : Bool
  writer : Writer
  /-- the lines that were written -/
  output : Array OutputLine

namespace Context

/-- A context before any program has run, with a writer that always works or never
    does. -/
def initial (maxCallDepth : Nat) (echo writable : Bool) : Context where
  scopes := .initial
  functions := []
  maxCallDepth
  callDepth := 0
  diagnostics := #[]
  echo
  writer := .steady writable
  output := #[]

/-- Writes a line to the output. Whether that works changes nothing else. -/
def write (c : Context) (line : OutputLine) : Context :=
  { c with
    writer := c.writer.next
    output := if c.writer.accepts then c.output.push line else c.output }

/-- Records a diagnostic, showing it first if diagnostics are echoed. -/
def record (c : Context) (d : Diagnostic) : Context :=
  let c := if c.echo then c.write (.echoed d) else c
  { c with diagnostics := c.diagnostics.push d }

/-- Records a fault on a line of the program. -/
def report (c : Context) (fault : Fault) (line : Nat) : Context := c.record (.runtime fault line)

/-- The function with a name. -/
def function? (c : Context) (name : String) : Option Definition := c.functions.named? name

/-- Adds a function under a name that is neither reserved nor in use. -/
def register (c : Context) (d : Definition) : Except Fault Context :=
  match c.scopes.available d.name with
  | .error fault => .error fault
  | .ok () =>
    if (c.function? d.name).isSome then .error (.redefinition d.name)
    else .ok { c with functions := ⟨d, d.name⟩ :: c.functions }

end Context

end Scriptlet
