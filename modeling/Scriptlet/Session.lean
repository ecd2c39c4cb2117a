import Scriptlet.Eval
import Scriptlet.Optimize
import Scriptlet.Token.Lexeme
import Scriptlet.Tree.Parser

/-!
# Sessions

A session runs one source after the other. Variables, functions and the supply
of ids carry over from each to the next.

Evaluation may not end, so the steps that evaluate take a bound as `eval` does,
and give `none` if it is too small.
-/

namespace Scriptlet

/-- The settings of a session. -/
structure Options where
  /-- whether trees are optimised before they are evaluated -/
  optimize : Bool := true
  /-- whether the optimiser also drops statements without use -/
  dropDeadCode : Bool := true
  /-- whether diagnostics are also written to the output -/
  echo : Bool := false
  /-- how many calls may be inside each other -/
  maxCallDepth : Nat := 128
  deriving DecidableEq

/-- A session. -/
structure Session where
  options : Options
  context : Context
  /-- the first id that is still free -/
  nextId : Nat

namespace Session

/-- A new session. -/
def start (options : Options) (writable : Bool) : Session where
  options
  context := .initial options.maxCallDepth options.echo writable
  nextId := 0

/-- Records errors of a source. -/
def recordAll (s : Session) (errors : List SourceError) : Session :=
  { s with context := errors.foldl (fun c e => c.record (.source e)) s.context }

/-- Writes a line to the output. -/
def writeLine (s : Session) (text : String) : Session :=
  { s with context := s.context.write (.printed text) }

/-- Splits a source into tokens, recording what is wrong with it. -/
def tokenize (s : Session) (source : String) : List Lexed × Session :=
  let (tokens, errors) := Scriptlet.tokenize source
  (tokens, s.recordAll errors)

/-- Makes a tree of tokens, recording what is wrong with them. -/
def parseTokens (s : Session) (tokens : List Lexed) : Node × Session :=
  let parsed := Scriptlet.parse tokens s.nextId
  (parsed.tree, { s.recordAll parsed.errors with nextId := parsed.nextId })

/-- Makes a tree of a source. -/
def parse (s : Session) (source : String) : Node × Session :=
  let (tokens, s) := s.tokenize source
  s.parseTokens tokens

/-- Optimises a tree, if the session does so at all. -/
def optimize (s : Session) (n : Node) : Node × Session :=
  if s.options.optimize then
    let (n, nextId) := (Scriptlet.optimize s.options.dropDeadCode n).run s.nextId
    (n, { s with nextId })
  else (n, s)

/-- Evaluates a tree. -/
def evaluate (s : Session) (bound : Nat) (n : Node) : Option (Option Value × Session) :=
  ((eval bound n).run s.context).map fun (value, context) => (value, { s with context })

/-- Runs a source: parses, optimises and evaluates it. -/
def run (s : Session) (bound : Nat) (source : String) : Option (Option Value × Session) :=
  let (n, s) := s.parse source
  let (n, s) := s.optimize n
  s.evaluate bound n

/-- The diagnostics recorded so far, which are forgotten. -/
def takeDiagnostics (s : Session) : List Diagnostic × Session :=
  (s.context.diagnostics.toList, { s with context := { s.context with diagnostics := #[] } })

end Session

/-- What a run of one source came to. -/
structure Report where
  value : Option Value
  output : List OutputLine
  diagnostics : List Diagnostic

/-- Whether a run recorded no diagnostic. -/
def Report.succeeded (r : Report) : Bool := r.diagnostics.isEmpty

/-- Runs a source in a session of its own. -/
def runSource (options : Options) (bound : Nat) (source : String) : Option Report :=
  ((Session.start options true).run bound source).map fun (value, s) =>
    ⟨value, s.context.output.toList, s.context.diagnostics.toList⟩

end Scriptlet
