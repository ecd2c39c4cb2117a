import Scriptlet.Diagram
import Scriptlet.Session
import Scriptlet.Text.Backspace
import Scriptlet.Text.Blank
import Scriptlet.Token.Listing

/-!
# The command line

The command runs a script file, or else reads lines from the standard input and
runs each of them in one session. Unless told otherwise it writes a drawing of
each tree it evaluates to a file.

This module says what the command reads and writes; the reading and writing
itself is in `Scriptlet.Main`.
-/

namespace Scriptlet.Command

/-- What the command was asked to do. -/
structure Arguments where
  /-- the script; without one, lines are read from the standard input -/
  file : Option String := none
  /-- whether tokens are listed -/
  verbose : Bool := false
  /-- whether no drawing is written -/
  hideTree : Bool := false
  /-- the file for the drawing -/
  treeOutput : String := "ast.dot"
  /-- whether trees are evaluated as they were parsed -/
  noOptimize : Bool := false
  deriving DecidableEq

namespace Arguments

/-- The flags of a group such as `-vf`. What follows an `f` is the path. -/
def flagGroup : List Char → List String
  | [] => []
  | ['f'] => ["-f"]
  | 'f' :: '=' :: path => ["-f", String.ofList path]
  | 'f' :: path => ["-f", String.ofList path]
  | c :: cs => String.ofList ['-', c] :: flagGroup cs

/-- The words of an argument: a group of flags is taken apart, and so are a long
    flag and the value joined to it by an equals sign. -/
def words (arg : String) : List String :=
  match arg.toList with
  | '-' :: '-' :: cs =>
    match cs.dropWhile (· != '=') with
    | _ :: value => ["--" ++ String.ofList (cs.takeWhile (· != '=')), String.ofList value]
    | [] => [arg]
  | '-' :: c :: cs => flagGroup (c :: cs)
  | _ => [arg]

/-- Takes in a flag that has no value. -/
def withFlag? (a : Arguments) (flag : String) : Option Arguments :=
  if flag = "-v" ∨ flag = "--verbose" then some { a with verbose := true }
  else if flag = "--hide-tree" then some { a with hideTree := true }
  else if flag = "--no-optimize" then some { a with noOptimize := true }
  else none

/-- Takes in a flag with its value. -/
def withValue? (a : Arguments) (flag value : String) : Option Arguments :=
  if flag = "-f" ∨ flag = "--file" then some { a with file := some value }
  else if flag = "--tree-output" then some { a with treeOutput := value }
  else none

/-- Takes in words from left to right; none if one is not understood. The word
    `--` ends the flags, and nothing may follow it. -/
def withWords? (a : Arguments) : List String → Option Arguments
  | [] => some a
  | ["--"] => some a
  | [flag] => a.withFlag? flag
  | flag :: value :: rest =>
    match a.withValue? flag value with
    | some a => a.withWords? rest
    | none => (a.withFlag? flag).bind fun a => a.withWords? (value :: rest)

/-- What a list of arguments asks for, if it is understood. -/
def ofList? (args : List String) : Option Arguments :=
  ({} : Arguments).withWords? (args.flatMap words)

end Arguments

/-- The session for a script. -/
def scriptSession (a : Arguments) : Session := .start { optimize := !a.noOptimize } true

/-- The session for lines of input. Later lines may use the names of earlier
    ones, so nothing is dropped; diagnostics show where they arise. -/
def promptSession (a : Arguments) : Session :=
  .start { optimize := !a.noOptimize, dropDeadCode := false, echo := true } true

/-- A tree that is ready to be evaluated, and the drawing to be written. -/
structure Prepared where
  tree : Node
  drawing : Option String

/-- Makes the tree of a source, listing its tokens if that is asked for. -/
def prepare (a : Arguments) (s : Session) (source : String) : Prepared × Session :=
  let (tokens, s) := s.tokenize source
  let s := if a.verbose then tokens.foldl (fun s t => s.writeLine t.listing) s else s
  let (tree, s) := s.parseTokens tokens
  let (tree, s) := s.optimize tree
  (⟨tree, if a.hideTree then none else some (Graph.ofTree tree).dot⟩, s)

/-- What running a source came to: what is printed, the drawing, and the
    session afterwards. -/
structure Outcome where
  printed : String
  drawing : Option String
  session : Session

/-- Runs a source in a session. -/
def run (a : Arguments) (s : Session) (bound : Nat) (source : String) : Option Outcome :=
  let before := s.context.output.size
  let (prepared, s) := prepare a s source
  (s.evaluate bound prepared.tree).map fun (_, s) =>
    ⟨outputText (s.context.output.toList.drop before), prepared.drawing, s⟩

/-- The complaint about a script that cannot be read. -/
def unreadable (path : String) : String :=
  s!"Failed to read the input file '{path}'. Perhaps this file does not exist?"

/-- What is written about the diagnostics of a script, and the exit code. -/
def verdict (s : Session) : String × Nat :=
  let diagnostics := s.takeDiagnostics.1
  (String.join (diagnostics.map fun d => d.message ++ "\n"), if diagnostics.isEmpty then 0 else 1)

/-- The lines of an input, each with its line break; the last one may have
    none. -/
def splitLines (input : List Char) : List (List Char) :=
  match input with
  | [] => []
  | c :: cs =>
    match c, splitLines cs with
    | '\n', rest => ['\n'] :: rest
    | c, [] => [[c]]
    | c, line :: rest => (c :: line) :: rest

/-- A line without its line break, which may have a carriage return before
    it. -/
def withoutBreak (line : List Char) : List Char :=
  match line.reverse with
  | '\n' :: '\r' :: rest => rest.reverse
  | '\n' :: rest => rest.reverse
  | _ => line

/-- A line of input as it is run. -/
def typed (line : String) : String :=
  String.ofList (Text.takeBack (withoutBreak line.toList))

/-- Whether a line of input is skipped. -/
def isSkipped (line : String) : Bool := (Text.trim line.toList).isEmpty

/-- Runs a line of input. What it recorded has been shown, and is forgotten. -/
def runLine (a : Arguments) (s : Session) (bound : Nat) (line : String) : Option Outcome :=
  (run a s bound line).map fun outcome =>
    { outcome with session := outcome.session.takeDiagnostics.2 }

/-- Everything the command wrote, and its exit code. -/
structure Result where
  stdout : String
  stderr : String
  code : Nat
  /-- the drawings in the order in which they were written -/
  drawings : List String

/-- Runs the script with the given text, if it could be read. -/
def runScript (a : Arguments) (bound : Nat) (path : String) (text : Option String) :
    Option Result :=
  match text with
  | none => some ⟨"", unreadable path ++ "\n", 1, []⟩
  | some text =>
    (run a (scriptSession a) bound text).map fun outcome =>
      let (complaints, code) := verdict outcome.session
      ⟨outcome.printed, complaints, code, outcome.drawing.toList⟩

/-- Runs typed lines one by one. -/
def runLines (a : Arguments) (bound : Nat) (s : Session) : List String → Option Result
  | [] => some ⟨"", "", 0, []⟩
  | line :: lines =>
    if isSkipped line then runLines a bound s lines
    else do
      let outcome ← runLine a s bound line
      let rest ← runLines a bound outcome.session lines
      return { rest with
        stdout := outcome.printed ++ rest.stdout
        drawings := outcome.drawing.toList ++ rest.drawings }

/-- Runs the lines of an input. -/
def runInput (a : Arguments) (bound : Nat) (input : String) : Option Result :=
  runLines a bound (promptSession a)
    ((splitLines input.toList).map fun line => typed (String.ofList line))

end Scriptlet.Command
