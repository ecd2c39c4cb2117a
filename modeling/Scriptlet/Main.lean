import Scriptlet.Command

/-!
# The program

Reads files and standard input, and writes what `Scriptlet.Command` says.
-/

open Scriptlet Scriptlet.Command

/-- A bound on evaluation that no run reaches in practice. -/
def ampleBound : Nat := Nat.pow 2 62

/-- Writes drawings one after the other. A file that cannot be written is passed
    over. -/
def writeDrawings (a : Arguments) (drawings : List String) : IO Unit :=
  drawings.forM fun text => try IO.FS.writeFile a.treeOutput text catch _ => pure ()

/-- Runs a script file. -/
def scriptMain (a : Arguments) (path : String) : IO UInt32 := do
  let text ← try some <$> IO.FS.readFile path catch _ => pure none
  match runScript a ampleBound path text with
  | none => return 1
  | some result =>
    writeDrawings a result.drawings
    IO.print result.stdout
    IO.eprint result.stderr
    return result.code.toUInt32

/-- Runs lines of input until they end. -/
partial def promptMain (a : Arguments) (s : Session) : IO UInt32 := do
  let line ← (← IO.getStdin).getLine
  if line.isEmpty then return 0
  let line := typed line
  if isSkipped line then promptMain a s
  else
    match runLine a s ampleBound line with
    | none => return 1
    | some outcome =>
      writeDrawings a outcome.drawing.toList
      IO.print outcome.printed
      promptMain a outcome.session

/-- The entry point. -/
def main (args : List String) : IO UInt32 := do
  match Arguments.ofList? args with
  | none =>
    IO.eprintln "error: the arguments were not understood"
    return 2
  | some a =>
    match a.file with
    | some path => scriptMain a path
    | none => promptMain a (promptSession a)
