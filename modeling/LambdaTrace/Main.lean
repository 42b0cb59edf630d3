import LambdaTrace.CommandLine.Run
import LambdaTrace.Files.Imports
import LambdaTrace.Terminal

/-!
# The program

Reads the files that the library is to work on, hands the arguments and the typed
lines to it, and writes what it returns. Everything that is decided is decided by
`LambdaTrace.CommandLine.runFile` and `LambdaTrace.Shell.enter`.
-/

namespace LambdaTrace

namespace Program

/-- Reads a file, if it can be read. -/
def readText? (path : String) : IO (Option String) :=
  try
    return some (← IO.FS.readFile path)
  catch _ =>
    return none

/-- Texts, under the absolute names of the files as they are written. -/
abbrev Contents := List (String × String)

/-- Reads files and all that they import, under their names as they are written. -/
partial def gather (directory : String) (contents : Contents) : List String → IO Contents
  | [] => return contents
  | path :: rest => do
    let name := FileName.join directory path
    if '\x00' ∈ name.toList || contents.any (·.1 == name) then
      gather directory contents rest
    else
      match ← readText? name with
      | none => gather directory contents rest
      | some text =>
        let imports := (Files.ofContents directory contents).importedBy path text
        gather directory ((name, text) :: contents) (imports ++ rest)

/-- Writes how the program ended, and returns its code. -/
def finish (ending : Ending) : IO UInt32 := do
  IO.print ending.output
  return (ending.code.getD 0).toUInt32

/-- Writes what the shell has written, which is forgotten. -/
def flush (sh : Shell) : IO Shell := do
  IO.print sh.session.reporter.output
  (← IO.getStdout).flush
  return { sh with session := sh.session.report ({ · with output := "" }) }

/-- Reads lines for the shell until it stops. -/
partial def converse (directory : String) (contents : Contents) (sh : Shell) : IO UInt32 := do
  let sh ← flush (sh.write sh.prompt)
  let typed ← (← IO.getStdin).getLine
  let line := if typed.isEmpty then Command.endOfInput.name else (typedLines typed).headD ""
  let text := sh.held ++ " " ++ line
  let imports := (Files.ofContents directory contents).importedBy Session.commandLineName text
  let known ← gather directory contents imports
  match sh.enter (.ofContents directory known) line with
  | (.error e, sh) => finish (CommandLine.endWith sh.session.reporter e)
  | (.ok stop, sh) =>
    let sh ← flush sh
    if stop then return 0 else converse directory contents sh

end Program

end LambdaTrace

open LambdaTrace in
def main (arguments : List String) : IO UInt32 := do
  let directory := (← IO.currentDir).toString
  let paint := if ← (← IO.getStdout).isTty then Painter.terminal else Painter.plain
  let reporter := Reporter.start true paint
  match CommandLine.readArguments arguments with
  | .error e =>
    IO.eprintln (CommandLine.usage ++ "\n" ++ e.message)
    return CommandLine.argumentErrorCode.toUInt32
  | .ok .help =>
    IO.println CommandLine.usage
    return 0
  | .ok (.file path request) =>
    let contents ← Program.gather directory [] [path]
    Program.finish (CommandLine.runFile (.ofContents directory contents) reporter path request)
  | .ok (.shell request) =>
    match CommandLine.openShell (.ofContents directory []) reporter request with
    | .error ending => Program.finish ending
    | .ok sh => Program.converse directory [] sh
