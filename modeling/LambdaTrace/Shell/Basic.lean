import LambdaTrace.Session.Run
import LambdaTrace.Shell.Command

/-!
# The shell

The shell reads lines from the command line. A command is carried out at once; a
line with more opening than closing parentheses is held back and joined to the next
one; and a complete statement is added to the session, run and shown. Errors are
written by the session's reporter, and the shell goes on.
-/

namespace LambdaTrace

/-- The state of the shell. -/
structure Shell where
  session : Session
  /-- The beginning of a statement that goes on in the next line. -/
  held : String
  /-- Whether a statement goes on in the next line. -/
  continuing : Bool
  /-- The number of lines typed so far that are no commands. -/
  lineNumber : Nat
  deriving Inhabited

/-- What a step of the shell comes to: whether the shell is to stop, or a failure
that it does not survive, and the shell as it is then. -/
abbrev ShellWork := Except Failure Bool × Shell

namespace Shell

/-- The shell at its start. -/
def ofSession (session : Session) : Shell :=
  ⟨session, "", false, 0⟩

/-- What is written when the shell is entered. -/
def welcome : String :=
  "lambdalab :: lambda calculus evaluator\nType '?' or 'help' for more information."

/-- What is written before a line is read. -/
def prompt (sh : Shell) : String :=
  if sh.continuing then ". " else "> "

/-- How the output is painted. -/
def paint (sh : Shell) : Painter :=
  sh.session.reporter.paint

/-- Writes a text. -/
def write (sh : Shell) (text : String) : Shell :=
  { sh with session := sh.session.report (·.write text) }

/-- Writes a line. -/
def print (sh : Shell) (line : String) : Shell :=
  write sh (line ++ "\n")

/-- The ink of a part of a step. -/
def inkOf : Highlight → Ink
  | .target => .underline
  | .substituted => .plainIn .green
  | _ => .boldIn .blue

/-- The decoration of steps by inks. -/
def decoration (sh : Shell) : Decoration :=
  fun kind text => sh.paint (inkOf kind) text

/-- The lines of a run. -/
def traceLines (sh : Shell) (trace : Trace) : List String :=
  sh.session.decoratedLines sh.decoration trace

/-! ### Showing results -/

/-- Shows a macro: its value under the strategy of the session. -/
def showDefinition (sh : Shell) (statement : Statement) : Except Failure Shell :=
  let name := statement.definedName?.getD ""
  match sh.session.table.get? name with
  | some d => .ok (sh.print (d.line (d.expansionFor sh.session.strategy)))
  | none => .error (.unknown "UndefinedMacro" name)

/-- Shows a run, and its result once more if that has names in it. -/
def showRun (sh : Shell) (result : StatementResult) : Shell :=
  let shown := (sh.traceLines result.trace).foldl print sh
  match result.resugared with
  | some t => shown.print ("= " ++ t.pretty)
  | none => shown

/-- Shows a result. -/
def showResult (sh : Shell) (result : StatementResult) : Except Failure Shell :=
  match result.statement.kind with
  | .definition => sh.showDefinition result.statement
  | _ => .ok (sh.showRun result)

/-- Shows results in turn, each being fetched from the session first. -/
def showResults : List StatementResult → Shell → Except Failure Unit × Shell
  | [], sh => (.ok (), sh)
  | result :: rest, sh =>
    let sh := { sh with session := { sh.session with results := rest } }
    match sh.showResult result with
    | .error e => (.error e, sh)
    | .ok sh => showResults rest sh

/-! ### Errors -/

/-- Ends a piece of work at the reporter. A failure that goes on its way out ends the
shell. -/
def close (w : Except Failure Unit × Shell) : ShellWork :=
  match w with
  | (.ok (), sh) => (.ok false, sh)
  | (.error e, sh) =>
    let (verdict, reporter) := sh.session.reporter.close e
    let sh := { sh with session := { sh.session with reporter } }
    match verdict with
    | .suppressed => (.ok false, sh)
    | .stop => (.error .leave, sh)
    | .escape => (.error e, sh)
    | .unwritable _ => (.error e, sh)

/-- A piece of work on the session, as one on the shell. -/
def onSession {α : Type} (sh : Shell) (w : Session.Work α) : Except Failure α × Shell :=
  (w.1.mapError SessionError.failure, { sh with session := w.2 })

/-- Continues a piece of work where it succeeds. -/
def andThen {α β : Type} (w : Except Failure α × Shell)
    (f : α → Shell → Except Failure β × Shell) : Except Failure β × Shell :=
  match w with
  | (.error e, sh) => (.error e, sh)
  | (.ok a, sh) => f a sh

/-! ### Statements -/

/-- Adds a statement, runs it, and shows what came of it. -/
def carryOut (files : Files) (sh : Shell) (text : String) : Except Failure Unit × Shell :=
  andThen (sh.onSession (sh.session.add files text sh.lineNumber)) fun () sh =>
    andThen (sh.onSession sh.session.run) fun () sh =>
      showResults sh.session.results sh

/-- Takes a line of a statement, joined to what was held back, and returns the statement
if it is complete. -/
def hold (sh : Shell) (line : String) : Option String × Shell :=
  let text := Grouping.clean (sh.held ++ " " ++ line)
  let sh := { sh with lineNumber := sh.lineNumber + 1 }
  if Grouping.goesOn text then (none, { sh with held := text, continuing := true })
  else
    let sh := { sh with held := "", continuing := false }
    (if text.isEmpty then none else some text, sh)

/-- Takes a line of a statement, and carries out the statement if it is complete. -/
def takeLine (files : Files) (sh : Shell) (line : String) : ShellWork :=
  match sh.hold line with
  | (none, sh) => (.ok false, sh)
  | (some text, sh) => close (carryOut files sh text)

/-! ### Commands -/

/-- Shows or sets the strategy. -/
def commandStrategy (sh : Shell) (argument : String) : Except Failure Unit × Shell :=
  let set : Session.Work Unit :=
    if argument.isEmpty then (.ok (), sh.session) else sh.session.setStrategy argument
  andThen (sh.onSession set) fun () sh =>
    (.ok (), sh.print ("strategy: " ++ sh.session.strategy.name ++ " (one of " ++
      Strategy.listing ++ ")"))

/-- Shows or sets the budget. -/
def commandTimeout (sh : Shell) (argument : String) : Except Failure Unit × Shell :=
  let set : Session.Work Unit :=
    if argument.isEmpty then (.ok (), sh.session) else sh.session.setBudget (.text argument)
  andThen (sh.onSession set) fun () sh =>
    (.ok (), sh.print ("timeout: " ++ toString sh.session.budget ++ " steps"))

/-- Lists the macros. -/
def commandMacros (sh : Shell) : Except Failure Unit × Shell :=
  andThen (sh.onSession sh.session.macroList) fun ds sh =>
    (.ok (), ds.foldl (fun sh d => sh.print (d.line d.unreduced)) sh)

/-- Checks a guess. -/
def commandGuess (sh : Shell) (argument : String) : Except Failure Unit × Shell :=
  andThen (sh.onSession (sh.session.checkGuess argument)) fun (correct, actual) sh =>
    match actual with
    | none => (.ok (), sh.print "no step: the term is already a value")
    | some t =>
      let verdict :=
        if correct then sh.paint (.boldIn .green) "correct" ++ ": "
        else sh.paint (.boldIn .red) "incorrect" ++ ": the next step is "
      (.ok (), sh.print (verdict ++ t.pretty))

/-- Draws the tree of a term. -/
def commandTree (sh : Shell) (argument : String) : Except Failure Unit × Shell :=
  match sh.session.parse argument with
  | .error e => (.error (SessionError.reading e).failure, sh)
  | .ok t => (.ok (), sh.print (t.outline 0))

/-- Carries out a command. -/
def obey (sh : Shell) (command : Command) (argument : String) : ShellWork :=
  match command with
  | .strategy => close (sh.commandStrategy argument)
  | .timeout => close (sh.commandTimeout argument)
  | .macros => close sh.commandMacros
  | .guess => close (sh.commandGuess argument)
  | .tree => close (sh.commandTree argument)
  | .help => (.ok false, sh.print (Command.helpOn argument))
  | .endOfInput => (.ok true, sh.print "")
  | .exit => (.ok true, sh)

/-- **A line at the prompt.** -/
def enter (files : Files) (sh : Shell) (line : String) : ShellWork :=
  match Input.ofLine line with
  | .nothing => (.ok false, sh)
  | .command c argument => sh.obey c argument
  | .statement line => sh.takeLine files line

/-- Reads lines at the prompt until the shell stops. The end of the input is a line
of its own, which stops it. -/
def loop (files : Files) (sh : Shell) : List String → Except Failure Unit × Shell
  | [] =>
    match (sh.write sh.prompt).enter files Command.endOfInput.name with
    | (.error e, sh) => (.error e, sh)
    | (.ok _, sh) => (.ok (), sh)
  | line :: lines =>
    match (sh.write sh.prompt).enter files line with
    | (.error e, sh) => (.error e, sh)
    | (.ok true, sh) => (.ok (), sh)
    | (.ok false, sh) => loop files sh lines

end Shell

end LambdaTrace
