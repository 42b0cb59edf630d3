import LambdaTrace.CommandLine.Arguments
import LambdaTrace.Shell.Basic

/-!
# Running the program

The program runs a file and writes the last term of every run in it, or it reads
lines from its input and hands them to the shell. What it writes is collected in a
session's reporter, and how it ends is a `LambdaTrace.Ending`.
-/

namespace LambdaTrace

/-- How the program ended: what it has written, and the code it stopped with, if it
did not run to its end. -/
structure Ending where
  code : Option Nat
  output : String
  deriving DecidableEq

namespace CommandLine

/-- The code of a program that was stopped by an error. -/
def errorCode : Nat := 1

/-- The code of a program whose arguments make no sense. -/
def argumentErrorCode : Nat := 2

/-- The failure of an option that had two dashes in the place of its text: what is
left is an empty row of texts, and none of those is a strategy or a number. -/
def noText : CommandOption → Failure
  | .strategy => .unknown "AttributeError" "'list' object has no attribute 'strip'"
  | _ =>
    .unknown "TypeError"
      ("int() argument must be a string, a bytes-like object or a real number, not " ++ "'list'")

/-- The name of the strategy that is asked for. -/
def strategyName (request : Request) : Except Failure (Option String) :=
  match request.strategy with
  | none => .ok none
  | some (.given name) => .ok (some name)
  | some .nothing => .error (noText .strategy)

/-- The number of steps that is asked for along with a strategy. A strategy is looked
at first, so an unknown one is left for the session to complain of. -/
def budgetNumber (request : Request) (strategy : Option String) : Except Failure (Option Int) :=
  match request.budget with
  | none => .ok none
  | some (.given n) => .ok (some n)
  | some .nothing =>
    if strategy.all fun name => (Strategy.parse? name).isSome then .error (noText .timeout)
    else .ok none

/-- The options of the session that is asked for. -/
def sessionOptions (request : Request) : Except Failure Session.Options := do
  let strategy ← strategyName request
  let budget ← budgetNumber request strategy
  return ⟨strategy, budget.map .number, request.prelude, request.resugars⟩

/-- How the program ends when a failure reaches the end of it. -/
def endWith (reporter : Reporter) (failure : Failure) : Ending :=
  match reporter.close failure with
  | (.suppressed, reporter) => ⟨none, reporter.output⟩
  | (_, reporter) => ⟨some errorCode, reporter.output⟩

/-- The term that is written for a result, if it is the run of a term: the name-bearing
form of its last term if there is one. -/
def finalTerm? (result : StatementResult) : Option Term :=
  match result.statement.kind with
  | .execution => result.resugared.or (result.trace.getLast?.map (·.term))
  | _ => none

/-- Runs a file. -/
def runFile (files : Files) (reporter : Reporter) (path : String) (request : Request) : Ending :=
  match sessionOptions request with
  | .error failure => endWith reporter failure
  | .ok options =>
    match (Session.start files reporter path options).andThen fun () s => s.run with
    | (.error e, s) => endWith s.reporter e.failure
    | (.ok (), s) =>
      let lines := (s.results.filterMap finalTerm?).map fun t => t.pretty ++ "\n"
      ⟨none, s.reporter.output ++ String.join lines⟩

/-- Starts the shell and welcomes the user. -/
def openShell (files : Files) (reporter : Reporter) (request : Request) : Except Ending Shell :=
  match sessionOptions request with
  | .error failure => .error (endWith reporter failure)
  | .ok options =>
    match Session.start files reporter Session.commandLineName options with
    | (.error e, s) => .error (endWith s.reporter e.failure)
    | (.ok (), s) => .ok ((Shell.ofSession s).print Shell.welcome)

/-- Runs the shell on lines of input. -/
def runShell (files : Files) (reporter : Reporter) (request : Request) (lines : List String) :
    Ending :=
  match openShell files reporter request with
  | .error ending => ending
  | .ok sh =>
    match sh.loop files lines with
    | (.error e, sh) => endWith sh.session.reporter e
    | (.ok (), sh) => ⟨none, sh.session.reporter.output⟩

/-- **Runs the program** on arguments and an input. -/
def run (files : Files) (paint : Painter) (arguments : List String) (input : String) : Ending :=
  let reporter := Reporter.start true paint
  match readArguments arguments with
  | .error _ => ⟨some argumentErrorCode, ""⟩
  | .ok .help => ⟨some 0, ""⟩
  | .ok (.file path request) => runFile files reporter path request
  | .ok (.shell request) => runShell files reporter request (typedLines input)

end CommandLine

end LambdaTrace
