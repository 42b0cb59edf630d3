import LambdaTrace.Files.Store
import LambdaTrace.Macros.Prelude
import LambdaTrace.Macros.Resugar
import LambdaTrace.Report.Reporter
import LambdaTrace.Statement
import LambdaTrace.Text.Integer

/-!
# Sessions

A session holds the macros, the strategy and the budget under which terms are run,
the statements still to be run, and the results not yet fetched. It belongs to a
main file, or to the command line, whose name is
`LambdaTrace.Session.commandLineName`.

Everything that can go wrong in a session is a `LambdaTrace.SessionError`, and what
is told to the user about it is `LambdaTrace.SessionError.report`. Some of it could
only go wrong by a slip of the program, which takes something away that has to be
there, or fills a template (`LambdaTrace.Slip`). And a file name with a null character
in it is noticed by none of the program's checks; what opening it comes to is no error
of the program either (`LambdaTrace.SessionError.nullInName`). A piece of work on a
session returns its result or an error, and in either case the session as it is then
(`LambdaTrace.Session.Work`).
-/

namespace LambdaTrace

/-- What only the program itself can get wrong. -/
inductive Slip where
  /-- A file is to be taken off the list of files, and is not on it. -/
  | unlisted (path : String)
  /-- A file is done, and none is being loaded. -/
  | noneLoading
  /-- A statement is taken up, and none waits under its number. -/
  | noneWaiting (number : Int)
  /-- The template of a message cannot be filled. -/
  | template (e : TemplateError)
  deriving DecidableEq

/-- What a slip is called. -/
def Slip.name : Slip → String
  | .unlisted _ => "UnlistedFile"
  | .noneLoading => "NoFileLoading"
  | .noneWaiting _ => "NoStatementWaiting"
  | .template _ => "UnfilledTemplate"

/-- What a slip is about. -/
def Slip.message : Slip → String
  | .unlisted path => path
  | .noneLoading => ""
  | .noneWaiting number => toString number
  | .template e => e.message

/-- What is said of a name with a null character in it. -/
def nullByteMessage : String := "embedded null byte"

/-- What opening a file under a name with a null character in it comes to. -/
def Failure.nullInName : Failure :=
  .unknown "ValueError" nullByteMessage

/-- What a slip is outside of a session. -/
def Slip.failure (w : Slip) : Failure :=
  .unknown w.name w.message

/-- What a template that cannot be filled is outside of a session. -/
def TemplateError.failure (e : TemplateError) : Failure :=
  (Slip.template e).failure

/-- What can go wrong in a session. -/
inductive SessionError where
  /-- A file that is being loaded is to be loaded again. -/
  | circularImport (path : String)
  /-- A file that cannot be opened. -/
  | unreadable (path : String)
  /-- A file is to be opened under a name with a null character in it. -/
  | nullInName (path : String)
  /-- A line that is no statement. -/
  | statement (e : StatementError)
  /-- A definition that cannot be added. -/
  | table (e : TableError)
  /-- A term that cannot be read. -/
  | reading (e : SyntaxError)
  /-- A name that is no strategy's. -/
  | unknownStrategy (name : String)
  /-- A text that is no positive number of steps. -/
  | badBudget (text : String)
  /-- A step is asked for before there is a term. -/
  | nothingToStep
  /-- A slip of the program. -/
  | slip (w : Slip)
  deriving DecidableEq

/-- The error of a file that is not opened. -/
def SessionError.ofOpening (path : String) : OpenFault → SessionError
  | .notFound => .unreadable path
  | .nullInName => .nullInName path

/-! ### What is told to the user -/

/-- The report of a line that is no statement. -/
def StatementError.report : StatementError → Report
  | .malformedImport line => .about "#import expects \"FILENAME\"" line true
  | .blank line => .about ("'" ++ line ++ "' is not valid lambdalab grammar") line true

/-- **What is told to the user** about an error of a session. -/
def SessionError.report : SessionError → Report
  | .circularImport path => .about ("circular import of '" ++ path ++ "'") path false
  | .unreadable path => .about ("'" ++ path ++ "' could not be opened") path false
  | .nullInName _ => { Report.plain nullByteMessage with internal := true }
  | .statement e => e.report
  | .table e => e.report
  | .reading e => e.report
  | .unknownStrategy name => .about ("unknown evaluation strategy '" ++ name ++ "'") name false
  | .badBudget text =>
    .about ("timeout must be a positive number of steps, got '" ++ text ++ "'") text false
  | .nothingToStep => .about "nothing to step: evaluate a term first" "" false
  | .slip w => { Report.plain w.message with internal := true }

/-! ### Raising errors

The message of an error is written as a template, which is filled with the text that the
error is about when the error is raised. -/

/-- A message written as a template of the source text that it is about. -/
def Report.ofSubject (template expr : String) (diagnosis : Bool) : Except TemplateError Report :=
  Report.ofTemplate .general template [expr] 0 (-1) diagnosis false

/-- A source text that could not be read, as it is raised. -/
def SyntaxError.raised (e : SyntaxError) : Except TemplateError Report :=
  Report.readingOfTemplate e.fault.message e.offset e.source

/-- An error of the table, as it is raised. -/
def TableError.raised : TableError → Except TemplateError Report
  | .reading e => e.raised
  | .circular cycle =>
    Report.ofTemplate .definition "cannot define circularly dependent macro: \x7b\x7d"
      [cycleText cycle] 0 (-1) false false

/-- A line that is no statement, as it is raised. -/
def StatementError.raised : StatementError → Except TemplateError Report
  | .malformedImport line => Report.ofSubject "#import expects \"FILENAME\"" line true
  | .blank line => Report.ofSubject "'\x7b\x7d' is not valid lambdalab grammar" line true

/-- An error of a session, as it is raised. -/
def SessionError.raised : SessionError → Except Failure Report
  | .circularImport path =>
    (Report.ofSubject "circular import of '\x7b\x7d'" path false).mapError TemplateError.failure
  | .unreadable path =>
    (Report.ofSubject "'\x7b\x7d' could not be opened" path false).mapError TemplateError.failure
  | .nullInName _ => .error .nullInName
  | .statement e => e.raised.mapError TemplateError.failure
  | .table e => e.raised.mapError TemplateError.failure
  | .reading e => e.raised.mapError TemplateError.failure
  | .unknownStrategy name =>
    (Report.ofSubject "unknown evaluation strategy '\x7b\x7d'" name
      false).mapError TemplateError.failure
  | .badBudget text =>
    (Report.ofSubject "timeout must be a positive number of steps, got '\x7b\x7d'" text
      false).mapError TemplateError.failure
  | .nothingToStep =>
    (Report.ofSubject "nothing to step: evaluate a term first" ""
      false).mapError TemplateError.failure
  | .slip w => .error w.failure

/-- What an error of a session is outside of the session. -/
def SessionError.failure (e : SessionError) : Failure :=
  match e.raised with
  | .ok r => .reported r
  | .error failure => failure

/-! ### The state of a session -/

/-- The result of a statement: its run, and the name-bearing form of its normal form
if that has names in it. -/
structure StatementResult where
  statement : Statement
  trace : Trace
  resugared : Option Term
  deriving Inhabited

/-- The state of a session. -/
structure Session where
  /-- The main file, or the name of the command line. -/
  path : String
  strategy : Strategy
  /-- The macros, with the budget that every run is given. -/
  table : MacroTable
  /-- Whether results are named after macros. -/
  resugars : Bool
  /-- The statements still to be run, under their line numbers. -/
  pending : List (Int × Statement)
  /-- The results not yet fetched, oldest first. -/
  results : List StatementResult
  /-- The term that guesses are about. -/
  current : Option Term
  /-- The absolute names of the files being loaded, outermost first. -/
  loading : List String
  reporter : Reporter
  deriving Inhabited

/-- A number of steps as it is asked for. -/
inductive BudgetRequest where
  | number (n : Int)
  | text (s : String)
  deriving DecidableEq

namespace Session

/-- The name of the command line in the place of a main file. -/
def commandLineName : String := "<in>"

/-- The strategy of a session that asks for none. -/
def defaultStrategy : Strategy := .cbv

/-- What a piece of work on a session comes to: a result or an error, and the session
as it is then. -/
abbrev Work (α : Type) := Except SessionError α × Session

/-- The steps that every run may take. -/
def budget (s : Session) : Nat :=
  s.table.budget

/-- The session with another reporter. -/
def report (s : Session) (f : Reporter → Reporter) : Session :=
  { s with reporter := f s.reporter }

/-! ### Settings -/

/-- Sets the strategy. -/
def setStrategy (s : Session) (name : String) : Work Unit :=
  match Strategy.parse? name with
  | none => (.error (.unknownStrategy name), s)
  | some strategy => (.ok (), { s with strategy })

/-- Sets the budget of all runs, those that look for the values of macros included. -/
def setBudget (s : Session) (request : BudgetRequest) : Work Unit :=
  let value? := match request with
    | .number n => some n
    | .text t => integer? t
  match value?, request with
  | some n, _ =>
    if 0 < n then (.ok (), { s with table := { s.table with budget := n.toNat } })
    else (.error (.badBudget (toString n)), s)
  | none, .text t => (.error (.badBudget t), s)
  | none, .number n => (.error (.badBudget (toString n)), s)

/-! ### The terms and macros of a session -/

/-- Reads a term with the macros and the strategy of the session. -/
def parse (s : Session) (text : String) : Except SyntaxError Term :=
  LambdaTrace.parse (s.table.resolve s.strategy) text

/-- Adds a macro. -/
def define (s : Session) (text : String) : Work (String × Trace) :=
  match s.table.define text with
  | (table, .error e) => (.error (.table e), { s with table })
  | (table, .ok r) => (.ok r, { s with table })

/-- The macros in the order of dependency, made anew. -/
def macroList (s : Session) : Work (List Definition) :=
  match s.table.recompile with
  | (table, some e) => (.error (.table e), { s with table })
  | (table, none) =>
    match table.dependencyOrder with
    | .error cycle => (.error (.table (.circular cycle)), { s with table })
    | .ok ds => (.ok ds, { s with table })

end Session

end LambdaTrace
