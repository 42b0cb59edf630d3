import LambdaTrace.Session.Load
import LambdaTrace.Sharing.Expansions
import LambdaTrace.Term.Match

/-!
# Running statements

The terms that wait in a session are run one after the other, under the strategy
and the budget of the session. Each leaves the list of waiting ones as soon as it is
taken up, whether or not it can be read; a run that spends its budget is reported by
a warning and counts as a result like any other.

A session also remembers the last term that was read for a run. The user can guess
the next step of that term, and a right guess moves on to it.
-/

namespace LambdaTrace

namespace Session

/-- Reads a term and runs it. -/
def evaluate (s : Session) (text : String) : Work Trace :=
  match s.parse text with
  | .error e => (.error (.reading e), s)
  | .ok t => (.ok (s.strategy.run s.budget t), { s with current := some t })

/-- The warning that a run has spent its budget. -/
def timeoutWarning (s : Session) (statement : Statement) : Except TemplateError Report :=
  Report.ofTemplate .general "'\x7b\x7d' has no normal form within \x7b\x7d steps"
    [statement.text, toString s.budget] 0 (-1) false false

/-- The name-bearing form of the last term of a run, if that has names in it. A run
that spent its budget is reported instead. -/
def conclude (s : Session) (statement : Statement) (trace : Trace) : Work (Option Term) :=
  match trace.normalForm? with
  | none =>
    match s.timeoutWarning statement with
    | .error e => (.error (.slip (.template e)), s)
    | .ok r => (.ok none, s.report (·.warn r))
  | some t =>
    if s.resugars then
      match s.table.resugar s.strategy t with
      | .error cycle => (.error (.table (.circular cycle)), s)
      | .ok (named, changed) => (.ok (if changed then some named else none), s)
    else (.ok none, s)

/-- Takes the statement away that waits under a number. -/
def dropPending (s : Session) (number : Int) : Work Unit :=
  if number ∈ s.pending.map (·.1) then
    (.ok (), { s with pending := s.pending.filter (·.1 != number) })
  else (.error (.slip (.noneWaiting number)), s)

/-- Runs one statement, which waits under the given number. -/
def runStatement (s : Session) (number : Int) (statement : Statement) : Work Unit :=
  let started := s.report (·.registerLine s.path statement.text number)
  match started.evaluate statement.text with
  | (.error e, s) => (s.dropPending number).andThen fun () s => (.error e, s)
  | (.ok trace, s) =>
    (s.dropPending number).andThen fun () s =>
      (s.conclude statement trace).andThen fun resugared s =>
        let kept : Session := { s with results := s.results ++ [⟨statement, trace, resugared⟩] }
        (.ok (), kept.finishLine s.path)

/-- Runs statements in turn, up to the first error. -/
def runStatements (s : Session) : List (Int × Statement) → Work Unit
  | [] => (.ok (), s)
  | (number, statement) :: rest =>
    (s.runStatement number statement).andThen fun () s => s.runStatements rest

/-- **Runs the statements that wait.** -/
def run (s : Session) : Work Unit :=
  s.runStatements s.pending

/-- Fetches the oldest result, if there is one. -/
def pop? (s : Session) : Option (StatementResult × Session) :=
  match s.results with
  | [] => none
  | r :: rest => some (r, { s with results := rest })

/-! ### Steps and guesses -/

/-- The next step of the current term, if it has one. -/
def step (s : Session) : Except SessionError (Option Step) :=
  match s.current with
  | none => .error .nothingToStep
  | some t => .ok (s.strategy.step t)

/-- **Checks a guess** of the next step, and moves on if it is right. Returns whether
it is, and the next term if there is one. -/
def checkGuess (s : Session) (text : String) : Work (Bool × Option Term) :=
  match s.parse text with
  | .error e => (.error (.reading e), s)
  | .ok guess =>
    match s.step with
    | .error e => (.error e, s)
    | .ok none => (.ok (false, none), s)
    | .ok (some step) =>
      if step.next.matchesPattern guess then
        (.ok (true, some step.next), { s with current := some step.next })
      else (.ok (false, some step.next), s)

/-! ### Showing runs -/

/-- The lines of a run of the session, each step decorated. -/
def decoratedLines (s : Session) (mark : Decoration) (trace : Trace) : List String :=
  s.table.decoratedLines s.strategy mark trace

end Session

end LambdaTrace
