import LambdaTrace.Reduce.Step

/-!
# Runs

No strategy ends on every term, so a run comes with a **budget** of steps. Its
trace has one entry for each term reached: the label says what kind of step led to
it, and the outcome what became of it – the step taken from it, or, at the last
entry, that there is no step (`finished`) or that there is one but the budget is
spent (`timedOut`). A normal form that is reached with the last step of the budget
is therefore no timeout.
-/

namespace LambdaTrace

/-- The steps a run may take when nothing else is asked for. -/
def defaultBudget : Nat := 32

/-- How a term of a trace was reached. -/
inductive Label where
  /-- The term the run started with. -/
  | start
  /-- By a contraction. -/
  | arrow
  /-- By an expansion. -/
  | equals
  deriving DecidableEq

/-- The mark a label is written with. -/
def Label.text : Label → String
  | .start => ""
  | .arrow => "→"
  | .equals => "="

/-- The label of the term that a step leads to. -/
def Event.label : Event → Label
  | .beta _ _ _ _ => .arrow
  | .expansion _ _ => .equals

/-- What became of a term of a trace. -/
inductive Outcome where
  /-- The run went on with this step. -/
  | stepped (step : Step)
  /-- There is no step. -/
  | finished
  /-- There is a step, but the budget is spent. -/
  | timedOut
  deriving DecidableEq

/-- The outcome in words; nothing is said of a term without a step. -/
def Outcome.summary? : Outcome → Option String
  | .stepped s => some s.event.summary
  | .finished => none
  | .timedOut => some "TIMED_OUT"

/-- One term of a trace. -/
structure Entry where
  label : Label
  term : Term
  outcome : Outcome
  deriving DecidableEq

/-- The terms of a run in order. -/
abbrev Trace := List Entry

/-- The run from a term that was reached as the label says. -/
def runFrom (step : Term → Option Step) : Nat → Label → Term → Trace
  | 0, label, t =>
    match step t with
    | none => [⟨label, t, .finished⟩]
    | some _ => [⟨label, t, .timedOut⟩]
  | budget + 1, label, t =>
    match step t with
    | none => [⟨label, t, .finished⟩]
    | some s => ⟨label, t, .stepped s⟩ :: runFrom step budget s.event.label s.next

/-- **The run** of a term under a strategy, of at most the budget's steps. -/
def Strategy.run (strategy : Strategy) (budget : Nat) (t : Term) : Trace :=
  runFrom strategy.step budget .start t

namespace Trace

/-- Whether the run spent its budget before the end. -/
def timedOut (trace : Trace) : Bool :=
  match trace.getLast? with
  | some ⟨_, _, .timedOut⟩ => true
  | _ => false

/-- The last term, if the run came to its end there. -/
def normalForm? (trace : Trace) : Option Term :=
  match trace.getLast? with
  | some ⟨_, _, .timedOut⟩ => none
  | some entry => some entry.term
  | none => none

end Trace

end LambdaTrace
