import LambdaTrace.Reduce.Strategy
import LambdaTrace.Term.Substitute

/-!
# One step of reduction

A strategy is a function that takes a term to its next step, or to nothing when
the term is a value, or a normal form, for that strategy. There are two kinds of
step: the contraction of a redex, and the expansion of a macro reference into what
it stands for. References are only expanded where a strategy has to look inside:
at the head of an application, and as an argument when what it stands for is
itself an application, so that there is something left to reduce. Call by name,
which never reduces arguments, does the former only.

The four functions read as the orders they implement: at an application each
tries the same few alternatives – a step of the function, the expansion of the
head, the contraction, a step of the argument – and they differ in the order and
in whether they go under binders.

A `LambdaTrace.Step` says, besides the next term, where the step took place and
what happened there, with the positions of the copies that a contraction inserted.
-/

namespace LambdaTrace

/-- What happens at the place of a step. -/
inductive Event where
  /-- The contraction of `(λbinder. body) arg`; the positions of the inserted
  copies are those in the contracted term, from left to right. -/
  | beta (binder : String) (body arg : Term) (copies : List Path)
  /-- The expansion of a reference into what it stands for. -/
  | expansion (name : String) (body : Term)
  deriving DecidableEq

/-- A step of a term: the next term, the place of the step, and what happened. -/
structure Step where
  next : Term
  path : Path
  event : Event
  deriving DecidableEq

namespace Step

/-- A step of the function, as a step of the application. -/
def inFn (s : Step) (arg : Term) : Step :=
  ⟨.app s.next arg, .left :: s.path, s.event⟩

/-- A step of the argument, as a step of the application. -/
def inArg (s : Step) (fn : Term) : Step :=
  ⟨.app fn s.next, .right :: s.path, s.event⟩

/-- A step of the body, as a step of the abstraction. -/
def inBody (s : Step) (binder : String) : Step :=
  ⟨.abs binder s.next, .body :: s.path, s.event⟩

/-- The contraction of a redex. -/
def contract (binder : String) (body arg : Term) : Step :=
  let r := body.substitute arg binder
  ⟨r.1, [], .beta binder body arg r.2⟩

/-- The expansion of a reference. -/
def expand (name : String) (body : Term) : Step :=
  ⟨body, [], .expansion name body⟩

/-- The positions of the inserted copies in the next term. -/
def copies (s : Step) : List Path :=
  match s.event with
  | .beta _ _ _ copies => copies.map (s.path ++ ·)
  | .expansion _ _ => []

/-! ### The alternatives at an application -/

/-- The contraction of an application whose function is an abstraction. -/
def contractAt : (fn arg : Term) → Option Step
  | .abs x b, a => some (contract x b a)
  | _, _ => none

/-- The expansion of the function of an application. -/
def expandFn : (fn arg : Term) → Option Step
  | .ref n t, a => some ((expand n t).inFn a)
  | _, _ => none

/-- The expansion of the argument of an application, if that stands for an
application, which is still to be reduced. -/
def expandArg : (fn arg : Term) → Option Step
  | f, .ref n (.app g b) => some ((expand n (.app g b)).inArg f)
  | _, _ => none

end Step

namespace Term

open Step

/-- Call by value: the function, then the argument, then the contraction. -/
def stepValue : Term → Option Step
  | .app f a =>
    (f.stepValue.map (·.inFn a)) <|> expandFn f a <|> expandArg f a <|>
      (a.stepValue.map (·.inArg f)) <|> contractAt f a
  | _ => none

/-- Call by name: the function, then the contraction. -/
def stepName : Term → Option Step
  | .app f a => (f.stepName.map (·.inFn a)) <|> expandFn f a <|> contractAt f a
  | _ => none

/-- Normal order: the contraction, then the function, then the argument. -/
def stepNormal : Term → Option Step
  | .abs x b => b.stepNormal.map (·.inBody x)
  | .app f a =>
    expandFn f a <|> contractAt f a <|> (f.stepNormal.map (·.inFn a)) <|> expandArg f a <|>
      (a.stepNormal.map (·.inArg f))
  | _ => none

/-- Applicative order: the function, then the contraction, then the argument. -/
def stepApplicative : Term → Option Step
  | .abs x b => b.stepApplicative.map (·.inBody x)
  | .app f a =>
    expandFn f a <|> (f.stepApplicative.map (·.inFn a)) <|> contractAt f a <|> expandArg f a <|>
      (a.stepApplicative.map (·.inArg f))
  | _ => none

end Term

/-- The step a strategy takes from a term, if there is one. -/
def Strategy.step : Strategy → Term → Option Step
  | .cbv => Term.stepValue
  | .cbn => Term.stepName
  | .normal => Term.stepNormal
  | .applicative => Term.stepApplicative

/-- A step in words: the variable and the number of its copies, or the macro. -/
def Event.summary : Event → String
  | .beta x _ _ copies =>
    "StepInfo(beta, variable='" ++ x ++ "', substituted=" ++ toString copies.length ++ ")"
  | .expansion n _ => "StepInfo(macro='" ++ n ++ "')"

end LambdaTrace
