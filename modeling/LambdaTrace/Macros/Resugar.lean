import LambdaTrace.Macros.Table
import LambdaTrace.Term.Alpha

/-!
# Naming results

The result of a run is easier to read when the parts of it that are values of
known macros are called by their names. `LambdaTrace.MacroTable.resugar` walks down
a term and replaces each closed subterm that is equivalent to the value of a macro
by a reference to it. Where a subterm is replaced nothing inside it is looked at,
so the largest parts win; among several macros with equivalent values the first in
the order of dependency does.
-/

namespace LambdaTrace

/-- A macro that results may be named after, with its value. -/
structure Candidate where
  definition : Definition
  value : Term

namespace Candidate

/-- The reference to the macro, under a strategy. -/
def reference (c : Candidate) (strategy : Strategy) : Term :=
  .ref c.definition.name (c.definition.expansionFor strategy)

/-- The first candidate that a subterm is to be replaced by. -/
def forTerm? (candidates : List Candidate) (t : Term) : Option Candidate :=
  if t.isRef || !t.isClosed then none
  else candidates.find? fun c => t.alphaEquivalent c.value

end Candidate

/-- The term with its outermost matching subterms replaced by references, and
whether anything was replaced. -/
def Term.resugarWith (candidates : List Candidate) (strategy : Strategy) : Term → Term × Bool
  | .var x =>
    match Candidate.forTerm? candidates (.var x) with
    | some c => (c.reference strategy, true)
    | none => (.var x, false)
  | .app f a =>
    match Candidate.forTerm? candidates (.app f a) with
    | some c => (c.reference strategy, true)
    | none =>
      let rf := f.resugarWith candidates strategy
      let ra := a.resugarWith candidates strategy
      (.app rf.1 ra.1, rf.2 || ra.2)
  | .abs x b =>
    match Candidate.forTerm? candidates (.abs x b) with
    | some c => (c.reference strategy, true)
    | none =>
      let rb := b.resugarWith candidates strategy
      (.abs x rb.1, rb.2)
  | .ref n t => (.ref n t, false)

namespace MacroTable

/-- The macros that have a value under a strategy, in the order of dependency. -/
def candidates (t : MacroTable) (strategy : Strategy) : Except (List String) (List Candidate) :=
  t.dependencyOrder.map fun ds =>
    ds.filterMap fun d => (d.valueFor strategy).map fun v => ⟨d, v⟩

/-- **Naming**: the term with references in the place of values of macros, and
whether there is any. -/
def resugar (t : MacroTable) (strategy : Strategy) (term : Term) :
    Except (List String) (Term × Bool) :=
  (t.candidates strategy).map fun cs => term.resugarWith cs strategy

end MacroTable

end LambdaTrace
