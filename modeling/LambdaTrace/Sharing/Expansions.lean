import LambdaTrace.Macros.Table
import LambdaTrace.Sharing.Render

/-!
# The nodes that references share

All references to one macro hold the same node, the macro's value; and that value
was itself reached by a run, which may have copied parts of it, so that some of its
subterms may be one node as well. To number the nodes of a term that refers to
macros, the runs that led to the values are followed again
(`LambdaTrace.MacroTable.expansions`): through the table in its order, each
definition with the expansions of those before it.
-/

namespace LambdaTrace

/-- What references to a macro hold, with numbered nodes. -/
structure SharedDefinition where
  name : String
  full : Option Node
  valueCbv : Option Node
  valueCbn : Option Node
  unreduced : Node

namespace SharedDefinition

/-- The node that a reference holds under a strategy. -/
def expansionFor (d : SharedDefinition) (strategy : Strategy) : Node :=
  match d.full with
  | some n => n
  | none =>
    match strategy with
    | .cbv => d.valueCbv.getD d.unreduced
    | .cbn => d.valueCbn.getD d.unreduced
    | _ => d.unreduced

/-- The node held by the references to a name under a strategy. -/
def find? (ds : List SharedDefinition) (strategy : Strategy) (name : String) : Option Node :=
  (ds.find? (·.name == name)).map (·.expansionFor strategy)

end SharedDefinition

/-- The node that the last term of a trace is, followed from the first. -/
def Trace.lastNode (node : Node) (next : Nat) (trace : Trace) : Node × Nat :=
  let (entries, next) := trace.follow node next
  ((entries.getLast?.map (·.node)).getD node, next)

namespace MacroTable

/-- Reads the source text of a definition under a strategy and follows its run to
the end, if there was one within the budget. -/
def followValue (t : MacroTable) (known : List SharedDefinition) (next : Nat) (d : Definition)
    (strategy : Strategy) : Option Node × Nat :=
  match t.read strategy d.source 0 with
  | .error _ => (none, next)
  | .ok term =>
    let (node, next) := Node.label (SharedDefinition.find? known strategy) next term
    let trace := strategy.run d.budget term
    if trace.timedOut then (none, next)
    else
      let (last, next) := trace.lastNode node next
      (some last, next)

/-- The nodes held by the references to one definition, given those of the
definitions before it. -/
def shareDefinition (t : MacroTable) (known : List SharedDefinition) (next : Nat)
    (d : Definition) : SharedDefinition × Nat :=
  let (unreduced, next) := Node.label (SharedDefinition.find? known .normal) next d.unreduced
  match d.full with
  | some _ =>
    let trace := Strategy.normal.run d.budget d.unreduced
    let (full, next) := trace.lastNode unreduced next
    (⟨d.name, some full, none, none, unreduced⟩, next)
  | none =>
    let (byName, next) := t.followValue known next d .cbn
    let (byValue, next) := t.followValue known next d .cbv
    (⟨d.name, none, byValue, byName, unreduced⟩, next)

/-- **The nodes held by all references** to the macros of a table, and the next
number to be given. -/
def expansions (t : MacroTable) : List SharedDefinition × Nat :=
  t.definitions.foldl (fun (known, next) d =>
    let (shared, next) := t.shareDefinition known next d
    (known ++ [shared], next)) ([], 0)

/-- A term read with the table under a strategy, with its nodes numbered: equal
references hold the same node. -/
def share (t : MacroTable) (strategy : Strategy) (term : Term) : Node × Nat :=
  let (known, next) := t.expansions
  Node.label (SharedDefinition.find? known strategy) next term

/-- The lines of the trace of a term read with the table, each decorated with a
step. -/
def decoratedLines (t : MacroTable) (strategy : Strategy) (mark : Decoration) (trace : Trace) :
    List String :=
  match trace with
  | [] => []
  | entry :: _ =>
    let (node, next) := t.share strategy entry.term
    SharedEntry.lines mark none (trace.follow node next).1

end MacroTable

end LambdaTrace
