import LambdaTrace.Macros.Definition
import LambdaTrace.Macros.Order
import LambdaTrace.Report.Basic

/-!
# The table of macros

The macros of a session, in the order in which they were put into the table, with
the budget that the search for their values is given.

A macro holds the expansions of the macros it refers to, so a change of one
concerns all that depend on it. Therefore every change is followed by making the
whole table anew from the definitions' source texts, dependencies first
(`LambdaTrace.MacroTable.recompile`). `LambdaTrace.MacroTable.add` does so with one
more definition, and may stop half way; `LambdaTrace.MacroTable.define` then brings
back what was there before. `LambdaTrace.MacroTable.compile` is the part that only
looks at the one definition.
-/

namespace LambdaTrace

/-- A table of macros. -/
structure MacroTable where
  /-- The steps that a search for a value may take. -/
  budget : Nat
  definitions : List Definition
  deriving DecidableEq, Inhabited

/-- Why a definition could not be added to a table, or a table not be put in order. -/
inductive TableError where
  /-- The definition could not be read. -/
  | reading (e : SyntaxError)
  /-- The definitions depend on each other in a circle. -/
  | circular (cycle : List String)
  deriving DecidableEq

/-- The names of a circle of definitions in a row. -/
def cycleText (cycle : List String) : String :=
  " -> ".intercalate cycle

/-- The report of an error of a table. -/
def TableError.report : TableError → Report
  | .reading e => e.report
  | .circular cycle =>
    { Report.about ("cannot define circularly dependent macro: " ++ cycleText cycle)
        (cycleText cycle) false with kind := .definition }

namespace MacroTable

/-- The table without macros. -/
def empty (budget : Nat) : MacroTable :=
  ⟨budget, []⟩

/-- The names in the order of the table. -/
def names (t : MacroTable) : List String :=
  t.definitions.map (·.name)

/-- The definition of a name. -/
def get? (t : MacroTable) (name : String) : Option Definition :=
  t.definitions.find? (·.name == name)

/-- What a name stands for under a strategy. -/
def resolve (t : MacroTable) (strategy : Strategy) (name : String) : Option Term :=
  (t.get? name).map (·.expansionFor strategy)

/-- A definition put into a list: in the place of the one of its name, or at the
end. -/
def putInto (d : Definition) : List Definition → List Definition
  | [] => [d]
  | e :: ds => if e.name == d.name then d :: ds else e :: putInto d ds

/-- The table with a definition put into it. -/
def put (t : MacroTable) (d : Definition) : MacroTable :=
  { t with definitions := putInto d t.definitions }

/-- The table without definitions, ready to be made anew. -/
def emptied (t : MacroTable) : MacroTable :=
  { t with definitions := [] }

/-! ### Compiling one definition -/

/-- The name that a definition is for, and the number of characters up to and with
the sign of the definition. -/
def readHeader (source : String) : Except SyntaxError (String × Nat) :=
  let s := dropBlank source.toList
  match Lexeme.macroName.read s with
  | none => .error (Stuck.toError ⟨.malformedDefinition, s.length⟩ source)
  | some (name, r) =>
    match Lexeme.declare.read (dropBlank r) with
    | none => .error (Stuck.toError ⟨.malformedDefinition, (dropBlank r).length⟩ source)
    | some (_, rest) => .ok (String.ofList name, source.length - rest.length)

/-- The term of a definition as read under a strategy. -/
def read (t : MacroTable) (strategy : Strategy) (source : String) (start : Nat) :
    Except SyntaxError Term :=
  parseFrom (t.resolve strategy) source start

/-- The search for the values of a closed term, with the run that found one: the
normal form, or else the values for call by name and by value, which are read and
sought separately. If nothing is found the run is the one in normal order. -/
def evaluate (t : MacroTable) (name : String) (unreduced : Term) (source : String) (start : Nat) :
    Except SyntaxError (Trace × Definition) := do
  let full := Strategy.normal.run t.budget unreduced
  match full.normalForm? with
  | some value => return (full, ⟨name, none, none, some value, unreduced, t.budget⟩)
  | none =>
    let byName := Strategy.cbn.run t.budget (← t.read .cbn source start)
    let byValue := Strategy.cbv.run t.budget (← t.read .cbv source start)
    let d : Definition :=
      ⟨name, byValue.normalForm?, byName.normalForm?, none, unreduced, t.budget⟩
    if d.valueCbn.isSome then return (byName, d)
    else if d.valueCbv.isSome then return (byValue, d)
    else return (full, d)

/-- Compiles the text after the first `start` characters as the definition of a
name, and puts it into the table. Also returns the run that found its value. A
negative start is in front of the text, all of which is compiled. -/
def compile (t : MacroTable) (name source : String) (start : Int) :
    Except SyntaxError (Trace × MacroTable) := do
  let unreduced ← t.read .normal source start.toNat
  if !unreduced.isClosed then
    throw ⟨.openDefinition, start, source⟩
  let (trace, d) ← t.evaluate name unreduced source start.toNat
  return (trace, t.put d)

/-! ### The whole table -/

/-- What each definition of the table depends on within the table. -/
def dependencies (t : MacroTable) : Dependencies :=
  t.definitions.map fun d => (d.name, d.dependsOn.filter t.names.contains)

/-- **The definitions in the order of dependency**, each after what it depends on. -/
def dependencyOrder (t : MacroTable) : Except (List String) (List Definition) :=
  t.dependencies.order.map (·.filterMap t.get?)

/-- Compiles definitions from their own source texts, one after the other. If one
cannot be compiled, the table has the ones before it. -/
def compileAll (t : MacroTable) : List Definition → MacroTable × Option TableError
  | [] => (t, none)
  | d :: ds =>
    match t.compile d.name d.source 0 with
    | .error e => (t, some (.reading e))
    | .ok (_, t) => t.compileAll ds

/-- **Makes the table anew**: empties it and compiles the definitions in the order
of dependency. A table that cannot be put in order stays as it is. -/
def recompile (t : MacroTable) : MacroTable × Option TableError :=
  match t.dependencyOrder with
  | .error cycle => (t, some (.circular cycle))
  | .ok ds => t.emptied.compileAll ds

/-- Compiles a definition into the table and makes the table anew. Returns the name and
the run that found the value. Where that fails, the table is left as it is by then. -/
def add (t : MacroTable) (source : String) : MacroTable × Except TableError (String × Trace) :=
  match readHeader source with
  | .error e => (t, .error (.reading e))
  | .ok (name, start) =>
    match t.compile name source start with
    | .error e => (t, .error (.reading e))
    | .ok (trace, added) =>
      match added.recompile with
      | (left, some e) => (left, .error e)
      | (anew, none) => (anew, .ok (name, trace))

/-- **Adds a definition**, or brings the definitions back that were there before. -/
def define (t : MacroTable) (source : String) : MacroTable × Except TableError (String × Trace) :=
  match t.add source with
  | (left, .error e) => ({ left with definitions := t.definitions }, .error e)
  | (anew, .ok r) => (anew, .ok r)

/-- The table in words. -/
def summary (t : MacroTable) : String :=
  "MacroTable(" ++ ", ".intercalate t.names ++ ")"

end MacroTable

end LambdaTrace
