import LambdaTrace.Macros.Table

/-!
# Snapshots of a table

A table can be kept under a name and brought back later. A snapshot that was
brought back is not copied: until the table is next made anew, it *is* the
snapshot, so a definition compiled into the table is compiled into the snapshot
as well. Making the table anew, or keeping another snapshot under the same name,
parts the two.
-/

namespace LambdaTrace

/-- A table with the snapshots kept of it. -/
structure Archive where
  table : MacroTable
  /-- The snapshots under their names. -/
  slots : List (String × List Definition)
  /-- The snapshot that the table is, if it is one. -/
  shared : Option String
  deriving Inhabited

namespace Archive

/-- A table without snapshots. -/
def ofTable (t : MacroTable) : Archive :=
  ⟨t, [], none⟩

/-- The definitions kept in a slot. -/
def slot? (a : Archive) (name : String) : Option (List Definition) :=
  a.slots.lookup name

/-- Sets what is kept in a slot. -/
def setSlot (slots : List (String × List Definition)) (name : String) (ds : List Definition) :
    List (String × List Definition) :=
  (name, ds) :: slots.filter (·.1 != name)

/-- Keeps a copy of the table. -/
def keep (a : Archive) (name : String) : Archive :=
  { a with
    slots := setSlot a.slots name a.table.definitions
    shared := if a.shared == some name then none else a.shared }

/-- Brings a snapshot back, if there is one, which the table shares from then on. -/
def restore? (a : Archive) (name : String) : Option Archive :=
  (a.slot? name).map fun ds =>
    { a with table := { a.table with definitions := ds }, shared := some name }

/-- Changes the definitions of the table in place, and so of a shared snapshot. -/
def write (a : Archive) (t : MacroTable) : Archive :=
  { a with
    table := t
    slots := match a.shared with
      | none => a.slots
      | some name => setSlot a.slots name t.definitions }

/-- Gives the table definitions of its own. -/
def part (a : Archive) (t : MacroTable) : Archive :=
  { a with table := t, shared := none }

/-- Compiles a definition into the table. -/
def compile (a : Archive) (name source : String) (start : Int) :
    Except SyntaxError (Trace × Archive) :=
  (a.table.compile name source start).map fun (trace, t) => (trace, a.write t)

/-- Makes the table anew. Only a table that can be put in order is parted from its
snapshot. -/
def recompile (a : Archive) : Archive × Option TableError :=
  match a.table.recompile with
  | (_, some (.circular cycle)) => (a, some (.circular cycle))
  | (t, e) => (a.part t, e)

/-- Adds a definition. The definition reaches a shared snapshot before the table
is made anew; the table is parted from the snapshot whether or not the definition
can be kept. -/
def define (a : Archive) (source : String) :
    Archive × Except TableError (String × Trace) :=
  let written : Archive :=
    match MacroTable.readHeader source with
    | .error _ => a
    | .ok (name, start) =>
      match a.compile name source start with
      | .error _ => a
      | .ok (_, b) => b
  let (t, r) := a.table.define source
  (written.part t, r)

/-- Sets the budget of the table. -/
def setBudget (a : Archive) (budget : Nat) : Archive :=
  { a with table := { a.table with budget } }

end Archive

end LambdaTrace
