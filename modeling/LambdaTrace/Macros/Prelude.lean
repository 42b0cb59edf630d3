import LambdaTrace.Macros.Table

/-!
# The prelude

The ten macros that are there from the start unless they are asked away: the
identity, Church's numerals with their arithmetic, and his booleans. They are
definitions like any other, added one by one.
-/

namespace LambdaTrace

namespace Prelude

/-- The definitions in the order in which they are added. -/
def definitions : List String :=
  ["ID ≜ λx. x",
    "ZERO ≜ λf. λx. x",
    "ONE ≜ λf. λx. f x",
    "SUCC ≜ λn. λf. λx. f (n f x)",
    "PLUS ≜ λm. λn. n SUCC m",
    "MULT ≜ λm. λn. m (PLUS n) ZERO",
    "PRED ≜ λn. λf. λx. n (λg. λh. h (g f)) (λu. x) ID",
    "SUB ≜ λm. λn. n PRED m",
    "TRUE ≜ λa. λb. a",
    "FALSE ≜ λa. λb. b"]

end Prelude

/-- The table with further definitions added in turn. -/
def MacroTable.defineAll (t : MacroTable) : List String → Except TableError MacroTable
  | [] => .ok t
  | source :: sources =>
    match t.define source with
    | (_, .error e) => .error e
    | (t, .ok _) => t.defineAll sources

end LambdaTrace
