import LambdaTrace.Reduce.Trace
import LambdaTrace.Term.Print

/-!
# Definitions of macros

A macro is a name for a closed term. When it is defined its term is reduced ahead
of time: in normal order first, and the normal form, if there is one within the
budget, is the macro's **full value**, which serves under every strategy.
Otherwise the values for call by value and for call by name are looked for
separately, and any of the two may be missing.

What a reference to the macro expands to under a strategy is its value there, or
the term as it was written if there is none
(`LambdaTrace.Definition.expansionFor`).
-/

namespace LambdaTrace

/-- A macro with the values that were found for it. -/
structure Definition where
  name : String
  /-- The value for call by value, sought only if there is no full value. -/
  valueCbv : Option Term
  /-- The value for call by name, sought only if there is no full value. -/
  valueCbn : Option Term
  /-- The normal form. -/
  full : Option Term
  /-- The term as it was written. -/
  unreduced : Term
  /-- The steps that each search for a value was given. -/
  budget : Nat
  deriving DecidableEq, Inhabited

/-- The names of the macros a term refers to, in the order of their first
appearance. What a reference stands for is not looked at. -/
def Term.references : Term → List String
  | .var _ => []
  | .app f a => f.references ++ a.references.filter (!f.references.contains ·)
  | .abs _ b => b.references
  | .ref n _ => [n]

namespace Definition

/-- The text the definition is made anew from. -/
def source (d : Definition) : String :=
  d.unreduced.pretty

/-- The value under a strategy, if one was found. -/
def valueFor (d : Definition) (strategy : Strategy) : Option Term :=
  match d.full with
  | some t => some t
  | none =>
    match strategy with
    | .cbv => d.valueCbv
    | .cbn => d.valueCbn
    | _ => none

/-- What a reference expands to under a strategy. -/
def expansionFor (d : Definition) (strategy : Strategy) : Term :=
  (d.valueFor strategy).getD d.unreduced

/-- The macros that the term as written refers to. -/
def dependsOn (d : Definition) : List String :=
  d.unreduced.references

/-- The sign between a macro's name and its term. -/
def declarator : String := "≜"

/-- The definition as it could be typed, with a term in the place of its own. -/
def line (d : Definition) (t : Term) : String :=
  d.name ++ " " ++ declarator ++ " " ++ t.pretty

/-- The definition in words, with the values that were found. -/
def summary (d : Definition) : String :=
  let value (kind : String) (v : Option Term) : List String :=
    match v with
    | some t => [kind ++ "='" ++ t.pretty ++ "'"]
    | none => []
  let values := value "cbv" d.valueCbv ++ value "cbn" d.valueCbn ++ value "full" d.full
  "MacroDefinition(" ++ d.name ++ " " ++ declarator ++ " '" ++ d.source ++ "'" ++
    (if values.isEmpty then ")" else ", " ++ ", ".intercalate values ++ ")")

end Definition

end LambdaTrace
