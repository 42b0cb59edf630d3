import LambdaTrace.Term.Basic

/-!
# Printing terms

A term is printed with as few parentheses as reading it back needs. An
abstraction stands in parentheses on the left of an application, since its body
would otherwise swallow the argument; on the right, an application and an
abstraction do.

Printing is on lists of characters, `LambdaTrace.Term.chars`, so that it can be
set beside the reading of `LambdaTrace.Source.Parser`;
`LambdaTrace.Term.pretty` is the same text as a string. `LambdaTrace.Term.outline`
shows the tree itself, one node a line.
-/

namespace LambdaTrace

/-- A text in parentheses. -/
def parenthesized (s : List Char) : List Char :=
  '(' :: s ++ [')']

namespace Term

/-- The characters of a printed term. -/
def chars : Term → List Char
  | .var x => x.toList
  | .app f a =>
    (if f.isAbs then parenthesized f.chars else f.chars) ++
      ' ' :: (if a.isApp || a.isAbs then parenthesized a.chars else a.chars)
  | .abs x b => 'λ' :: x.toList ++ '.' :: ' ' :: b.chars
  | .ref n _ => n.toList

/-- The printed term. -/
def pretty (t : Term) : String :=
  String.ofList t.chars

/-! ### The tree, drawn -/

/-- What a node of the tree is called. -/
def kindName : Term → String
  | .var _ => "Variable"
  | .app _ _ => "Application"
  | .abs _ _ => "Abstraction"
  | .ref _ _ => "MacroRef"

/-- The name of the root with the printed term. -/
def summary (t : Term) : String :=
  t.kindName ++ "('" ++ t.pretty ++ "')"

/-- The blank margin of a line at a depth; there is none above the root. -/
def margin (depth : Int) : String :=
  String.ofList (List.replicate (4 * depth).toNat ' ')

/-- The head of a node's line: its kind and its printed form. -/
def outlineHead (t : Term) (depth : Int) : String :=
  margin depth ++ t.kindName ++ "(expr='" ++ t.pretty ++ "'"

/-- The syntax tree, one node a line, each indented by its depth. -/
def outline : Term → Int → String
  | .var x, depth => outlineHead (.var x) depth ++ ")"
  | .app f a, depth =>
    outlineHead (.app f a) depth ++ ", nodes=[\n" ++ f.outline (depth + 1) ++ ",\n" ++
      a.outline (depth + 1) ++ "\n" ++ margin depth ++ "])"
  | .abs x b, depth =>
    outlineHead (.abs x b) depth ++ ", nodes=[\n" ++ b.outline (depth + 1) ++ "\n" ++
      margin depth ++ "])"
  | .ref n t, depth => outlineHead (.ref n t) depth ++ ")"

end Term

end LambdaTrace
