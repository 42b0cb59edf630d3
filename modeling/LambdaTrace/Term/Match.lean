import LambdaTrace.Term.Alpha

/-!
# Matching a term against a pattern

A pattern is a term in which the placeholder `...` stands for parts that were left
out. To compare, the term is first collapsed: walking down the term and the
pattern side by side, whatever stands where the pattern has a placeholder becomes
a placeholder too (`LambdaTrace.Term.collapse`). Then the two are compared up to
the names of bound variables (`LambdaTrace.Term.agrees`).

Unlike `LambdaTrace.Term.alphaEquivalent`, matching lets free variables agree by
name, and two references agree by name alone; a reference facing anything else is
looked through.
-/

namespace LambdaTrace

namespace Term

/-- The term with a placeholder wherever the pattern has one. Where the shapes
part, the term stays as it is. -/
def collapse : (t pattern : Term) → Term
  | .app f a, .app g b => .app (collapse f g) (collapse a b)
  | .abs x b, .abs _ c => .abs x (collapse b c)
  | t, pattern => if pattern = dots then dots else t

/-- Whether two terms agree under the given binders, innermost first. -/
def agrees : Term → Term → List String → List String → Bool
  | .ref m t, u, bound, bound' =>
    match u with
    | .ref n _ => m == n
    | .var y => agrees t (.var y) bound bound'
    | .app g b => agrees t (.app g b) bound bound'
    | .abs y c => agrees t (.abs y c) bound bound'
  | .var x, .ref _ u, bound, bound' => agrees (.var x) u bound bound'
  | .app f a, .ref _ u, bound, bound' => agrees (.app f a) u bound bound'
  | .abs x b, .ref _ u, bound, bound' => agrees (.abs x b) u bound bound'
  | .var x, .var y, bound, bound' =>
    match binderDepth bound x with
    | none => x == y && (binderDepth bound' y).isNone
    | some d => some d == binderDepth bound' y
  | .app f a, .app g b, bound, bound' => agrees f g bound bound' && agrees a b bound bound'
  | .abs x b, .abs y c, bound, bound' => agrees b c (x :: bound) (y :: bound')
  | .var _, .app _ _, _, _ => false
  | .var _, .abs _ _, _, _ => false
  | .app _ _, .var _, _, _ => false
  | .app _ _, .abs _ _, _, _ => false
  | .abs _ _, .var _, _, _ => false
  | .abs _ _, .app _ _, _, _ => false
termination_by t u => (t, u)

/-- **Matching**: whether a term is the pattern up to the names of bound
variables, where a placeholder in the pattern stands for anything. -/
def matchesPattern (t pattern : Term) : Bool :=
  (t.collapse pattern).agrees pattern [] []

end Term

end LambdaTrace
