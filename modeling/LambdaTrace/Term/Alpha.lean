import LambdaTrace.Term.Basic

/-!
# Equality up to the names of bound variables

Two terms are compared by walking down both at once with the binders passed so
far. A bound variable is known by its distance to its binder
(`LambdaTrace.binderDepth`), so the names of binders do not matter; a free
variable matches nothing, not even itself. References are looked through, on
either side.

`LambdaTrace.Term.alphaEquals` is that walk under given binders.
`LambdaTrace.Term.alphaEquivalent` is the equivalence of closed terms, closed once
their references are unfolded.
-/

namespace LambdaTrace

/-- The number of binders between an occurrence of a name and the binder it
refers to, where the binders are given innermost first; none if the name is free. -/
def binderDepth (bound : List String) (name : String) : Option Nat :=
  bound.idxOf? name

namespace Term

/-- Whether two terms have the same shape and the same binding structure under
the given binders, innermost first. -/
def alphaEquals : Term → Term → List String → List String → Bool
  | .ref _ t, u, bound, bound' => alphaEquals t u bound bound'
  | .var x, .ref _ u, bound, bound' => alphaEquals (.var x) u bound bound'
  | .app f a, .ref _ u, bound, bound' => alphaEquals (.app f a) u bound bound'
  | .abs x b, .ref _ u, bound, bound' => alphaEquals (.abs x b) u bound bound'
  | .var x, .var y, bound, bound' =>
    (binderDepth bound x).isSome && binderDepth bound x == binderDepth bound' y
  | .app f a, .app g b, bound, bound' =>
    alphaEquals f g bound bound' && alphaEquals a b bound bound'
  | .abs x b, .abs y c, bound, bound' => alphaEquals b c (x :: bound) (y :: bound')
  | .var _, .app _ _, _, _ => false
  | .var _, .abs _ _, _, _ => false
  | .app _ _, .var _, _, _ => false
  | .app _ _, .abs _ _, _, _ => false
  | .abs _ _, .var _, _, _ => false
  | .abs _ _, .app _ _, _, _ => false
termination_by t u => (t, u)

/-- **Equivalence of closed terms**: both are closed once unfolded, and equal up
to the names of their binders. An open term is equivalent to nothing. -/
def alphaEquivalent (t u : Term) : Bool :=
  t.unfold.isClosed && u.unfold.isClosed && t.unfold.alphaEquals u.unfold [] []

end Term

end LambdaTrace
