/-!
# Terms

A term of the untyped λ-calculus with macros. Three of the four forms are the
usual ones: a variable, an application, and an abstraction, all with names. The
fourth is a **reference** to a macro: it is printed as the macro's name, but it
carries the closed term it stands for, so that reduction never has to ask a table
what a name means.

References make two notions of equality. The derived one compares everything,
what a reference carries included; `LambdaTrace.Term.same` is the one a reader of
the printed terms sees, where two references are the same as soon as their names
are. `LambdaTrace.Term.unfold` forgets the references altogether.

The placeholder `...` is the variable of that name (`LambdaTrace.Term.dots`); it
only means something to the matching of `LambdaTrace.Term.matchesPattern`.
-/

namespace LambdaTrace

/-- A λ-term with macro references. -/
inductive Term where
  /-- A variable, free or bound. -/
  | var (name : String)
  /-- An application of a function to an argument. -/
  | app (fn arg : Term)
  /-- An abstraction, which binds a name in its body. -/
  | abs (binder : String) (body : Term)
  /-- A reference to the macro of that name, standing for `body`. -/
  | ref (name : String) (body : Term)
  deriving DecidableEq, Inhabited

namespace Term

/-- The placeholder for a part of a term that was left out. -/
def dots : Term :=
  .var "..."

/-! ### Shape -/

def isApp : Term → Bool
  | .app _ _ => true
  | _ => false

def isAbs : Term → Bool
  | .abs _ _ => true
  | _ => false

def isRef : Term → Bool
  | .ref _ _ => true
  | _ => false

/-- The direct subterms; a reference has none. -/
def children : Term → List Term
  | .var _ => []
  | .app f a => [f, a]
  | .abs _ b => [b]
  | .ref _ _ => []

/-- The number of nodes, where a reference is one node whatever it stands for. -/
def size : Term → Nat
  | .var _ => 1
  | .app f a => f.size + a.size + 1
  | .abs _ b => b.size + 1
  | .ref _ _ => 1

/-- Every reference replaced by what it stands for, at every depth. -/
def unfold : Term → Term
  | .var x => .var x
  | .app f a => .app f.unfold a.unfold
  | .abs x b => .abs x b.unfold
  | .ref _ t => t.unfold

/-- Equality of the terms as printed: references are compared by name alone. -/
def same : Term → Term → Bool
  | .var x, .var y => x == y
  | .app f a, .app g b => f.same g && a.same b
  | .abs x b, .abs y c => x == y && b.same c
  | .ref m _, .ref n _ => m == n
  | _, _ => false

/-! ### Free variables -/

/-- The free variables, each once. A reference is closed by agreement, so it has
none, whatever it stands for. -/
def freeVars : Term → List String
  | .var x => [x]
  | .app f a => f.freeVars ++ a.freeVars.filter (!f.freeVars.contains ·)
  | .abs x b => b.freeVars.filter (· != x)
  | .ref _ _ => []

/-- Whether no variable is free. -/
def isClosed (t : Term) : Bool :=
  t.freeVars.isEmpty

/-- The free variables in the order of their characters. -/
def sortedFreeVars (t : Term) : List String :=
  t.freeVars.mergeSort (· ≤ ·)

theorem mem_freeVars_app {x : String} {f a : Term} :
    x ∈ (app f a).freeVars ↔ x ∈ f.freeVars ∨ x ∈ a.freeVars := by
  by_cases h : x ∈ f.freeVars <;> simp [freeVars, h]

theorem mem_freeVars_abs {x y : String} {b : Term} :
    x ∈ (abs y b).freeVars ↔ x ∈ b.freeVars ∧ x ≠ y := by
  simp [freeVars]

/-- A term is closed when it has no free variable. -/
theorem isClosed_iff {t : Term} : t.isClosed = true ↔ ∀ x, x ∉ t.freeVars := by
  simp [isClosed, List.isEmpty_iff, List.eq_nil_iff_forall_not_mem]

end Term

end LambdaTrace
