import LambdaTrace.Term.Path

/-!
# Terms with identity

When a step is shown, the parts of the term that take part in it are highlighted,
and a part is known by *which node* it is, not by what it looks like: of two equal
arguments only the one that is being inserted is marked, and a subterm that
earlier steps have copied is marked wherever it ended up. So the display needs
terms whose nodes have an identity.

A `LambdaTrace.Node` is a term with a number on every node. Two nodes with the same
number are the same node, met twice. Forgetting the numbers
(`LambdaTrace.Node.erase`) gives the term back; `LambdaTrace.Node.label` numbers the
nodes of a term afresh, except that references to one macro share what the macro
stands for.
-/

namespace LambdaTrace

/-- A term whose nodes are numbered. -/
inductive Node where
  | var (id : Nat) (name : String)
  | app (id : Nat) (fn arg : Node)
  | abs (id : Nat) (binder : String) (body : Node)
  | ref (id : Nat) (name : String) (body : Node)
  deriving DecidableEq, Inhabited

namespace Node

/-- The number of the root. -/
def id : Node → Nat
  | .var i _ => i
  | .app i _ _ => i
  | .abs i _ _ => i
  | .ref i _ _ => i

/-- The term without its numbers. -/
def erase : Node → Term
  | .var _ x => .var x
  | .app _ f a => .app f.erase a.erase
  | .abs _ x b => .abs x b.erase
  | .ref _ n t => .ref n t.erase

/-- The number of nodes, where a reference is one node whatever it stands for. -/
def size : Node → Nat
  | .var _ _ => 1
  | .app _ f a => f.size + a.size + 1
  | .abs _ _ b => b.size + 1
  | .ref _ _ _ => 1

/-- The free variables, each once. What a reference stands for is not looked at. -/
def freeVars : Node → List String
  | .var _ x => [x]
  | .app _ f a => f.freeVars ++ a.freeVars.filter (!f.freeVars.contains ·)
  | .abs _ x b => b.freeVars.filter (· != x)
  | .ref _ _ _ => []

/-- The free variables do not depend on the numbers. -/
theorem freeVars_erase (n : Node) : n.erase.freeVars = n.freeVars := by
  induction n with
  | var => rfl
  | app _ f a hf ha => simp only [erase, Term.freeVars, freeVars, hf, ha]
  | abs _ x b hb => simp only [erase, Term.freeVars, freeVars, hb]
  | ref => rfl

/-- A new root over the same children. -/
def copy (i : Nat) : Node → Node
  | .var _ x => .var i x
  | .app _ f a => .app i f a
  | .abs _ x b => .abs i x b
  | .ref _ n t => .ref i n t

theorem size_copy (i : Nat) (n : Node) : (n.copy i).size = n.size := by
  cases n <;> rfl

theorem erase_copy (i : Nat) (n : Node) : (n.copy i).erase = n.erase := by
  cases n <;> rfl

/-! ### Numbering a term -/

/-- Numbers the nodes of a term from `next` on, and returns the number after the
last. What a reference stands for is taken from `known` if it is there. -/
def label (known : String → Option Node) (next : Nat) : Term → Node × Nat
  | .var x => (.var next x, next + 1)
  | .app f a =>
    let (f, i) := label known next f
    let (a, j) := label known i a
    (.app j f a, j + 1)
  | .abs x b =>
    let (b, i) := label known next b
    (.abs i x b, i + 1)
  | .ref n t =>
    match known n with
    | some t => (.ref next n t, next + 1)
    | none =>
      let (t, i) := label known next t
      (.ref i n t, i + 1)

/-! ### Where a node occurs -/

/-- The positions at which a node occurs, those further left before those further
right and outer ones before inner ones. -/
def positions (i : Nat) : Node → List Path
  | .var j _ => if j = i then [[]] else []
  | .app j f a =>
    (if j = i then [[]] else []) ++ (f.positions i).map (.left :: ·) ++
      (a.positions i).map (.right :: ·)
  | .abs j _ b => (if j = i then [[]] else []) ++ (b.positions i).map (.body :: ·)
  | .ref j _ _ => if j = i then [[]] else []

end Node

end LambdaTrace
