import LambdaTrace.Reduce.Trace
import LambdaTrace.Sharing.Substitute

/-!
# Following a run

A run of a term says at which position each step took place. Here the same steps
are taken on a term whose nodes are numbered. The nodes from the root down to the
place of the step are made anew; at the place itself a redex is contracted, or a
reference gives way to the node it holds, which all references to that macro share.

What a step is known by on the display are the numbers of the nodes in it
(`LambdaTrace.Marks`).
-/

namespace LambdaTrace

/-- The nodes that take part in a step. -/
inductive Marks where
  /-- A contraction: the abstraction and its argument, the variable, and the copies
  inserted for it. -/
  | beta (abstraction target : Option Nat) (binder : String) (substituted : List Nat)
  /-- An expansion of a reference. -/
  | expansion (reference : Nat)
  deriving DecidableEq

namespace Node

/-- Takes the step at a position, numbering new nodes from `next` on. There is none
where the position holds neither a redex nor a reference. -/
def follow (next : Nat) : Node → Path → Option (Node × Marks × Nat)
  | .app _ (.abs i x b) a, [] =>
    let r := b.substitute a x next
    some (r.node, .beta (some i) (some a.id) x r.copies, r.next)
  | .ref i _ t, [] => some (t, .expansion i, next)
  | .app _ f a, .left :: p =>
    (f.follow next p).map fun (f, marks, next) => (.app next f a, marks, next + 1)
  | .app _ f a, .right :: p =>
    (a.follow next p).map fun (a, marks, next) => (.app next f a, marks, next + 1)
  | .abs _ x b, .body :: p =>
    (b.follow next p).map fun (b, marks, next) => (.abs next x b, marks, next + 1)
  | _, _ => none

end Node

/-- An entry of a trace on terms with identity: how the term was reached, and the
step taken from it. -/
structure SharedEntry where
  label : Label
  node : Node
  marks : Option Marks

/-- Follows a trace from its first term, which is given with numbered nodes.
Also returns the next number to be given. -/
def Trace.follow (node : Node) (next : Nat) : Trace → List SharedEntry × Nat
  | [] => ([], next)
  | entry :: rest =>
    match entry.outcome with
    | .stepped s =>
      match node.follow next s.path with
      | some (node', marks, next) =>
        let (entries, next) := Trace.follow node' next rest
        (⟨entry.label, node, some marks⟩ :: entries, next)
      | none => ([⟨entry.label, node, none⟩], next)
    | _ => ([⟨entry.label, node, none⟩], next)

end LambdaTrace
