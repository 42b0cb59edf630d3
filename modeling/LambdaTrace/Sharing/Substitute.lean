import LambdaTrace.Sharing.Node
import LambdaTrace.Term.Substitute

/-!
# Substitution with identity

The substitution of `LambdaTrace.Term.substitute` on terms whose nodes are
numbered. An inserted copy is a new root over the very children of the inserted
term, so below their roots all copies are the same nodes. An application is made
anew on the way, and so is an abstraction, unless it binds the variable itself and
stays as it is; references and other variables stay what they are.
-/

namespace LambdaTrace

namespace Node

/-- What a substitution makes of a node: the new node, the numbers of the inserted
copies from left to right, and the next number to be given. -/
structure Substituted where
  node : Node
  copies : List Nat
  next : Nat

/-- Substitution with its size: `value` for the free `x` in `body`, new nodes being
numbered from `next` on. -/
def substituteSized (body value : Node) (x : String) (next : Nat) :
    { r : Substituted //
      r.node.size + r.copies.length = body.size + r.copies.length * value.size } :=
  match body with
  | .var i y =>
    if y = x then
      ⟨⟨value.copy next, [next], next + 1⟩, by
        simpa only [size, size_copy, List.length_singleton] using copied_var value.size⟩
    else ⟨⟨.var i y, [], next⟩, by simp only [List.length_nil, Nat.zero_mul]⟩
  | .app _ f a =>
    let rf := substituteSized f value x next
    let ra := substituteSized a value x rf.1.next
    ⟨⟨.app ra.1.next rf.1.node ra.1.node, rf.1.copies ++ ra.1.copies, ra.1.next + 1⟩, by
      simpa only [size, List.length_append] using copied_app rf.2 ra.2⟩
  | .abs i y b =>
    if y = x then ⟨⟨.abs i y b, [], next⟩, by simp only [List.length_nil, Nat.zero_mul]⟩
    else if value.freeVars.contains y then
      let z := freshName y value.freeVars
      match substituteSized b (.var next z) y (next + 1) with
      | ⟨⟨renamed, _, next⟩, hrenamed⟩ =>
        have hsize : renamed.size = b.size := eq_of_copied_one hrenamed
        let r := substituteSized renamed value x next
        ⟨⟨.abs r.1.next z r.1.node, r.1.copies, r.1.next + 1⟩, by
          simpa only [size, hsize] using copied_abs r.2⟩
    else
      let r := substituteSized b value x next
      ⟨⟨.abs r.1.next y r.1.node, r.1.copies, r.1.next + 1⟩, by
        simpa only [size] using copied_abs r.2⟩
  | .ref i n t => ⟨⟨.ref i n t, [], next⟩, by simp only [List.length_nil, Nat.zero_mul]⟩
termination_by body.size
decreasing_by
  all_goals simp only [size]
  all_goals omega

/-- **Substitution** of `value` for the free occurrences of `x` in `body`, new nodes
being numbered from `next` on. -/
def substitute (body value : Node) (x : String) (next : Nat) : Substituted :=
  (substituteSized body value x next).1

end Node

end LambdaTrace
