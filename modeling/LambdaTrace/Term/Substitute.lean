import LambdaTrace.Term.Path

/-!
# Substitution

`LambdaTrace.Term.substitute` puts a term for the free occurrences of a variable.
When it meets a binder whose name is free in the term to be inserted, it first
renames the binder, by substituting a new variable for the old name in the body,
and only then goes on into the renamed body. The new name is the old one with a
numeric suffix, the smallest that avoids the free variables of the inserted term
(`LambdaTrace.freshName`) – and those alone.

So substitution is a recursion that calls itself on its own result. It ends
because substituting a single variable keeps the size of a term, and that fact is
carried along with the result: `LambdaTrace.Term.substituteSized` returns a term
whose size is that of the body plus, for each inserted copy, the size of the
inserted term less one.

Along with the term comes the list of the positions where copies were inserted,
from left to right.
-/

namespace LambdaTrace

/-- The name with the smallest numeric suffix that is not taken. There are more
candidates than taken names, so the search ends among them. -/
def freshName (name : String) (taken : List String) : String :=
  let suffix := (List.range (taken.length + 1)).find? fun k => !taken.contains (name ++ toString k)
  name ++ toString (suffix.getD taken.length)

/-! ### Counting copies

Each copy of a term takes the place of a variable, which counts one. -/

theorem copied_var (v : Nat) : v + 1 = 1 + 1 * v := by
  omega

theorem copied_app {v f f' cf a a' ca : Nat} (hf : f' + cf = f + cf * v)
    (ha : a' + ca = a + ca * v) : f' + a' + 1 + (cf + ca) = f + a + 1 + (cf + ca) * v := by
  rw [Nat.add_mul]
  omega

theorem copied_abs {v b b' c : Nat} (h : b' + c = b + c * v) : b' + 1 + c = b + 1 + c * v := by
  omega

/-- Copies of a variable change nothing. -/
theorem eq_of_copied_one {b b' c : Nat} (h : b' + c = b + c * 1) : b' = b := by
  omega

/-! ### Substitution with its size -/

namespace Term

/-- Substitution with its size: `value` for the free `x` in `body`, and the
positions of the inserted copies. -/
def substituteSized (body : Term) (value : Term) (x : String) :
    { r : Term × List Path // r.1.size + r.2.length = body.size + r.2.length * value.size } :=
  match body with
  | .var y =>
    if y = x then ⟨(value, [[]]), copied_var value.size⟩
    else ⟨(.var y, []), by simp only [List.length_nil, Nat.zero_mul]⟩
  | .app f a =>
    let rf := substituteSized f value x
    let ra := substituteSized a value x
    ⟨(.app rf.1.1 ra.1.1, rf.1.2.map (.left :: ·) ++ ra.1.2.map (.right :: ·)), by
      simpa only [size, List.length_append, List.length_map] using copied_app rf.2 ra.2⟩
  | .abs y b =>
    if y = x then ⟨(.abs y b, []), by simp only [List.length_nil, Nat.zero_mul]⟩
    else if value.freeVars.contains y then
      let z := freshName y value.freeVars
      match substituteSized b (.var z) y with
      | ⟨(renamed, _), hrenamed⟩ =>
        have hsize : renamed.size = b.size := eq_of_copied_one hrenamed
        let r := substituteSized renamed value x
        ⟨(.abs z r.1.1, r.1.2.map (.body :: ·)), by
          simpa only [size, List.length_map, hsize] using copied_abs r.2⟩
    else
      let r := substituteSized b value x
      ⟨(.abs y r.1.1, r.1.2.map (.body :: ·)), by
        simpa only [size, List.length_map] using copied_abs r.2⟩
  | .ref n t => ⟨(.ref n t, []), by simp only [List.length_nil, Nat.zero_mul]⟩
termination_by body.size
decreasing_by
  all_goals simp only [size, Nat.mul_one] at *
  all_goals omega

/-- **Substitution**: `value` for the free occurrences of `x` in `body`, together
with the positions of the inserted copies in the result, from left to right. -/
def substitute (body value : Term) (x : String) : Term × List Path :=
  (substituteSized body value x).1

/-! ### The equations of substitution -/

theorem substitute_var (y x : String) (value : Term) :
    substitute (.var y) value x = if y = x then (value, [[]]) else (.var y, []) := by
  rw [substitute, substituteSized]
  split <;> rfl

theorem substitute_app (f a value : Term) (x : String) :
    substitute (.app f a) value x =
      (.app (substitute f value x).1 (substitute a value x).1,
        (substitute f value x).2.map (.left :: ·) ++
          (substitute a value x).2.map (.right :: ·)) := by
  rw [substitute, substituteSized]
  rfl

theorem substitute_abs (y x : String) (b value : Term) :
    substitute (.abs y b) value x =
      if y = x then (.abs y b, [])
      else if value.freeVars.contains y then
        let z := freshName y value.freeVars
        let r := substitute (substitute b (.var z) y).1 value x
        (.abs z r.1, r.2.map (.body :: ·))
      else
        let r := substitute b value x
        (.abs y r.1, r.2.map (.body :: ·)) := by
  rw [substitute, substituteSized]
  split
  · rfl
  · split <;> rfl

theorem substitute_ref (n : String) (t value : Term) (x : String) :
    substitute (.ref n t) value x = (.ref n t, []) := by
  rw [substitute, substituteSized]

/-- Each copy adds the size of the inserted term in the place of one variable. -/
theorem size_substitute (body value : Term) (x : String) :
    (substitute body value x).1.size + (substitute body value x).2.length =
      body.size + (substitute body value x).2.length * value.size :=
  (substituteSized body value x).2

end Term

end LambdaTrace
