import LambdaTrace.Proofs.Substitution.Copies

/-!
# What shape substitution gives a term

Substitution calls itself on what another call of it has returned, which is no part of the body
that it was given. That it ends nevertheless is because this other call is a renaming: it puts
variables for variables, and so it keeps the shape of the term. This is a special case of what any
substitution does to the shape of a body. Some of the variables give way to the shape of the
inserted term, and the positions that are returned are those of these variables, from left to
right (`LambdaTrace.Term.shape_substitute`).

Which variables these are does depend on the names. Where a generated name is the very variable
that is substituted for, the occurrences that were just renamed are replaced as well; where it
is the name of a binder below, that one is renamed in turn. Neither makes a difference to the
shape, nor to how deep the calls are within each other, which is never more than the size of the
body (`LambdaTrace.Term.substituteUpTo_eq`).
-/

namespace LambdaTrace

/-! ### Shapes -/

/-- **The shape of a term**: what is left of it without the names of its variables and binders.
A reference is kept as it is, as one node. -/
inductive Shape where
  | var
  | app (fn arg : Shape)
  | abs (body : Shape)
  | ref (name : String) (body : Term)
  deriving DecidableEq

namespace Shape

/-- The positions of the variables, from left to right. -/
def leaves : Shape → List Path
  | .var => [[]]
  | .app f a => f.leaves.map (.left :: ·) ++ a.leaves.map (.right :: ·)
  | .abs b => b.leaves.map (.body :: ·)
  | .ref _ _ => []

/-- The shape with another one in the place of its part at a position; unchanged if there is no
such position. -/
def put (u : Shape) : Shape → Path → Shape
  | _, [] => u
  | .app f a, .left :: p => .app (put u f p) a
  | .app f a, .right :: p => .app f (put u a p)
  | .abs b, .body :: p => .abs (put u b p)
  | s, _ :: _ => s

/-- The shape with another one put at each of the positions. -/
def graft (s : Shape) (ps : List Path) (u : Shape) : Shape :=
  ps.foldl (put u) s

theorem graft_app (f a u : Shape) (ps qs : List Path) :
    (app f a).graft (ps.map (.left :: ·) ++ qs.map (.right :: ·)) u =
      .app (f.graft ps u) (a.graft qs u) := by
  rw [graft, List.foldl_append, List.foldl_map, List.foldl_map,
    List.foldl_hom (fun s => app s a) fun _ _ => rfl,
    List.foldl_hom (app _) fun _ _ => rfl, graft, graft]

theorem graft_abs (b u : Shape) (ps : List Path) :
    (abs b).graft (ps.map (.body :: ·)) u = .abs (b.graft ps u) := by
  rw [graft, List.foldl_map, List.foldl_hom abs fun _ _ => rfl, graft]

/-- To put a variable for a variable changes nothing. -/
theorem put_var {s : Shape} {p : Path} (h : p ∈ s.leaves) : put .var s p = s := by
  induction s generalizing p with
  | var => rw [List.mem_singleton.mp h, put]
  | app f a ihf iha =>
    rcases List.mem_append.mp h with h | h
    · obtain ⟨q, hq, rfl⟩ := List.mem_map.mp h
      rw [put, ihf hq]
    · obtain ⟨q, hq, rfl⟩ := List.mem_map.mp h
      rw [put, iha hq]
  | abs b ih =>
    obtain ⟨q, hq, rfl⟩ := List.mem_map.mp h
    rw [put, ih hq]
  | ref n t => exact absurd h List.not_mem_nil

/-- Variables in the place of variables make no other shape. -/
theorem graft_var {s : Shape} {ps : List Path} (h : ps ⊆ s.leaves) :
    s.graft ps .var = s := by
  induction ps with
  | nil => rfl
  | cons p ps ih =>
    obtain ⟨hp, hps⟩ := List.cons_subset.mp h
    rw [graft, List.foldl_cons, put_var hp, ← graft, ih hps]

end Shape

namespace Term

/-- The shape of a term. -/
def shape : Term → Shape
  | .var _ => .var
  | .app f a => .app f.shape a.shape
  | .abs _ b => .abs b.shape
  | .ref n t => .ref n t

/-! ### What substitution makes of a shape -/

/-- **Substitution puts copies in the place of some of the variables**, and returns the positions
of these from left to right. -/
theorem shape_substitute (b v : Term) (x : String) :
    (substitute b v x).2.Sublist b.shape.leaves ∧
      (substitute b v x).1.shape = b.shape.graft (substitute b v x).2 v.shape := by
  induction b, v, x using substitute_induction with
  | var y v x =>
    rw [substitute_var]
    by_cases hyx : y = x
    · rw [if_pos hyx]
      exact ⟨List.Sublist.refl _, rfl⟩
    · rw [if_neg hyx]
      exact ⟨List.nil_sublist _, rfl⟩
  | app f a v x ihf iha =>
    rw [substitute_app]
    refine ⟨(ihf.1.map _).append (iha.1.map _), ?_⟩
    rw [shape, shape, Shape.graft_app, ihf.2, iha.2]
  | ref n t v x =>
    rw [substitute_ref]
    exact ⟨List.nil_sublist _, rfl⟩
  | shadowed b v x =>
    rw [substitute_shadowed]
    exact ⟨List.nil_sublist _, rfl⟩
  | kept y b v x hyx hy ih =>
    rw [substitute_kept hyx hy]
    refine ⟨ih.1.map _, ?_⟩
    rw [shape, shape, Shape.graft_abs, ih.2]
  | renamed y b v x hyx hy ihb ih =>
    -- the renaming inserts a variable, so the second call has a body of the same shape
    have hshape : (substitute b (.var (freshName y v.freeVars)) y).1.shape = b.shape := by
      rw [ihb.2]
      exact Shape.graft_var ihb.1.subset
    rw [hshape] at ih
    rw [substitute_renamed hyx hy]
    refine ⟨ih.1.map _, ?_⟩
    rw [shape, shape, Shape.graft_abs, ih.2]

/-- **A renaming keeps the shape.** -/
theorem shape_substitute_var (b : Term) (z y : String) :
    (substitute b (.var z) y).1.shape = b.shape := by
  obtain ⟨hsublist, hshape⟩ := shape_substitute b (.var z) y
  rw [hshape]
  exact Shape.graft_var hsublist.subset

/-! ### The calls of substitution -/

/-- One call of substitution, where another function answers the calls that it makes. -/
def substituteWith (call : Term → Term → String → Term × List Path) :
    Term → Term → String → Term × List Path
  | .var y, v, x => if y = x then (v, [[]]) else (.var y, [])
  | .app f a, v, x =>
    let rf := call f v x
    let ra := call a v x
    (.app rf.1 ra.1, rf.2.map (.left :: ·) ++ ra.2.map (.right :: ·))
  | .abs y b, v, x =>
    if y = x then (.abs y b, [])
    else if y ∈ v.freeVars then
      let z := freshName y v.freeVars
      let renamed := call b (.var z) y
      let r := call renamed.1 v x
      (.abs z r.1, r.2.map (.body :: ·))
    else
      let r := call b v x
      (.abs y r.1, r.2.map (.body :: ·))
  | .ref n t, _, _ => (.ref n t, [])

/-- Substitution unrolled: calls are answered within each other up to a depth, and what is
answered to the calls that are deeper is left open. -/
def substituteUpTo (deeper : Term → Term → String → Term × List Path) :
    Nat → Term → Term → String → Term × List Path
  | 0 => deeper
  | depth + 1 => substituteWith (substituteUpTo deeper depth)

/-- Substitution answers its own calls. -/
theorem substituteWith_substitute (b v : Term) (x : String) :
    substituteWith substitute b v x = substitute b v x := by
  cases b with
  | var y => rw [substitute_var, substituteWith]
  | app f a => rw [substitute_app, substituteWith]
  | abs y b =>
    rw [substitute_abs, substituteWith]
    simp only [List.contains_iff_mem]
  | ref n t => rw [substitute_ref, substituteWith]

/-- **Calls are within each other at most as deep as the body is large**: what would be answered
to deeper ones does not matter. -/
theorem substituteUpTo_eq (deeper : Term → Term → String → Term × List Path) {depth : Nat}
    {b : Term} (h : b.size ≤ depth) (v : Term) (x : String) :
    substituteUpTo deeper depth b v x = substitute b v x := by
  induction depth generalizing b v x with
  | zero => cases b <;> cases h
  | succ depth ih =>
    rw [substituteUpTo, ← substituteWith_substitute]
    cases b with
    | var y => rfl
    | app f a =>
      rw [size] at h
      rw [substituteWith, substituteWith, ih (by omega), ih (by omega)]
    | abs y b =>
      have hb : b.size ≤ depth := Nat.le_of_succ_le_succ h
      have hrenamed : ∀ z, (substitute b (.var z) y).1.size ≤ depth :=
        fun z => (size_substitute_var b z y).trans_le hb
      simp only [substituteWith, ih hb, ih (hrenamed _)]
    | ref n t => rfl

/-- **Substitution ends and keeps the shape of the body**, whatever the names are. A renaming of
a body has its shape and its size. Substitution is one call that leaves its own calls to
substitution, and these are within each other at most as deep as the body has nodes, so that
nothing depends on what deeper ones would return. The positions that it returns are those of
some of the variables of the body, from left to right. The result has the shape of the body with
that of the inserted term in these places, and a copy stands at each. So every copy adds the
nodes of the inserted term, less the one that it takes the place of. -/
theorem substitute_terminates (b v : Term) (x : String) :
    (∀ y z, (substitute b (.var z) y).1.shape = b.shape ∧
      (substitute b (.var z) y).1.size = b.size) ∧
    substitute b v x = substituteWith substitute b v x ∧
    (∀ deeper, substituteUpTo deeper b.size b v x = substitute b v x) ∧
    (substitute b v x).2.Sublist b.shape.leaves ∧
    (substitute b v x).1.shape = b.shape.graft (substitute b v x).2 v.shape ∧
    (∀ p ∈ (substitute b v x).2, (substitute b v x).1.at? p = some v) ∧
    ((substitute b v x).1.size : ℤ) =
      b.size + (substitute b v x).2.length * ((v.size : ℤ) - 1) := by
  obtain ⟨hsublist, hshape⟩ := shape_substitute b v x
  have hsize : ((substitute b v x).1.size : ℤ) + (substitute b v x).2.length =
      b.size + (substitute b v x).2.length * v.size := by
    exact_mod_cast size_substitute b v x
  refine ⟨fun y z => ⟨shape_substitute_var b z y, size_substitute_var b z y⟩,
    (substituteWith_substitute b v x).symm, fun deeper => substituteUpTo_eq deeper le_rfl v x,
    hsublist, hshape, fun p hp => at?_of_mem_substitute hp, ?_⟩
  rw [mul_sub, mul_one]
  linarith only [hsize]

/-- The binder is renamed to the variable that is substituted for, so that its own occurrence is
replaced. -/
example : substitute (.abs "x" (.var "x")) (.var "x") "x0" =
    (.abs "x0" (.var "x"), [[.body]]) := by
  cbv

end Term

end LambdaTrace
