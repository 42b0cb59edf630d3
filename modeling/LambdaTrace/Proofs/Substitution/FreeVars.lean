import LambdaTrace.Proofs.Substitution.FreshName

/-!
# What substitution leaves free

Substitution calls itself on a body that it has just renamed, so no induction on
the body reaches its second call. `LambdaTrace.Term.substitute_induction` is the
induction that does: its cases are those of the definition, and at a binder that
is renamed both calls have their hypothesis.

The first fact it gives holds whatever the names are, also where an occurrence is
captured: **no variable becomes free** that was not free in the body or in the
inserted term, and the variable substituted for is gone unless the inserted term
brings it back (`LambdaTrace.Term.mem_freeVars_substitute`).
-/

namespace LambdaTrace

namespace Term

/-- Renaming keeps the size of a body. -/
theorem size_substitute_var (b : Term) (z y : String) :
    (substitute b (.var z) y).1.size = b.size := by
  have h := size_substitute b (.var z) y
  simp only [size, Nat.mul_one] at h
  omega

/-- **Induction along substitution.** -/
@[elab_as_elim]
theorem substitute_induction {motive : Term → Term → String → Prop}
    (var : ∀ y v x, motive (.var y) v x)
    (app : ∀ f a v x, motive f v x → motive a v x → motive (.app f a) v x)
    (ref : ∀ n t v x, motive (.ref n t) v x)
    (shadowed : ∀ b v x, motive (.abs x b) v x)
    (kept : ∀ y b v x, y ≠ x → y ∉ v.freeVars → motive b v x → motive (.abs y b) v x)
    (renamed : ∀ y b v x, y ≠ x → y ∈ v.freeVars →
      motive b (.var (freshName y v.freeVars)) y →
      motive (substitute b (.var (freshName y v.freeVars)) y).1 v x → motive (.abs y b) v x)
    (b v : Term) (x : String) : motive b v x :=
  match b with
  | .var y => var y v x
  | .app f a =>
    app f a v x (substitute_induction var app ref shadowed kept renamed f v x)
      (substitute_induction var app ref shadowed kept renamed a v x)
  | .ref n t => ref n t v x
  | .abs y b =>
    if hyx : y = x then hyx ▸ shadowed b v y
    else if hy : y ∈ v.freeVars then
      renamed y b v x hyx hy (substitute_induction var app ref shadowed kept renamed b _ y)
        (substitute_induction var app ref shadowed kept renamed _ v x)
    else kept y b v x hyx hy (substitute_induction var app ref shadowed kept renamed b v x)
termination_by b.size
decreasing_by
  all_goals simp only [size, size_substitute_var]
  all_goals omega

/-! ### The cases of an abstraction -/

section Cases

variable {y x : String} {b v : Term}

theorem substitute_shadowed (b v : Term) (x : String) :
    substitute (.abs x b) v x = (.abs x b, []) := by
  rw [substitute_abs, if_pos rfl]

theorem substitute_kept (hyx : y ≠ x) (hy : y ∉ v.freeVars) :
    substitute (.abs y b) v x =
      (.abs y (substitute b v x).1, (substitute b v x).2.map (.body :: ·)) := by
  rw [substitute_abs, if_neg hyx, if_neg (by simpa using hy)]

theorem substitute_renamed (hyx : y ≠ x) (hy : y ∈ v.freeVars) :
    substitute (.abs y b) v x =
      (.abs (freshName y v.freeVars)
          (substitute (substitute b (.var (freshName y v.freeVars)) y).1 v x).1,
        (substitute (substitute b (.var (freshName y v.freeVars)) y).1 v x).2.map
          (.body :: ·)) := by
  rw [substitute_abs, if_neg hyx, if_pos (by simpa using hy)]

end Cases

/-! ### Free variables -/

/-- **Substitution creates no free variable.** -/
theorem mem_freeVars_substitute {b v : Term} {x z : String}
    (h : z ∈ (substitute b v x).1.freeVars) : (z ∈ b.freeVars ∧ z ≠ x) ∨ z ∈ v.freeVars := by
  induction b, v, x using substitute_induction generalizing z with
  | var y v x =>
    rw [substitute_var] at h
    by_cases hyx : y = x
    · rw [if_pos hyx] at h
      exact Or.inr h
    · rw [if_neg hyx] at h
      have hz : z = y := by simpa [freeVars] using h
      exact Or.inl ⟨h, hz ▸ hyx⟩
  | app f a v x ihf iha =>
    rw [substitute_app, mem_freeVars_app] at h
    rw [mem_freeVars_app]
    rcases h with h | h
    · rcases ihf h with ⟨hz, hzx⟩ | hz
      · exact Or.inl ⟨Or.inl hz, hzx⟩
      · exact Or.inr hz
    · rcases iha h with ⟨hz, hzx⟩ | hz
      · exact Or.inl ⟨Or.inr hz, hzx⟩
      · exact Or.inr hz
  | ref n t v x =>
    rw [substitute_ref] at h
    simp [freeVars] at h
  | shadowed b v x =>
    rw [substitute_shadowed] at h
    exact Or.inl ⟨h, (mem_freeVars_abs.mp h).2⟩
  | kept y b v x hyx hy ih =>
    rw [substitute_kept hyx hy, mem_freeVars_abs] at h
    rcases ih h.1 with ⟨hz, hzx⟩ | hz
    · exact Or.inl ⟨mem_freeVars_abs.mpr ⟨hz, h.2⟩, hzx⟩
    · exact Or.inr hz
  | renamed y b v x hyx hy ihb ih =>
    rw [substitute_renamed hyx hy, mem_freeVars_abs] at h
    rcases ih h.1 with ⟨hz, hzx⟩ | hz
    · rcases ihb hz with ⟨hz, hzy⟩ | hz
      · exact Or.inl ⟨mem_freeVars_abs.mpr ⟨hz, hzy⟩, hzx⟩
      · -- the renamed occurrences are bound again right here
        exact absurd (by simpa [freeVars] using hz) h.2
    · exact Or.inr hz

end Term

end LambdaTrace
