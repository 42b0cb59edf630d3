import LambdaTrace.Proofs.Nameless.Valuation
import LambdaTrace.Term.Alpha

/-!
# Equivalence and the nameless form

The comparison of two terms up to the names of their binders is a walk down both of them.
What it finds out is whether they have one nameless form, each under its own binders, and
whether all their variables are bound there, since a free variable is equal to nothing
(`LambdaTrace.Term.alphaEquals_iff`). With no binders around, this is equality of the
nameless forms of closed terms (`LambdaTrace.Term.alphaEquivalent_iff`).

References are looked through on both sides, so they do not matter to the walk
(`LambdaTrace.Term.alphaEquals_unfold`) and the nameless forms are those of the unfolded
terms. Whether a term is closed can be told from its nameless forms too, under one binder or
another, so there is nothing else that equivalence depends on
(`LambdaTrace.Term.alphaEquivalent_congr`).
-/

namespace LambdaTrace

namespace Term

variable {t u : Term} {bound bound' : List String}

/-- An unfolded term has nothing left to unfold. -/
@[simp] theorem unfold_unfold (t : Term) : t.unfold.unfold = t.unfold := by
  induction t with
  | var x => rfl
  | app f a ihf iha => rw [unfold, unfold, ihf, iha]
  | abs x b ih => rw [unfold, unfold, ih]
  | ref n t ih => exact ih

/-- **A closed term has one nameless form**, whatever binders stand around it. -/
theorem namelessIn_of_isClosed (h : t.isClosed = true) (scope : List String) :
    t.namelessIn scope = t.nameless := by
  rw [namelessIn_eq_under, nameless_eq_under]
  exact under_congr fun x hx => absurd hx (isClosed_iff.mp h x)

/-- A name has a binder if it is the name of one. -/
theorem isSome_binderDepth_iff {x : String} : (binderDepth bound x).isSome = true ↔ x ∈ bound := by
  rw [binderDepth, List.isSome_idxOf?]

theorem binderDepth_eq_none_iff {x : String} : binderDepth bound x = none ↔ x ∉ bound := by
  rw [← isSome_binderDepth_iff, Bool.not_eq_true, Option.isSome_eq_false_iff,
    Option.isNone_iff_eq_none]

/-- Two variables are compared by their binders, and have to have one. -/
theorem binderDepth_eq_iff {x y : String} :
    ((binderDepth bound x).isSome && binderDepth bound x == binderDepth bound' y) = true ↔
      (var x).namelessIn bound = (var y).namelessIn bound' ∧ x ∈ bound := by
  rw [← isSome_binderDepth_iff, namelessIn, namelessIn]
  cases binderDepth bound x <;> cases binderDepth bound' y <;> simp

/-- **What the comparison finds out**: whether the unfolded terms have one nameless form, each
under its binders, and all their variables are bound. -/
theorem alphaEquals_iff : t.alphaEquals u bound bound' = true ↔
    t.unfold.namelessIn bound = u.unfold.namelessIn bound' ∧
      ∀ x ∈ t.unfold.freeVars, x ∈ bound := by
  fun_induction alphaEquals t u bound bound' with
  | case1 _ _ _ _ _ ih | case2 _ _ _ _ _ ih | case3 _ _ _ _ _ _ ih | case4 _ _ _ _ _ _ ih =>
    exact ih
  | case5 => simpa [unfold, freeVars] using binderDepth_eq_iff
  | case6 f a g b bound bound' ihf iha =>
    simp only [Bool.and_eq_true, ihf, iha, unfold, namelessIn, Nameless.app.injEq,
      mem_freeVars_app, or_imp, forall_and]
    exact and_and_and_comm
  | case7 x b y c bound bound' ih =>
    simp only [ih, unfold, namelessIn, Nameless.lam.injEq, mem_freeVars_abs, and_imp,
      List.mem_cons, or_iff_not_imp_left]
  -- an application, an abstraction and a variable have nameless forms of different shapes
  | case8 x _ _ bound | case9 x _ _ bound =>
    simp only [unfold, namelessIn]
    cases binderDepth bound x <;> simp
  | case10 _ _ y _ bound' | case12 _ _ y _ bound' =>
    simp only [unfold, namelessIn]
    cases binderDepth bound' y <;> simp
  | case11 | case13 => simp [unfold, namelessIn]

/-- **References do not matter** to the comparison. -/
theorem alphaEquals_unfold (t u : Term) (bound bound' : List String) :
    t.unfold.alphaEquals u.unfold bound bound' = t.alphaEquals u bound bound' := by
  rw [Bool.eq_iff_iff, alphaEquals_iff, alphaEquals_iff, unfold_unfold, unfold_unfold]

/-- **Equivalent terms** are closed once unfolded, and have one nameless form. -/
theorem alphaEquivalent_iff : t.alphaEquivalent u = true ↔
    (t.unfold.isClosed = true ∧ u.unfold.isClosed = true) ∧
      t.unfold.nameless = u.unfold.nameless := by
  rw [alphaEquivalent, alphaEquals_unfold, Bool.and_eq_true, Bool.and_eq_true, alphaEquals_iff]
  refine and_congr_right fun hclosed => and_iff_left fun x hx => ?_
  exact absurd hx (isClosed_iff.mp hclosed.1 x)

/-- **The free variables of a term can be told from its nameless forms**: to put a binder of
that name around the term makes a difference. -/
theorem mem_freeVars_iff {x : String} : x ∈ t.freeVars ↔ t.namelessIn [x] ≠ t.nameless := by
  rw [ne_eq, namelessIn_eq_under, nameless_eq_under, under_eq_iff, not_forall]
  constructor
  · intro hx
    refine ⟨x, fun h => ?_⟩
    have hfree := h hx
    rw [Nameless.ofScope_cons, Nameless.push_self] at hfree
    cases hfree
  · rintro ⟨y, hy⟩
    rw [Classical.not_imp] at hy
    by_cases hyx : y = x
    · exact hyx ▸ hy.1
    · rw [Nameless.ofScope_cons, Nameless.push_of_ne hyx] at hy
      exact absurd rfl hy.2

/-- Equivalence sees of a term nothing but the nameless forms of what it unfolds to. -/
theorem alphaEquivalent_congr
    (h : ∀ scope, t.unfold.namelessIn scope = u.unfold.namelessIn scope) (v : Term) :
    t.alphaEquivalent v = u.alphaEquivalent v := by
  have hclosed : t.unfold.isClosed = true ↔ u.unfold.isClosed = true := by
    simp only [isClosed_iff, mem_freeVars_iff, nameless, h]
  have hnameless : t.unfold.nameless = u.unfold.nameless := h []
  rw [Bool.eq_iff_iff, alphaEquivalent_iff, alphaEquivalent_iff, hclosed, hnameless]

end Term

end LambdaTrace
