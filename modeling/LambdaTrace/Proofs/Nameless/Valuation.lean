import LambdaTrace.Proofs.Nameless.Basic

/-!
# Terms under a valuation

A term with names, read with a nameless term for each of its free variables
(`LambdaTrace.Term.under`). Going under a binder gives its name the index `0` and
shifts everything else (`LambdaTrace.Nameless.push`).

The nameless form is the special case in which names stand for themselves or for
the binders in scope (`LambdaTrace.Term.namelessIn_eq_under`). What makes the
general case worth having is that both sides of every statement about
substitution become valuations: putting a term for a variable *by name* and then
reading, or reading with another value for that variable. The three bridges to
nameless substitution are `LambdaTrace.Term.under_subst`,
`LambdaTrace.Term.instantiate_under_push` and `LambdaTrace.Term.substFree_under`.
-/

namespace LambdaTrace

namespace Nameless

/-! ### Valuations -/

/-- A valuation under one more binder. -/
def push (σ : String → Nameless) (x : String) : String → Nameless :=
  Function.update (fun y => (σ y).shift) x (.bound 0)

variable {σ τ : String → Nameless} {x y : String}

@[simp] theorem push_self (σ : String → Nameless) (x : String) : push σ x x = .bound 0 :=
  Function.update_self ..

theorem push_of_ne (h : y ≠ x) : push σ x y = (σ y).shift :=
  Function.update_of_ne h ..

/-- The binder hides what its name stood for outside. -/
theorem push_update_self (σ : String → Nameless) (x : String) (v : Nameless) :
    push (Function.update σ x v) x = push σ x := by
  funext y
  by_cases h : y = x
  · rw [h, push_self, push_self]
  · rw [push_of_ne h, push_of_ne h, Function.update_of_ne h]

/-- Another binder shifts it. -/
theorem push_update_of_ne (h : y ≠ x) (σ : String → Nameless) (v : Nameless) :
    push (Function.update σ x v) y = Function.update (push σ y) x v.shift := by
  funext z
  by_cases hz : z = y
  · subst hz
    rw [push_self, Function.update_of_ne h, push_self]
  · rw [push_of_ne hz]
    by_cases hzx : z = x
    · rw [hzx, Function.update_self, Function.update_self]
    · rw [Function.update_of_ne hzx, Function.update_of_ne hzx, push_of_ne hz]

/-- Two valuations agree under a binder as soon as they agree on the other names. -/
theorem push_congr {z : String} (h : z ≠ x → σ z = τ z) : push σ x z = push τ x z := by
  by_cases hz : z = x
  · rw [hz, push_self, push_self]
  · rw [push_of_ne hz, push_of_ne hz, h hz]

theorem subst_push (σ : String → Nameless) (x : String) (θ : Nat → Nameless) :
    (fun y => (push σ x y).subst (up θ)) = push (fun y => (σ y).subst θ) x := by
  funext y
  by_cases h : y = x
  · rw [h, push_self, push_self]
    rfl
  · rw [push_of_ne h, push_of_ne h, shift_subst_up]

theorem rename_push (σ : String → Nameless) (x : String) (ξ : Nat → Nat) :
    (fun y => (push σ x y).rename (upRenaming ξ)) = push (fun y => (σ y).rename ξ) x := by
  funext y
  by_cases h : y = x
  · rw [h, push_self, push_self]
    rfl
  · rw [push_of_ne h, push_of_ne h, shift, shift, rename_rename, rename_rename]
    rfl

/-- The valuation of the names in a scope. -/
def ofScope (scope : List String) (x : String) : Nameless :=
  match binderDepth scope x with
  | some i => .bound i
  | none => .free x

theorem ofScope_nil : ofScope [] = .free := rfl

theorem ofScope_cons (x : String) (scope : List String) :
    ofScope (x :: scope) = push (ofScope scope) x := by
  funext y
  by_cases h : y = x
  · simp [ofScope, binderDepth, List.idxOf?_cons, h]
  · rw [push_of_ne h]
    have hxy : (x == y) = false := by simpa using Ne.symm h
    simp only [ofScope, binderDepth, List.idxOf?_cons, hxy, Bool.false_eq_true, if_false]
    cases scope.idxOf? y <;> rfl

end Nameless

open Nameless

namespace Term

/-! ### Reading a term -/

/-- The nameless form of a term whose free variables stand for the terms that the
valuation gives them. -/
def under (σ : String → Nameless) : Term → Nameless
  | .var x => σ x
  | .app f a => .app (f.under σ) (a.under σ)
  | .abs x b => .lam (b.under (push σ x))
  | .ref n t => .const n (t.under .free)

theorem namelessIn_eq_under (t : Term) (scope : List String) :
    t.namelessIn scope = t.under (ofScope scope) := by
  induction t generalizing scope with
  | var x => rfl
  | app f a ihf iha => rw [namelessIn, ihf, iha, under]
  | abs x b ih => rw [namelessIn, ih, ofScope_cons, under]
  | ref n t ih => rw [namelessIn, ih, ofScope_nil, under]

theorem nameless_eq_under (t : Term) : t.nameless = t.under .free :=
  t.namelessIn_eq_under []

/-- **A term only sees its free variables**, and it sees all of them. -/
theorem under_eq_iff {t : Term} {σ τ : String → Nameless} :
    t.under σ = t.under τ ↔ ∀ x ∈ t.freeVars, σ x = τ x := by
  induction t generalizing σ τ with
  | var x => simp [under, freeVars]
  | app f a ihf iha =>
    simp only [under, Nameless.app.injEq, ihf, iha, mem_freeVars_app]
    constructor
    · rintro ⟨hf, ha⟩ x (hx | hx)
      · exact hf x hx
      · exact ha x hx
    · exact fun h => ⟨fun x hx => h x (Or.inl hx), fun x hx => h x (Or.inr hx)⟩
  | abs y b ih =>
    simp only [under, Nameless.lam.injEq, ih, mem_freeVars_abs]
    -- the binder stands for itself on both sides, the other names are shifted
    constructor
    · rintro h x ⟨hx, hxy⟩
      have hpush := h x hx
      rw [push_of_ne hxy, push_of_ne hxy] at hpush
      exact shift_injective hpush
    · exact fun h x hx => push_congr fun hxy => h x ⟨hx, hxy⟩
  | ref n t => simp [under, freeVars]

theorem under_congr {t : Term} {σ τ : String → Nameless}
    (h : ∀ x ∈ t.freeVars, σ x = τ x) : t.under σ = t.under τ :=
  under_eq_iff.mpr h

/-- What a name stands for does not matter to a term in which it is not free. -/
theorem under_update_of_notMem {t : Term} {x : String} (h : x ∉ t.freeVars)
    (σ : String → Nameless) (v : Nameless) : t.under (Function.update σ x v) = t.under σ :=
  under_congr fun y hy => Function.update_of_ne (fun he : y = x => h (he ▸ hy)) ..

/-! ### The bridges to nameless substitution -/

theorem under_subst (t : Term) (σ : String → Nameless) (θ : Nat → Nameless) :
    (t.under σ).subst θ = t.under fun x => (σ x).subst θ := by
  induction t generalizing σ θ with
  | var x => rfl
  | app f a ihf iha => simp only [under, subst, ihf, iha]
  | abs x b ih => simp only [under, subst, ih, subst_push]
  | ref n t => rfl

theorem under_rename (t : Term) (σ : String → Nameless) (ξ : Nat → Nat) :
    (t.under σ).rename ξ = t.under fun x => (σ x).rename ξ := by
  induction t generalizing σ ξ with
  | var x => rfl
  | app f a ihf iha => simp only [under, rename, ihf, iha]
  | abs x b ih => simp only [under, rename, ih, rename_push]
  | ref n t => rfl

/-- A binder whose name is not free in a term only shifts the term. -/
theorem under_push_of_notMem {t : Term} {x : String} (h : x ∉ t.freeVars)
    (σ : String → Nameless) : t.under (push σ x) = (t.under σ).shift := by
  rw [shift, under_rename]
  exact under_congr fun y hy => push_of_ne fun he => h (he ▸ hy)

/-- A closed term has no loose index. -/
theorem rename_under_free (t : Term) (ξ : Nat → Nat) :
    (t.under .free).rename ξ = t.under .free :=
  t.under_rename _ ξ

/-- **Instantiating a body** is reading it with another value for the binder. -/
theorem instantiate_under_push (b : Term) (σ : String → Nameless) (x : String) (v : Nameless) :
    (b.under (push σ x)).instantiate v = b.under (Function.update σ x v) := by
  rw [instantiate, under_subst]
  congr 1
  funext y
  by_cases h : y = x
  · rw [h, push_self, Function.update_self]
    rfl
  · rw [push_of_ne h, Function.update_of_ne h]
    exact shift_instantiate _ _

/-- **Substituting for a free variable** is reading with another value for it. -/
theorem substFree_under (t : Term) (σ : String → Nameless) (x : String) {v : Nameless}
    (hv : ∀ ξ, v.rename ξ = v) :
    (t.under σ).substFree x v = t.under fun y => (σ y).substFree x v := by
  induction t generalizing σ with
  | var y => rfl
  | app f a ihf iha => simp only [under, substFree, ihf, iha]
  | abs y b ih =>
    simp only [under, substFree, ih]
    congr 2
    funext z
    -- the binder's variable is no free one, whatever its name
    by_cases h : z = y
    · rw [h, push_self, push_self]
      rfl
    · rw [push_of_ne h, push_of_ne h]
      exact rename_substFree _ _ _ _ hv
  | ref n t => rfl

end Term

end LambdaTrace
