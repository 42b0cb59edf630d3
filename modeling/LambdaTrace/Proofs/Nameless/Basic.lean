import LambdaTrace.Term.Alpha
import Mathlib

/-!
# Terms without names

The form of a term in which the names of binders are gone: a bound variable is
the number of binders between it and its own, a free variable keeps its name.
Two terms that differ only in the names of their binders have the same form, so
equality here is equality up to renaming, and substitution here
(`LambdaTrace.Nameless.instantiate`, `LambdaTrace.Nameless.substFree`) captures
nothing – there is no name that could.

A macro reference stays what it is for reduction: a constant that carries the
closed term it stands for. Renaming and substitution leave constants alone.

`LambdaTrace.Term.nameless` takes a term to its nameless form. The laws of the
second half are those of a calculus of renamings and substitutions; the ones used
from outside are `LambdaTrace.Nameless.shift_subst_up` and
`LambdaTrace.Nameless.shift_instantiate`.
-/

namespace LambdaTrace

/-- A λ-term without the names of its binders. -/
inductive Nameless where
  /-- A bound variable, by the number of binders between it and its own. -/
  | bound (index : Nat)
  /-- A free variable. -/
  | free (name : String)
  /-- An application of a function to an argument. -/
  | app (fn arg : Nameless)
  /-- An abstraction. -/
  | lam (body : Nameless)
  /-- A macro reference with what it stands for. -/
  | const (name : String) (expansion : Nameless)
  deriving DecidableEq

/-- The nameless form of a term under the given binders, innermost first. What a
reference stands for is read under no binder. -/
def Term.namelessIn (scope : List String) : Term → Nameless
  | .var x =>
    match binderDepth scope x with
    | some i => .bound i
    | none => .free x
  | .app f a => .app (f.namelessIn scope) (a.namelessIn scope)
  | .abs x b => .lam (b.namelessIn (x :: scope))
  | .ref n t => .const n (t.namelessIn [])

/-- **The nameless form** of a term. -/
def Term.nameless (t : Term) : Nameless :=
  t.namelessIn []

namespace Nameless

/-! ### Renaming and substitution of indices -/

/-- A renaming of indices, taken under one more binder. -/
def upRenaming (ξ : Nat → Nat) : Nat → Nat
  | 0 => 0
  | i + 1 => ξ i + 1

/-- The indices renamed. -/
def rename (ξ : Nat → Nat) : Nameless → Nameless
  | .bound i => .bound (ξ i)
  | .free x => .free x
  | .app f a => .app (f.rename ξ) (a.rename ξ)
  | .lam b => .lam (b.rename (upRenaming ξ))
  | .const n e => .const n e

/-- The same term seen from under one more binder. -/
def shift (t : Nameless) : Nameless :=
  t.rename (· + 1)

/-- A substitution for indices, taken under one more binder. -/
def up (θ : Nat → Nameless) : Nat → Nameless
  | 0 => .bound 0
  | i + 1 => (θ i).shift

/-- Terms put for the indices. -/
def subst (θ : Nat → Nameless) : Nameless → Nameless
  | .bound i => θ i
  | .free x => .free x
  | .app f a => .app (f.subst θ) (a.subst θ)
  | .lam b => .lam (b.subst (up θ))
  | .const n e => .const n e

/-- The substitution that puts a term for the index `0` and takes one binder away. -/
def single (v : Nameless) : Nat → Nameless
  | 0 => v
  | i + 1 => .bound i

/-- The body of an abstraction with a term put for its variable. -/
def instantiate (b v : Nameless) : Nameless :=
  b.subst (single v)

/-- A term put for a free variable. The term has no loose index, so it is the same
under any number of binders. -/
def substFree : Nameless → String → Nameless → Nameless
  | .bound i, _, _ => .bound i
  | .free y, x, v => if y = x then v else .free y
  | .app f a, x, v => .app (f.substFree x v) (a.substFree x v)
  | .lam b, x, v => .lam (b.substFree x v)
  | .const n e, _, _ => .const n e

/-- Whether a term is an application. -/
def isApp : Nameless → Bool
  | .app _ _ => true
  | _ => false

/-- Whether a term is a variable, bound or free. -/
def isVar : Nameless → Bool
  | .bound _ => true
  | .free _ => true
  | _ => false

/-! ### The laws of renaming -/

theorem upRenaming_comp (ξ ζ : Nat → Nat) :
    upRenaming (ζ ∘ ξ) = upRenaming ζ ∘ upRenaming ξ := by
  funext i
  cases i <;> rfl

theorem rename_rename (t : Nameless) (ξ ζ : Nat → Nat) :
    (t.rename ξ).rename ζ = t.rename (ζ ∘ ξ) := by
  induction t generalizing ξ ζ with
  | bound i => rfl
  | free x => rfl
  | app f a ihf iha => simp only [rename, ihf, iha]
  | lam b ih => simp only [rename, ih, upRenaming_comp]
  | const n e => rfl

theorem upRenaming_injective {ξ : Nat → Nat} (h : Function.Injective ξ) :
    Function.Injective (upRenaming ξ) := by
  intro i j hij
  cases i <;> cases j <;> simp_all [upRenaming]
  exact h hij

theorem rename_injective {ξ : Nat → Nat} (h : Function.Injective ξ) :
    Function.Injective (rename ξ) := by
  intro t u htu
  -- a renaming keeps the form of a term, so `u` has the form of `t`
  induction t generalizing ξ u with
  | bound i =>
    cases u <;> simp_all [rename]
    exact h htu
  | free x => cases u <;> simp_all [rename]
  | app f a ihf iha =>
    cases u <;> simp [rename] at htu
    rw [ihf h htu.1, iha h htu.2]
  | lam b ih =>
    cases u <;> simp [rename] at htu
    rw [ih (upRenaming_injective h) htu]
  | const n e => cases u <;> simp_all [rename]

theorem shift_injective : Function.Injective shift :=
  rename_injective (add_left_injective 1)

/-- A term seen from under a binder does not mention that binder. -/
theorem shift_ne_bound_zero (t : Nameless) : t.shift ≠ .bound 0 := by
  cases t <;> simp [shift, rename]

theorem isVar_shift (t : Nameless) : t.shift.isVar = t.isVar := by
  cases t <;> rfl

/-! ### The laws of substitution -/

theorem up_upRenaming (ξ : Nat → Nat) (θ : Nat → Nameless) :
    up θ ∘ upRenaming ξ = up (θ ∘ ξ) := by
  funext i
  cases i <;> rfl

theorem subst_rename (t : Nameless) (ξ : Nat → Nat) (θ : Nat → Nameless) :
    (t.rename ξ).subst θ = t.subst (θ ∘ ξ) := by
  induction t generalizing ξ θ with
  | bound i => rfl
  | free x => rfl
  | app f a ihf iha => simp only [rename, subst, ihf, iha]
  | lam b ih => simp only [rename, subst, ih, up_upRenaming]
  | const n e => rfl

theorem rename_up (ξ : Nat → Nat) (θ : Nat → Nameless) :
    rename (upRenaming ξ) ∘ up θ = up (rename ξ ∘ θ) := by
  funext i
  cases i with
  | zero => rfl
  | succ i =>
    -- both sides shift once and rename once
    change ((θ i).rename (· + 1)).rename (upRenaming ξ) = ((θ i).rename ξ).rename (· + 1)
    rw [rename_rename, rename_rename]
    rfl

theorem rename_subst (t : Nameless) (θ : Nat → Nameless) (ξ : Nat → Nat) :
    (t.subst θ).rename ξ = t.subst (rename ξ ∘ θ) := by
  induction t generalizing θ ξ with
  | bound i => rfl
  | free x => rfl
  | app f a ihf iha => simp only [rename, subst, ihf, iha]
  | lam b ih => simp only [rename, subst, ih, rename_up]
  | const n e => rfl

/-- **Substitution commutes with going under a binder.** -/
theorem shift_subst_up (t : Nameless) (θ : Nat → Nameless) :
    t.shift.subst (up θ) = (t.subst θ).shift := by
  rw [shift, shift, subst_rename, rename_subst]
  rfl

theorem up_bound : up bound = bound := by
  funext i
  cases i <;> rfl

theorem subst_bound (t : Nameless) : t.subst bound = t := by
  induction t with
  | bound i => rfl
  | free x => rfl
  | app f a ihf iha => simp only [subst, ihf, iha]
  | lam b ih => simp only [subst, up_bound, ih]
  | const n e => rfl

/-- A renaming is a substitution of indices for indices. -/
theorem rename_eq_subst (t : Nameless) (ξ : Nat → Nat) : t.rename ξ = t.subst (bound ∘ ξ) := by
  rw [← subst_rename, subst_bound]

theorem subst_up (θ ζ : Nat → Nameless) :
    (fun i => (up θ i).subst (up ζ)) = up fun i => (θ i).subst ζ := by
  funext i
  cases i with
  | zero => rfl
  | succ i => exact shift_subst_up (θ i) ζ

/-- Two substitutions one after the other are one. -/
theorem subst_subst (t : Nameless) (θ ζ : Nat → Nameless) :
    (t.subst θ).subst ζ = t.subst fun i => (θ i).subst ζ := by
  induction t generalizing θ ζ with
  | bound i => rfl
  | free x => rfl
  | app f a ihf iha => simp only [subst, ihf, iha]
  | lam b ih => simp only [subst, ih, subst_up]
  | const n e => rfl

/-- A binder that is not mentioned is taken away without a trace. -/
theorem shift_instantiate (t v : Nameless) : t.shift.instantiate v = t := by
  rw [instantiate, shift, subst_rename]
  exact subst_bound t

/-- **Substitution commutes with instantiation.** -/
theorem subst_instantiate (b a : Nameless) (θ : Nat → Nameless) :
    (b.instantiate a).subst θ = (b.subst (up θ)).instantiate (a.subst θ) := by
  rw [instantiate, instantiate, subst_subst, subst_subst]
  congr 1
  funext i
  cases i with
  | zero => rfl
  | succ i => exact (shift_instantiate (θ i) (a.subst θ)).symm

/-- A renaming of indices does not reach a free variable. -/
theorem rename_substFree (t v : Nameless) (x : String) (ξ : Nat → Nat)
    (hv : ∀ ξ, v.rename ξ = v) : (t.rename ξ).substFree x v = (t.substFree x v).rename ξ := by
  induction t generalizing ξ with
  | bound i => rfl
  | free y =>
    by_cases h : y = x
    · simp [rename, substFree, h, hv]
    · simp [rename, substFree, h]
  | app f a ihf iha => simp only [rename, substFree, ihf, iha]
  | lam b ih => simp only [rename, substFree, ih]
  | const n e => rfl

end Nameless

end LambdaTrace
