import LambdaTrace.Proofs.Nameless.Valuation
import LambdaTrace.Proofs.Substitution.FreeVars

/-!
# Where substitution is faithful

A generated name avoids the free variables of the inserted term and nothing else.
So a renaming can go wrong in two ways: the new name may be free in the body of
the binder, whose occurrences are then captured; or it may be the very variable
that is substituted for, and then the renamed occurrences are replaced along with
that variable's. `LambdaTrace.Term.Faithful` says that neither happens at any
renaming on the way, including those that renaming itself brings about.

Where it holds, putting a term for a variable by name is putting it for the
variable without names (`LambdaTrace.Term.Faithful.under_substitute`). It holds
whenever the inserted term is closed, since then nothing is renamed at all
(`LambdaTrace.Term.Faithful.of_isClosed`). That it holds *only* where substitution
is right is the subject of `LambdaTrace.Proofs.Substitution.Capture`.
-/

namespace LambdaTrace

open Nameless

namespace Term

/-- **Every renaming on the way is harmless**: at each binder that is renamed, the
new name is not free in the body – unless it is the variable substituted for, in
which case the old name is not free there, so that nothing is renamed to it. -/
inductive Faithful : (body value : Term) → (x : String) → Prop
  | var (y : String) (v : Term) (x : String) : Faithful (.var y) v x
  | ref (n : String) (t v : Term) (x : String) : Faithful (.ref n t) v x
  | app {f a v : Term} {x : String} :
    Faithful f v x → Faithful a v x → Faithful (.app f a) v x
  /-- Under a binder of the variable itself nothing is done. -/
  | shadowed (b v : Term) (x : String) : Faithful (.abs x b) v x
  | kept {y x : String} {b v : Term} :
    y ≠ x → y ∉ v.freeVars → Faithful b v x → Faithful (.abs y b) v x
  | renamed {y x : String} {b v : Term} :
    y ≠ x → y ∈ v.freeVars →
    (freshName y v.freeVars ≠ x → freshName y v.freeVars ∉ b.freeVars) →
    (freshName y v.freeVars = x → y ∉ b.freeVars) →
    Faithful b (.var (freshName y v.freeVars)) y →
    Faithful (substitute b (.var (freshName y v.freeVars)) y).1 v x → Faithful (.abs y b) v x

namespace Faithful

/-- A closed term can be put anywhere: no binder has to be renamed for it. -/
theorem of_isClosed {v : Term} (hv : v.isClosed = true) (b : Term) (x : String) :
    Faithful b v x := by
  induction b with
  | var y => exact .var y v x
  | ref n t => exact .ref n t v x
  | app f a ihf iha => exact .app ihf iha
  | abs y b ih =>
    by_cases hyx : y = x
    · rw [hyx]
      exact .shadowed b v x
    · exact .kept hyx (isClosed_iff.mp hv y) ih

/-- The valuations of a body and of its renaming: what the renamed binder stands
for is told by its new name. -/
theorem under_renamed {y x z : String} {b : Term} {σ : String → Nameless} {w : Nameless}
    (hyx : y ≠ x) (hzb : z ≠ x → z ∉ b.freeVars) (hyb : z = x → y ∉ b.freeVars) :
    b.under (Function.update (Function.update (push σ z) x w.shift) y
        (Function.update (push σ z) x w.shift z)) =
      b.under (push (Function.update σ x w) y) := by
  refine under_congr fun u hu => ?_
  by_cases huy : u = y
  · subst huy
    have hzx : z ≠ x := fun h => hyb h hu
    rw [Function.update_self, Function.update_of_ne hzx, push_self, push_self]
  · rw [Function.update_of_ne huy, push_update_of_ne hyx]
    by_cases hux : u = x
    · rw [hux, Function.update_self, Function.update_self]
    · rw [Function.update_of_ne hux, Function.update_of_ne hux, push_of_ne huy]
      -- a name that is free in the body is not the new one
      by_cases huz : u = z
      · exact absurd hu (huz ▸ hzb fun h => hux (huz.trans h))
      · exact push_of_ne huz

/-- **A faithful substitution is the substitution without names**: reading its
result is reading the body with the inserted term as the value of the variable. -/
theorem under_substitute {b v : Term} {x : String} (h : Faithful b v x)
    (σ : String → Nameless) :
    (substitute b v x).1.under σ = b.under (Function.update σ x (v.under σ)) := by
  induction h generalizing σ with
  | var y v x =>
    rw [substitute_var]
    by_cases hyx : y = x
    · rw [if_pos hyx, under, hyx, Function.update_self]
    · rw [if_neg hyx, under, under, Function.update_of_ne hyx]
  | ref n t v x =>
    rw [substitute_ref]
    rfl
  | app _ _ ihf iha => rw [substitute_app, under, under, ihf, iha]
  | shadowed b v x => rw [substitute_shadowed, under, under, push_update_self]
  | @kept y x b v hyx hy _ ih =>
    rw [substitute_kept hyx hy, under, under, ih, push_update_of_ne hyx,
      under_push_of_notMem hy]
  | @renamed y x b v hyx hy hzb hyb _ _ ihb ih =>
    have hz : freshName y v.freeVars ∉ v.freeVars := freshName_notMem y v.freeVars
    -- first the renamed body is read, then the renaming is read away
    rw [substitute_renamed hyx hy, under, under, ih, ihb, under_push_of_notMem hz]
    exact congrArg Nameless.lam (under_renamed hyx hzb hyb)

/-- A faithful renaming that changes nothing is one to a name that is not free, provided
that the new name does not stand for the same before and after. -/
theorem notMem_of_under_eq {b : Term} {y z : String} {σ τ : String → Nameless}
    (h : Faithful b (.var z) y) (hzy : z ≠ y) (hz : τ z ≠ σ z)
    (heq : (substitute b (.var z) y).1.under τ = b.under σ) : z ∉ b.freeVars := by
  intro hmem
  rw [h.under_substitute] at heq
  have hread := under_eq_iff.mp heq z hmem
  rw [Function.update_of_ne hzy] at hread
  exact hz hread

/-- **A faithful contraction is the contraction without names**, under any binders. -/
theorem namelessIn_substitute {b v : Term} {x : String} (h : Faithful b v x)
    (scope : List String) :
    (substitute b v x).1.namelessIn scope =
      (b.namelessIn (x :: scope)).instantiate (v.namelessIn scope) := by
  rw [namelessIn_eq_under, namelessIn_eq_under, namelessIn_eq_under, h.under_substitute,
    ofScope_cons, instantiate_under_push]

/-- **A faithful substitution for a free variable** of the whole term is the one
without names. -/
theorem nameless_substitute {b v : Term} {x : String} (h : Faithful b v x) :
    (substitute b v x).1.nameless = b.nameless.substFree x v.nameless := by
  rw [nameless_eq_under, nameless_eq_under, nameless_eq_under, h.under_substitute,
    substFree_under _ _ _ v.rename_under_free]
  refine under_congr fun y _ => ?_
  by_cases hyx : y = x
  · rw [hyx, Function.update_self, substFree, if_pos rfl]
  · rw [Function.update_of_ne hyx, substFree, if_neg hyx]

end Faithful

end Term

end LambdaTrace
