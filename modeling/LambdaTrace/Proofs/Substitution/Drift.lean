import LambdaTrace.Proofs.Substitution.Faithful

/-!
# What renamings do to an occurrence

Substitution renames a binder by substituting a variable for its name, and that may
go wrong: the new name may capture. Follow one occurrence of a variable through any
number of renamings. Its binder can change in one direction only: an occurrence that
is captured is captured by a binder nearer to it (`LambdaTrace.Nameless.Inward`), and
from there it only ever moves nearer. Also, its name never gets shorter, since
generated names are longer than what they were made from.

`LambdaTrace.Term.Drift` is that relation between a body and what renamings make of
it (`LambdaTrace.Term.Drift.of_renames`). As it has a direction, a drift that ends
where it began was none (`LambdaTrace.Term.Drift.under_eq_of_ends`); for a single
renaming this says that it is faithful as soon as it changes nothing
(`LambdaTrace.Term.Drift.faithful_of_renames`).
-/

namespace LambdaTrace

namespace Nameless

/-! ### Moving inward -/

/-- **Inward**: the first term is the second one, or it is a variable of one of the
`k` innermost binders and the second one mentions neither that binder nor one
inside it. -/
def Inward (k : Nat) (p q : Nameless) : Prop :=
  p = q ∨ ∃ i, i < k ∧ p = .bound i ∧ ∃ r : Nameless, q = r.rename (· + (i + 1))

variable {k l : Nat} {p q r : Nameless}

namespace Inward

theorem refl (k : Nat) (p : Nameless) : Inward k p p :=
  Or.inl rfl

theorem mono (h : Inward k p q) (hkl : k ≤ l) : Inward l p q := by
  rcases h with rfl | ⟨i, hi, hp, hq⟩
  · exact .refl l p
  · exact Or.inr ⟨i, lt_of_lt_of_le hi hkl, hp, hq⟩

/-- The innermost binder is further in than everything outside it. -/
theorem bound_zero_shift (k : Nat) (q : Nameless) : Inward (k + 1) (.bound 0) q.shift :=
  Or.inr ⟨0, Nat.succ_pos k, rfl, q, rfl⟩

theorem bound_bound {i j : Nat} (hik : i < k) (hij : i < j) : Inward k (.bound i) (.bound j) := by
  refine Or.inr ⟨i, hik, rfl, .bound (j - (i + 1)), ?_⟩
  rw [rename]
  exact congrArg bound (by omega)

theorem shift (h : Inward k p q) : Inward (k + 1) p.shift q.shift := by
  rcases h with rfl | ⟨i, hi, rfl, r, rfl⟩
  · exact .refl _ _
  · refine Or.inr ⟨i + 1, Nat.succ_lt_succ hi, rfl, r, ?_⟩
    rw [Nameless.shift, rename_rename]
    rfl

/-- A term that mentions no binder up to the `i`-th is no variable of those. -/
theorem lt_of_rename_eq_bound {i j : Nat} (h : .bound j = r.rename (· + (i + 1))) : i < j := by
  cases r with
  | bound m =>
    have hj : j = m + (i + 1) := by simpa [rename] using h
    omega
  | _ => simp [rename] at h

theorem trans (h : Inward k p q) (h' : Inward k q r) : Inward k p r := by
  rcases h with rfl | ⟨i, hi, rfl, s, hs⟩
  · exact h'
  rcases h' with rfl | ⟨j, hj, rfl, u, rfl⟩
  · exact Or.inr ⟨i, hi, rfl, s, hs⟩
  have hij : i < j := lt_of_rename_eq_bound hs
  refine Or.inr ⟨i, hi, rfl, u.rename (· + (j - i)), ?_⟩
  rw [rename_rename]
  refine congrArg (rename · u) (funext fun m => ?_)
  change m + (j + 1) = m + (j - i) + (i + 1)
  omega

theorem antisymm (h : Inward k p q) (h' : Inward k q p) : p = q := by
  rcases h with rfl | ⟨i, -, rfl, s, hs⟩
  · rfl
  rcases h' with rfl | ⟨j, -, rfl, u, hu⟩
  · rfl
  have hij : i < j := lt_of_rename_eq_bound hs
  have hji : j < i := lt_of_rename_eq_bound hu
  omega

/-- Where two valuations are inward of each other, so are they under one binder. -/
theorem push {σ τ : String → Nameless} {x y : String} (h : y ≠ x → Inward k (τ y) (σ y)) :
    Inward (k + 1) (Nameless.push τ x y) (Nameless.push σ x y) := by
  by_cases hyx : y = x
  · rw [hyx, push_self, push_self]
    exact .refl _ _
  · rw [push_of_ne hyx, push_of_ne hyx]
    exact (h hyx).shift

/-- Another name for the same binder can only capture. -/
theorem push_push (k : Nat) (σ : String → Nameless) {x y z : String} (h : y ≠ x) :
    Inward (k + 1) (Nameless.push σ z y) (Nameless.push σ x y) := by
  rw [push_of_ne h]
  by_cases hyz : y = z
  · rw [hyz, push_self]
    exact bound_zero_shift k _
  · rw [push_of_ne hyz]
    exact .refl _ _

end Inward

end Nameless

open Nameless

/-! ### The valuations around a renaming -/

/-- **The valuations around a renaming** of `y` to `z`: the name is extended, the
second valuation is inward of the first one, and the new name stands where the old
one stood, or inward of it. -/
structure Renames (k : Nat) (z y : String) (σ τ : String → Nameless) : Prop where
  extends_old : Extends z y
  inward : ∀ n, n ≠ y → Inward k (τ n) (σ n)
  inward_new : Inward k (τ z) (σ y)

namespace Renames

variable {k : Nat} {z y w : String} {σ τ : String → Nameless}

/-- Under another binder that neither name is. -/
theorem under_kept (h : Renames k z y σ τ) (hwy : w ≠ y) (hwz : w ≠ z) :
    Renames (k + 1) z y (push σ w) (push τ w) := by
  refine ⟨h.extends_old, fun n hn => .push fun _ => h.inward n hn, ?_⟩
  rw [push_of_ne hwz.symm, push_of_ne hwy.symm]
  exact h.inward_new.shift

/-- The renaming of a binder. -/
theorem of_binder (k : Nat) (σ : String → Nameless) (h : Extends w z) :
    Renames (k + 1) w z (push σ z) (push σ w) := by
  refine ⟨h, fun n hn => .push_push k σ hn, ?_⟩
  rw [push_self, push_self]
  exact .refl _ _

/-- Under a binder that made way for the new name. -/
theorem under_renamed (h : Renames k z y σ τ) (hw : Extends w z) :
    Renames (k + 1) z y (push σ w) (push τ w) := by
  have hwy : w ≠ y := by
    intro he
    have h₁ := hw.length_lt
    have h₂ := h.extends_old.length_lt
    rw [he] at h₁
    omega
  exact h.under_kept hwy hw.ne

end Renames

namespace Term

/-! ### Drifting -/

/-- **The drift of a body under renamings.** The two bodies have the same shape, the
first is read with `σ` and the second with `τ`; an occurrence may have moved inward,
to one of the binders of the body or to one of the `k` around it, and its name has
not become shorter. -/
inductive Drift : (k : Nat) → (σ τ : String → Nameless) → (b c : Term) → Prop
  | var {k : Nat} {σ τ : String → Nameless} {n m : String} :
    n.length ≤ m.length → Inward k (τ m) (σ n) → Drift k σ τ (.var n) (.var m)
  | app {k : Nat} {σ τ : String → Nameless} {f a g b : Term} :
    Drift k σ τ f g → Drift k σ τ a b → Drift k σ τ (.app f a) (.app g b)
  | abs {k : Nat} {σ τ : String → Nameless} {y w : String} {b c : Term} :
    Drift (k + 1) (push σ y) (push τ w) b c → Drift k σ τ (.abs y b) (.abs w c)
  | ref (k : Nat) (σ τ : String → Nameless) (n : String) (t : Term) :
    Drift k σ τ (.ref n t) (.ref n t)

namespace Drift

variable {k : Nat} {σ τ υ : String → Nameless} {b c d : Term}

/-- The same body, read with valuations of which one is inward of the other. -/
theorem of_inward (h : ∀ n, Inward k (τ n) (σ n)) (b : Term) : Drift k σ τ b b := by
  induction b generalizing k σ τ with
  | var n => exact .var (le_refl _) (h n)
  | app f a ihf iha => exact .app (ihf h) (iha h)
  | abs y b ih => exact .abs (ih fun n => .push fun _ => h n)
  | ref n t => exact .ref k σ τ n t

theorem trans (h : Drift k σ τ b c) (h' : Drift k τ υ c d) : Drift k σ υ b d := by
  induction h generalizing υ d with
  | var hlen hin =>
    cases h' with
    | var hlen' hin' => exact .var (le_trans hlen hlen') (hin'.trans hin)
  | app _ _ ihf iha =>
    cases h' with
    | app hf ha => exact .app (ihf hf) (iha ha)
  | abs _ ih =>
    cases h' with
    | abs hb => exact .abs (ih hb)
  | ref k σ τ n t =>
    cases h' with
    | ref => exact .ref k σ υ n t

/-- **What drifts does not come back**: if the two ends of a drift agree, so does
what lies between them. -/
theorem under_eq_of_ends (h : Drift k σ τ b c) (h' : Drift k τ υ c d)
    (hends : d.under υ = b.under σ) : c.under τ = b.under σ := by
  induction h generalizing υ d with
  | var _ hin =>
    cases h' with
    | var _ hin' =>
      rw [under, under] at hends ⊢
      exact hin.antisymm (hends ▸ hin')
  | app _ _ ihf iha =>
    cases h' with
    | app hf ha =>
      simp only [under, Nameless.app.injEq] at hends ⊢
      exact ⟨ihf hf hends.1, iha ha hends.2⟩
  | abs _ ih =>
    cases h' with
    | abs hb =>
      simp only [under, Nameless.lam.injEq] at hends ⊢
      exact ih hb hends
  | ref => rfl

/-- **Renaming makes a body drift.** -/
theorem of_renames {z y : String} (h : Renames k z y σ τ) :
    Drift k σ τ b (substitute b (.var z) y).1 := by
  obtain ⟨v, hv⟩ : ∃ v, v = Term.var z := ⟨_, rfl⟩
  rw [← hv]
  induction b, v, y using substitute_induction generalizing k σ τ z with
  | var n v y =>
    subst hv
    rw [substitute_var]
    by_cases hny : n = y
    · rw [if_pos hny, hny]
      exact .var (le_of_lt h.extends_old.length_lt) h.inward_new
    · rw [if_neg hny]
      exact .var (le_refl _) (h.inward n hny)
  | app f a v y ihf iha =>
    rw [substitute_app]
    exact .app (ihf h hv) (iha h hv)
  | ref n t v y =>
    rw [substitute_ref]
    exact .ref k σ τ n t
  | shadowed b v y =>
    rw [substitute_shadowed]
    exact .abs (of_inward (fun n => .push (h.inward n)) b)
  | kept w b v y hwy hw ih =>
    rw [substitute_kept hwy hw]
    have hwz : w ≠ z := by simpa [hv, freeVars] using hw
    exact .abs (ih (h.under_kept hwy hwz) hv)
  | renamed w b v y hwy hw ihb ih =>
    rw [substitute_renamed hwy hw]
    obtain rfl : w = z := by simpa [hv, freeVars] using hw
    have hext : Extends (freshName w v.freeVars) w := extends_freshName w v.freeVars
    -- the nested renaming makes way for the new name, then the renaming goes on
    exact .abs ((ihb (.of_binder k σ hext) rfl).trans (ih (h.under_renamed hext) hv))

/-- **A renaming that changes nothing is faithful.** -/
theorem faithful_of_renames {z y : String} (h : Renames k z y σ τ)
    (heq : (substitute b (.var z) y).1.under τ = b.under σ) : Faithful b (.var z) y := by
  obtain ⟨v, hv⟩ : ∃ v, v = Term.var z := ⟨_, rfl⟩
  rw [← hv] at heq ⊢
  induction b, v, y using substitute_induction generalizing k σ τ z with
  | var n v y => exact .var n v y
  | app f a v y ihf iha =>
    rw [substitute_app, under, under, Nameless.app.injEq] at heq
    exact .app (ihf h heq.1 hv) (iha h heq.2 hv)
  | ref n t v y => exact .ref n t v y
  | shadowed b v y => exact .shadowed b v y
  | kept w b v y hwy hw ih =>
    rw [substitute_kept hwy hw, under, under, Nameless.lam.injEq] at heq
    have hwz : w ≠ z := by simpa [hv, freeVars] using hw
    exact .kept hwy hw (ih (h.under_kept hwy hwz) heq hv)
  | renamed w b v y hwy hw ihb ih =>
    rw [substitute_renamed hwy hw, under, under, Nameless.lam.injEq] at heq
    obtain rfl : w = z := by simpa [hv, freeVars] using hw
    subst hv
    have hext : Extends (freshName w (Term.var w).freeVars) w := extends_freshName w _
    have hnest := Renames.of_binder k σ hext
    have hrest := h.under_renamed hext
    -- the nested renaming drifts, the rest drifts on, and the ends agree
    have hmid := (Drift.of_renames (b := b) hnest).under_eq_of_ends (.of_renames hrest) heq
    have hfaithful := ihb hnest hmid rfl
    refine .renamed hwy hw (fun _ => ?_) (fun he => ?_) hfaithful
      (ih hrest (heq.trans hmid.symm) rfl)
    · refine hfaithful.notMem_of_under_eq hext.ne ?_ hmid
      rw [push_self, push_of_ne hext.ne]
      exact (shift_ne_bound_zero _).symm
    · -- a name cannot be made from one that was made from it
      have hlong := h.extends_old.length_lt
      have hlonger := hext.length_lt
      rw [he] at hlonger
      omega

end Drift

end Term

end LambdaTrace
