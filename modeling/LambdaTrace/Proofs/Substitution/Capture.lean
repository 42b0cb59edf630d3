import LambdaTrace.Proofs.Substitution.Drift

/-!
# Where substitution captures

`LambdaTrace.Term.Faithful` is not only enough for substitution to be right, it is
needed (`LambdaTrace.Term.faithful_iff`): if a single renaming on the way is harmful,
the result means something else. That is not obvious, since a body may be renamed
many times before the term is inserted into it, and one mistake might undo another.

As long as only renamings happen, a mistake cannot be undone: an occurrence that is
captured moves inward and stays there. The insertion can go wrong in one more way. If
a binder is renamed to the very variable that is substituted for, its occurrences
become copies of the inserted term, which may well bring an occurrence back out. But
those occurrences had a name shorter than that variable's
(`LambdaTrace.Term.Slide`), so none of them was one of that variable's; and no other
free name can stand for what the inserted term does, for the term mentions a binder
that has been passed since. Hence, where the two ends agree, nothing happened in
between (`LambdaTrace.Term.Drift.under_eq_of_slide`).
-/

namespace LambdaTrace

open Nameless

namespace Term

/-! ### What inserting does to an occurrence -/

/-- **The slide of a body under substitution** for `x`: the body is read with `σ`, the
result is a nameless term of the same shape. An occurrence may have moved inward; and
if its name is shorter than `x` it may have become a copy of the inserted term, which
is `w` here. -/
inductive Slide (x : String) :
    (k : Nat) → (w : Nameless) → (σ : String → Nameless) → Term → Nameless → Prop
  | var {k : Nat} {w : Nameless} {σ : String → Nameless} {n : String} {r : Nameless} :
    Inward k r (σ n) ∨ (r = w ∧ n.length < x.length) → Slide x k w σ (.var n) r
  | app {k : Nat} {w : Nameless} {σ : String → Nameless} {f a : Term} {g b : Nameless} :
    Slide x k w σ f g → Slide x k w σ a b → Slide x k w σ (.app f a) (.app g b)
  | abs {k : Nat} {w : Nameless} {σ : String → Nameless} {y : String} {b : Term} {r : Nameless} :
    Slide x (k + 1) w.shift (push σ y) b r → Slide x k w σ (.abs y b) (.lam r)
  | ref (k : Nat) (w : Nameless) (σ : String → Nameless) (n : String) (t : Term) :
    Slide x k w σ (.ref n t) (.const n (t.under .free))

namespace Slide

variable {x : String} {k l : Nat} {w : Nameless} {σ τ : String → Nameless} {b c : Term}
  {r : Nameless}

theorem refl (x : String) (k : Nat) (w : Nameless) (σ : String → Nameless) (b : Term) :
    Slide x k w σ b (b.under σ) := by
  induction b generalizing k w σ with
  | var n => exact .var (Or.inl (.refl k _))
  | app f a ihf iha => exact .app (ihf k w σ) (iha k w σ)
  | abs y b ih => exact .abs (ih _ _ _)
  | ref n t => exact .ref k w σ n t

theorem mono (h : Slide x k w σ b r) (hkl : k ≤ l) : Slide x l w σ b r := by
  induction h generalizing l with
  | var h => exact .var (h.imp_left fun hin => hin.mono hkl)
  | app _ _ ihf iha => exact .app (ihf hkl) (iha hkl)
  | abs _ ih => exact .abs (ih (Nat.succ_le_succ hkl))
  | ref k w σ n t => exact .ref l w σ n t

/-- A drift before a slide is part of the slide. -/
theorem of_drift (h : Drift k σ τ b c) (h' : Slide x k w τ c r) : Slide x k w σ b r := by
  induction h generalizing w r with
  | var hlen hin =>
    cases h' with
    | var h =>
      rcases h with h | ⟨rfl, hx⟩
      · exact .var (Or.inl (h.trans hin))
      · exact .var (Or.inr ⟨rfl, lt_of_le_of_lt hlen hx⟩)
  | app _ _ ihf iha =>
    cases h' with
    | app hf ha => exact .app (ihf hf) (iha ha)
  | abs _ ih =>
    cases h' with
    | abs hb => exact .abs (ih hb)
  | ref k σ τ n t =>
    cases h' with
    | ref => exact .ref k w σ n t

/-- If a short name stands for the inserted term, it may as well stand for a binder
around the body: its occurrences have then become copies. -/
theorem of_update {j : Nat} {y : String} (hyx : y.length < x.length) (hy : σ y = .bound j)
    (h : Slide x j w (Function.update σ y w) b r) : Slide x (j + 1) w σ b r := by
  induction b generalizing j w σ r with
  | var n =>
    cases h with
    | var h =>
      by_cases hny : n = y
      · subst hny
        rw [Function.update_self] at h
        -- it is the inserted term, or a binder further in, or it was a copy before
        rcases h with (rfl | ⟨i, hi, rfl, -⟩) | ⟨rfl, hx⟩
        · exact .var (Or.inr ⟨rfl, hyx⟩)
        · exact .var (Or.inl (hy ▸ .bound_bound (lt_of_lt_of_le hi (Nat.le_succ j)) hi))
        · exact .var (Or.inr ⟨rfl, hx⟩)
      · rw [Function.update_of_ne hny] at h
        exact .var (h.imp_left fun hin => hin.mono (Nat.le_succ j))
  | app f a ihf iha =>
    cases h with
    | app hf ha => exact .app (ihf hy hf) (iha hy ha)
  | abs u b ih =>
    cases h with
    | abs hb =>
      by_cases huy : u = y
      · subst huy
        rw [push_update_self] at hb
        exact .abs (hb.mono (Nat.le_succ _))
      · rw [push_update_of_ne huy] at hb
        refine .abs (ih ?_ hb)
        rw [push_of_ne (Ne.symm huy), hy]
        rfl
  | ref n t =>
    cases h with
    | ref => exact .ref _ w σ n t

/-- **The valuations around the renaming of a binder** of the body, where the term `w`
is inserted for `x`: if the new name is `x` itself, the old one may as well stand for
the inserted term, otherwise it stands for its binder. -/
theorem renames_of_binder {y z : String} (τ : String → Nameless) (w : Nameless)
    (hzy : Extends z y) (hyx : y ≠ x) :
    (z ≠ x → Renames 1 z y (push (Function.update τ x w) y)
      (Function.update (push τ z) x w.shift)) ∧
    (z = x → Renames 0 z y (Function.update (push (Function.update τ x w) y) y w.shift)
      (Function.update (push τ z) x w.shift)) := by
  rw [push_update_of_ne hyx]
  constructor
  · intro hzx
    refine ⟨hzy, fun n hn => ?_, ?_⟩
    · by_cases hnx : n = x
      · rw [hnx, Function.update_self, Function.update_self]
        exact .refl _ _
      · rw [Function.update_of_ne hnx, Function.update_of_ne hnx]
        exact .push_push 0 τ hn
    · rw [Function.update_of_ne hzx, Function.update_of_ne hyx, push_self, push_self]
      exact .refl _ _
  · intro hzx
    refine ⟨hzy, fun n hn => ?_, ?_⟩
    · rw [Function.update_of_ne hn]
      by_cases hnx : n = x
      · rw [hnx, Function.update_self, Function.update_self]
        exact .refl _ _
      · have hnz : n ≠ z := fun he => hnx (he.trans hzx)
        rw [Function.update_of_ne hnx, Function.update_of_ne hnx, push_of_ne hnz, push_of_ne hn]
        exact .refl _ _
    · rw [hzx, Function.update_self, Function.update_self]
      exact .refl _ _

/-- **Substitution makes a body slide.** -/
theorem of_substitute (b v : Term) (x : String) (τ : String → Nameless) :
    Slide x 0 (v.under τ) (Function.update τ x (v.under τ)) b
      ((substitute b v x).1.under τ) := by
  induction b, v, x using substitute_induction generalizing τ with
  | var n v x =>
    rw [substitute_var]
    refine .var (Or.inl (Or.inl ?_))
    by_cases hnx : n = x
    · rw [if_pos hnx, hnx, Function.update_self]
    · rw [if_neg hnx, Function.update_of_ne hnx, under]
  | app f a v x ihf iha =>
    rw [substitute_app]
    exact .app (ihf τ) (iha τ)
  | ref n t v x =>
    rw [substitute_ref]
    exact .ref 0 _ _ n t
  | shadowed b v x =>
    rw [substitute_shadowed, under]
    refine .abs ?_
    rw [push_update_self]
    exact .refl x 1 _ _ b
  | kept y b v x hyx hy ih =>
    rw [substitute_kept hyx hy, under]
    refine .abs ?_
    rw [push_update_of_ne hyx, ← under_push_of_notMem hy]
    exact (ih _).mono (Nat.zero_le 1)
  | renamed y b v x hyx hy ihb ih =>
    rw [substitute_renamed hyx hy, under]
    have hext : Extends (freshName y v.freeVars) y := extends_freshName y v.freeVars
    have hslide := ih (push τ (freshName y v.freeVars))
    rw [under_push_of_notMem (freshName_notMem y v.freeVars)] at hslide
    obtain ⟨hother, hsame⟩ := renames_of_binder τ (v.under τ) hext hyx
    refine .abs ?_
    by_cases hzx : freshName y v.freeVars = x
    · have hdrift := Drift.of_renames (b := b) (hsame hzx)
      exact of_update (hzx ▸ hext.length_lt) (push_self _ _) (hslide.of_drift hdrift)
    · have hdrift := Drift.of_renames (b := b) (hother hzx)
      exact (hslide.mono (Nat.zero_le 1)).of_drift hdrift

end Slide

/-- **No mistake is undone by another**: if a body drifts, then slides, and ends where
it began, it has not drifted – provided that none of its short names stands for the
inserted term. -/
theorem Drift.under_eq_of_slide {x : String} {k : Nat} {w : Nameless}
    {σ τ : String → Nameless} {b c : Term} (h : Drift k σ τ b c)
    (hslide : Slide x k w τ c (b.under σ))
    (hw : ∀ n ∈ b.freeVars, n.length < x.length → σ n ≠ w) : c.under τ = b.under σ := by
  induction h generalizing w with
  | var hlen hin =>
    rw [under] at hslide
    cases hslide with
    | var h =>
      -- only an occurrence that stood for the inserted term could be a copy
      rcases h with h | ⟨heq, hx⟩
      · exact hin.antisymm h
      · exact absurd heq (hw _ (by simp [freeVars]) (lt_of_le_of_lt hlen hx))
  | app _ _ ihf iha =>
    cases hslide with
    | app hf ha =>
      rw [under, under, ihf hf fun n hn => hw n (mem_freeVars_app.mpr (Or.inl hn)),
        iha ha fun n hn => hw n (mem_freeVars_app.mpr (Or.inr hn))]
  | @abs k σ τ y w' b c _ ih =>
    cases hslide with
    | abs hb =>
      rw [under, under, ih hb fun n hn hx => ?_]
      by_cases hny : n = y
      · rw [hny, push_self]
        exact (shift_ne_bound_zero _).symm
      · rw [push_of_ne hny]
        exact fun he => hw n (mem_freeVars_abs.mpr ⟨hn, hny⟩) hx (shift_injective he)
  | ref => rfl

/-! ### Faithful is what it takes -/

/-- **Names kept apart**: every name stands for a variable, and no two for the same. -/
structure NamesApart (τ : String → Nameless) : Prop where
  injective : Function.Injective τ
  isVar : ∀ n, (τ n).isVar = true

namespace NamesApart

variable {τ : String → Nameless}

theorem push (h : NamesApart τ) (x : String) : NamesApart (push τ x) := by
  constructor
  · intro n m hnm
    -- the index of the binder is that of no name outside
    by_cases hn : n = x <;> by_cases hm : m = x
    · rw [hn, hm]
    · rw [hn, push_self, push_of_ne hm] at hnm
      exact absurd hnm.symm (shift_ne_bound_zero _)
    · rw [hm, push_self, push_of_ne hn] at hnm
      exact absurd hnm (shift_ne_bound_zero _)
    · rw [push_of_ne hn, push_of_ne hm] at hnm
      exact h.injective (shift_injective hnm)
  · intro n
    by_cases hn : n = x
    · rw [hn, push_self]
      rfl
    · rw [push_of_ne hn, isVar_shift]
      exact h.isVar n

theorem ofScope (scope : List String) : NamesApart (ofScope scope) := by
  induction scope with
  | nil => exact ⟨fun n m h => by simpa [ofScope_nil] using h, fun n => rfl⟩
  | cons x scope ih =>
    rw [ofScope_cons]
    exact ih.push x

/-- A name stands for no term that mentions another name. -/
theorem ne_under (h : NamesApart τ) {v : Term} {y n : String} (hy : y ∈ v.freeVars)
    (hny : n ≠ y) : τ n ≠ v.under τ := by
  intro he
  have hvar := h.isVar n
  rw [he] at hvar
  cases v with
  | var u =>
    have hyu : y = u := by simpa [freeVars] using hy
    rw [under] at he
    exact hny ((h.injective he).trans hyu.symm)
  | _ => simp [under, Nameless.isVar] at hvar

end NamesApart

/-- If the binder of a body is not mentioned in what the body is read as, then it is
not free in the body. -/
theorem notMem_of_under_push_eq_shift {b : Term} {σ : String → Nameless} {y : String}
    {r : Nameless} (h : b.under (push σ y) = r.shift) : y ∉ b.freeVars := by
  intro hy
  -- instantiated with anything, the body stays the same
  have hany : ∀ w, b.under (Function.update σ y w) = r := by
    intro w
    rw [← instantiate_under_push, h, shift_instantiate]
  have h := under_eq_iff.mp ((hany (.bound 0)).trans (hany (.bound 1)).symm) y hy
  rw [Function.update_self, Function.update_self] at h
  exact absurd h (by simp)

section Harmless

variable {b v : Term} {x y z : String} {τ : String → Nameless}

/-- No short name but that of the binder stands for the inserted term, which mentions
the binder's name. -/
theorem push_update_ne_shift (hτ : NamesApart τ) (hy : y ∈ v.freeVars) {n : String}
    (hny : n ≠ y) (hnx : n.length < x.length) :
    push (Function.update τ x (v.under τ)) y n ≠ (v.under τ).shift := by
  have hne : n ≠ x := by
    rintro rfl
    exact absurd hnx (lt_irrefl _)
  rw [push_of_ne hny, Function.update_of_ne hne]
  exact fun he => hτ.ne_under hy hny (shift_injective he)

/-- **A renaming to another name** than the variable's is harmless if the result is
right: what lies between the renaming and the insertion is the body as it was. -/
theorem harmless_of_ne (hτ : NamesApart τ) (hyx : y ≠ x) (hy : y ∈ v.freeVars)
    (hzy : Extends z y) (hzv : z ∉ v.freeVars) (hzx : z ≠ x)
    (h : (substitute (substitute b (.var z) y).1 v x).1.under (push τ z) =
      b.under (push (Function.update τ x (v.under τ)) y)) :
    z ∉ b.freeVars ∧ Faithful b (.var z) y ∧
      (substitute b (.var z) y).1.under (Function.update (push τ z) x (v.under τ).shift) =
        b.under (push (Function.update τ x (v.under τ)) y) := by
  have hslide := Slide.of_substitute (substitute b (.var z) y).1 v x (push τ z)
  rw [under_push_of_notMem hzv, h] at hslide
  have hren := (Slide.renames_of_binder τ (v.under τ) hzy hyx).1 hzx
  have hmid := (Drift.of_renames hren).under_eq_of_slide (hslide.mono (Nat.zero_le 1))
    fun n _ hnx => by
      by_cases hny : n = y
      · rw [hny, push_self]
        exact (shift_ne_bound_zero _).symm
      · exact push_update_ne_shift hτ hy hny hnx
  have hfaithful := Drift.faithful_of_renames hren hmid
  refine ⟨hfaithful.notMem_of_under_eq hzy.ne ?_ hmid, hfaithful, hmid⟩
  -- an occurrence of the new name would have been captured
  rw [Function.update_of_ne hzx, push_self, push_of_ne hzy.ne]
  exact (shift_ne_bound_zero _).symm

/-- **A renaming to the variable itself** is harmless if the result is right: the old
name cannot occur. -/
theorem harmless_of_eq (hτ : NamesApart τ) (hyx : y ≠ x) (hy : y ∈ v.freeVars)
    (hzy : Extends z y) (hzv : z ∉ v.freeVars) (hzx : z = x)
    (h : (substitute (substitute b (.var z) y).1 v x).1.under (push τ z) =
      b.under (push (Function.update τ x (v.under τ)) y)) :
    y ∉ b.freeVars ∧ Faithful b (.var z) y ∧
      (substitute b (.var z) y).1.under (Function.update (push τ z) x (v.under τ).shift) =
        b.under (push (Function.update τ x (v.under τ)) y) := by
  have hslide := Slide.of_substitute (substitute b (.var z) y).1 v x (push τ z)
  rw [under_push_of_notMem hzv, h] at hslide
  have hren := (Slide.renames_of_binder τ (v.under τ) hzy hyx).2 hzx
  -- the variable is gone from the result, so nothing refers to the new binder
  have hyb : y ∉ b.freeVars := by
    have hz : z ∉ (substitute (substitute b (.var z) y).1 v x).1.freeVars := by
      intro hmem
      rcases mem_freeVars_substitute hmem with ⟨-, hne⟩ | hmem
      · exact hne hzx
      · exact hzv hmem
    rw [under_push_of_notMem hz] at h
    exact notMem_of_under_push_eq_shift h.symm
  have hread := under_update_of_notMem hyb (push (Function.update τ x (v.under τ)) y)
    (v.under τ).shift
  rw [← hread] at hslide
  have hmid := (Drift.of_renames hren).under_eq_of_slide hslide fun n hn hnx => by
    have hny : n ≠ y := fun he => hyb (he ▸ hn)
    rw [Function.update_of_ne hny]
    exact push_update_ne_shift hτ hy hny hnx
  exact ⟨hyb, Drift.faithful_of_renames hren hmid, hmid.trans hread⟩

end Harmless

/-- **Substitution is right only where it is faithful.** -/
theorem faithful_of_under_eq {b v : Term} {x : String} {τ : String → Nameless}
    (hτ : NamesApart τ)
    (h : (substitute b v x).1.under τ = b.under (Function.update τ x (v.under τ))) :
    Faithful b v x := by
  induction b, v, x using substitute_induction generalizing τ with
  | var n v x => exact .var n v x
  | app f a v x ihf iha =>
    rw [substitute_app, under, under, Nameless.app.injEq] at h
    exact .app (ihf hτ h.1) (iha hτ h.2)
  | ref n t v x => exact .ref n t v x
  | shadowed b v x => exact .shadowed b v x
  | kept y b v x hyx hy ih =>
    rw [substitute_kept hyx hy, under, under, Nameless.lam.injEq, push_update_of_ne hyx,
      ← under_push_of_notMem hy] at h
    exact .kept hyx hy (ih (hτ.push y) h)
  | renamed y b v x hyx hy _ ih =>
    rw [substitute_renamed hyx hy, under, under, Nameless.lam.injEq] at h
    have hzy : Extends (freshName y v.freeVars) y := extends_freshName y v.freeVars
    have hzv : freshName y v.freeVars ∉ v.freeVars := freshName_notMem y v.freeVars
    by_cases hzx : freshName y v.freeVars = x
    · obtain ⟨hyb, hfaithful, hmid⟩ := harmless_of_eq hτ hyx hy hzy hzv hzx h
      refine .renamed hyx hy (fun hne => absurd hzx hne) (fun _ => hyb) hfaithful
        (ih (hτ.push (freshName y v.freeVars)) ?_)
      rw [h, under_push_of_notMem hzv, hmid]
    · obtain ⟨hzb, hfaithful, hmid⟩ := harmless_of_ne hτ hyx hy hzy hzv hzx h
      refine .renamed hyx hy (fun _ => hzb) (fun he => absurd he hzx) hfaithful
        (ih (hτ.push (freshName y v.freeVars)) ?_)
      rw [h, under_push_of_notMem hzv, hmid]

/-- **Faithful substitution is right substitution**: contracting by name gives what
contracting without names gives, under any binders, exactly where every renaming on
the way is harmless. -/
theorem faithful_iff {b v : Term} {x : String} (scope : List String) :
    Faithful b v x ↔ (substitute b v x).1.namelessIn scope =
      (b.namelessIn (x :: scope)).instantiate (v.namelessIn scope) := by
  constructor
  · exact fun h => h.namelessIn_substitute scope
  · intro h
    rw [namelessIn_eq_under, namelessIn_eq_under, namelessIn_eq_under, ofScope_cons,
      instantiate_under_push] at h
    exact faithful_of_under_eq (.ofScope scope) h

end Term

end LambdaTrace
