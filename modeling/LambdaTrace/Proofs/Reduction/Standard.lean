import LambdaTrace.Proofs.Nameless.Valuation

/-!
# Standard reduction

Whatever can be reached by contracting redexes anywhere, in any order, can be reached in
a **standard** way: first some steps at the head, which bring out the form that the result
has, and then, in a standard way again, whatever happens inside that form
(`LambdaTrace.Nameless.standard_of_reduces`). A strategy that goes to the head first
therefore misses nothing that another one reaches.

The order of steps is not rearranged for that. A standard reduction is defined along
the result (`LambdaTrace.Nameless.Standard`), and one more step of any kind at its end is
absorbed: if it contracts a redex of the result, then the abstraction of that redex was
brought out by head steps, and so the contraction can be made there and then, before
everything that happened inside the two parts of the redex. What happened inside them
happens inside the contracted term instead, which is where reduction has to be compatible
with substitution (`LambdaTrace.Nameless.Standard.subst`).

Constants may be unfolded on the way or not, as a parameter says. Unfolding one is a head
step like a contraction, but it depends on nothing around it, since what a constant stands
for has no loose index (`LambdaTrace.Nameless.LocallyClosed`).
-/

namespace LambdaTrace

namespace Nameless

/-! ### Terms without loose indices -/

/-- Whether no index is loose, so that no substitution for indices reaches anything. -/
def LocallyClosed (t : Nameless) : Prop :=
  ∀ θ, t.subst θ = t

/-- The nameless form of a term is locally closed: its free variables have names. -/
theorem locallyClosed_nameless (t : Term) : t.nameless.LocallyClosed := by
  intro θ
  rw [t.nameless_eq_under, t.under_subst]
  rfl

/-! ### Steps anywhere and steps at the head -/

section Relations

variable (unfolding : Prop)

/-- **A step anywhere**: a contraction or, if that is allowed, the unfolding of a constant. -/
inductive Reduces : Nameless → Nameless → Prop
  | contract (b a : Nameless) : Reduces (.app (.lam b) a) (b.instantiate a)
  | unfold (n : String) {e : Nameless} : unfolding → e.LocallyClosed → Reduces (.const n e) e
  | fn {f g : Nameless} (a : Nameless) : Reduces f g → Reduces (.app f a) (.app g a)
  | arg (f : Nameless) {a b : Nameless} : Reduces a b → Reduces (.app f a) (.app f b)
  | body {b c : Nameless} : Reduces b c → Reduces (.lam b) (.lam c)

/-- **A step at the head**: neither under a binder nor in an argument. -/
inductive HeadStep : Nameless → Nameless → Prop
  | contract (b a : Nameless) : HeadStep (.app (.lam b) a) (b.instantiate a)
  | unfold (n : String) {e : Nameless} : unfolding → e.LocallyClosed → HeadStep (.const n e) e
  | fn {f g : Nameless} (a : Nameless) : HeadStep f g → HeadStep (.app f a) (.app g a)

/-- Steps at the head, one after the other. -/
abbrev HeadSteps : Nameless → Nameless → Prop :=
  Relation.ReflTransGen (HeadStep unfolding)

/-- **A standard reduction**: steps at the head, and then standard reductions of the parts
of what they lead to. -/
inductive Standard : Nameless → Nameless → Prop
  | head {t u : Nameless} : HeadSteps unfolding t u → Standard t u
  | app {t f g a b : Nameless} : HeadSteps unfolding t (.app f a) → Standard f g →
    Standard a b → Standard t (.app g b)
  | lam {t b c : Nameless} : HeadSteps unfolding t (.lam b) → Standard b c →
    Standard t (.lam c)

end Relations

variable {unfolding : Prop} {t u v f g a b c : Nameless}

/-! ### Steps at the head -/

theorem HeadStep.subst (h : HeadStep unfolding t u) (θ : Nat → Nameless) :
    HeadStep unfolding (t.subst θ) (u.subst θ) := by
  induction h with
  | contract b a =>
    rw [subst_instantiate]
    exact .contract _ _
  | @unfold n e hδ he =>
    -- neither the constant nor what it stands for is reached
    rw [he θ]
    exact .unfold n hδ he
  | fn a _ ih => exact .fn _ ih

namespace HeadSteps

theorem fn (h : HeadSteps unfolding f g) (a : Nameless) :
    HeadSteps unfolding (.app f a) (.app g a) :=
  h.lift (Nameless.app · a) fun _ _ hstep => .fn a hstep

theorem subst (h : HeadSteps unfolding t u) (θ : Nat → Nameless) :
    HeadSteps unfolding (t.subst θ) (u.subst θ) :=
  h.lift (Nameless.subst θ) fun _ _ hstep => hstep.subst θ

theorem rename (h : HeadSteps unfolding t u) (ξ : Nat → Nat) :
    HeadSteps unfolding (t.rename ξ) (u.rename ξ) := by
  rw [rename_eq_subst, rename_eq_subst]
  exact h.subst _

end HeadSteps

namespace Standard

theorem refl (t : Nameless) : Standard unfolding t t :=
  .head .refl

/-- Steps at the head can be put in front. -/
theorem of_headSteps (h : HeadSteps unfolding t u) (h' : Standard unfolding u v) :
    Standard unfolding t v := by
  cases h' with
  | head hv => exact .head (h.trans hv)
  | app hu hf ha => exact .app (h.trans hu) hf ha
  | lam hu hb => exact .lam (h.trans hu) hb

/-! ### The form of the result -/

/-- If the result is an application, then an application has been brought out. -/
theorem exists_app (h : Standard unfolding t (.app g b)) : ∃ f a,
    HeadSteps unfolding t (.app f a) ∧ Standard unfolding f g ∧ Standard unfolding a b := by
  cases h with
  | head ht => exact ⟨g, b, ht, refl g, refl b⟩
  | app ht hf ha => exact ⟨_, _, ht, hf, ha⟩

/-- If the result is an abstraction, then an abstraction has been brought out. -/
theorem exists_lam (h : Standard unfolding t (.lam c)) : ∃ b,
    HeadSteps unfolding t (.lam b) ∧ Standard unfolding b c := by
  cases h with
  | head ht => exact ⟨c, ht, refl c⟩
  | lam ht hb => exact ⟨_, ht, hb⟩

/-- A constant can only have been brought out by steps at the head. -/
theorem headSteps_const {n : String} {e : Nameless} (h : Standard unfolding t (.const n e)) :
    HeadSteps unfolding t (.const n e) := by
  cases h with
  | head ht => exact ht

/-! ### Substitution -/

theorem rename (h : Standard unfolding t u) (ξ : Nat → Nat) :
    Standard unfolding (t.rename ξ) (u.rename ξ) := by
  induction h generalizing ξ with
  | head ht => exact .head (ht.rename ξ)
  | app ht _ _ ihf iha => exact .app (ht.rename ξ) (ihf ξ) (iha ξ)
  | lam ht _ ih => exact .lam (ht.rename ξ) (ih (upRenaming ξ))

theorem up {θ ζ : Nat → Nameless} (h : ∀ i, Standard unfolding (θ i) (ζ i)) (i : Nat) :
    Standard unfolding (up θ i) (up ζ i) := by
  cases i with
  | zero => exact refl _
  | succ i => exact (h i).rename (· + 1)

/-- Reducing what is put for the indices of a term reduces the term. -/
theorem subst_congr (t : Nameless) {θ ζ : Nat → Nameless}
    (h : ∀ i, Standard unfolding (θ i) (ζ i)) :
    Standard unfolding (t.subst θ) (t.subst ζ) := by
  induction t generalizing θ ζ with
  | bound i => exact h i
  | free x => exact refl _
  | app f a ihf iha => exact .app .refl (ihf h) (iha h)
  | lam b ih => exact .lam .refl (ih (up h))
  | const n e => exact refl _

/-- **Standard reduction is compatible with substitution.** -/
theorem subst (h : Standard unfolding t u) {θ ζ : Nat → Nameless}
    (hθ : ∀ i, Standard unfolding (θ i) (ζ i)) :
    Standard unfolding (t.subst θ) (u.subst ζ) := by
  induction h generalizing θ ζ with
  | @head t u ht => exact of_headSteps (ht.subst θ) (subst_congr u hθ)
  | app ht _ _ ihf iha => exact .app (ht.subst θ) (ihf hθ) (iha hθ)
  | lam ht _ ih => exact .lam (ht.subst θ) (ih (up hθ))

theorem instantiate (hb : Standard unfolding b c) (ha : Standard unfolding t u) :
    Standard unfolding (b.instantiate t) (c.instantiate u) := by
  refine hb.subst fun i => ?_
  cases i with
  | zero => exact ha
  | succ i => exact refl _

/-! ### One more step -/

/-- **A step at the end is absorbed**, wherever it is. -/
theorem tail (h : Standard unfolding t u) (hstep : Reduces unfolding u v) :
    Standard unfolding t v := by
  induction hstep generalizing t with
  | contract b a =>
    obtain ⟨f, x, ht, hf, hx⟩ := h.exists_app
    obtain ⟨c, hc, hcb⟩ := hf.exists_lam
    -- the redex has been brought out at the head, and that is where it is contracted
    have hhead : HeadSteps unfolding t (c.instantiate x) :=
      (ht.trans (hc.fn x)).tail (.contract c x)
    exact of_headSteps hhead (hcb.instantiate hx)
  | @unfold n e hδ he => exact .head (h.headSteps_const.tail (.unfold n hδ he))
  | fn a _ ih =>
    obtain ⟨f, x, ht, hf, hx⟩ := h.exists_app
    exact .app ht (ih hf) hx
  | arg f _ ih =>
    obtain ⟨f, x, ht, hf, hx⟩ := h.exists_app
    exact .app ht hf (ih hx)
  | body _ ih =>
    obtain ⟨c, ht, hc⟩ := h.exists_lam
    exact .lam ht (ih hc)

end Standard

/-- **Whatever is reached is reached in a standard way.** -/
theorem standard_of_reduces (h : Relation.ReflTransGen (Reduces unfolding) t u) :
    Standard unfolding t u := by
  induction h with
  | refl => exact .refl t
  | tail _ hstep ih => exact ih.tail hstep

/-- If a term that is no application is reached, then steps at the head lead to one. -/
theorem exists_headSteps (h : Relation.ReflTransGen (Reduces unfolding) t u)
    (hu : u.isApp = false) : ∃ w, HeadSteps unfolding t w ∧ w.isApp = false := by
  cases standard_of_reduces h with
  | head ht => exact ⟨u, ht, hu⟩
  | app => cases hu
  | lam ht _ => exact ⟨_, ht, rfl⟩

end Nameless

end LambdaTrace
