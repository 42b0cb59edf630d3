import LambdaTrace.Proofs.Reduction.Standard
import LambdaTrace.Proofs.Reduction.Weak

/-!
# Call by name ends where call by value does

Call by value reduces an argument once, and call by name as often as it has been copied,
or never. So there is no matching the steps of one with those of the other, and the
comparison goes through the calculus that both belong to: what call by value does are
contractions and unfoldings somewhere in the term
(`LambdaTrace.Nameless.ValueStep.reduces`), and what can be reached in that way at all can
be reached by steps at the head first (`LambdaTrace.Nameless.exists_headSteps`). Steps at
the head are what call by name does, until the term is no application any more
(`LambdaTrace.Nameless.HeadStep.nameStep`); and from a closed term that is where either
strategy ends.

The macros are no exception. Call by value unfolds an argument that stands for an
application, which call by name leaves folded; but the calculus may unfold anything, and
the steps at the head unfold nothing but the head.
-/

namespace LambdaTrace

namespace Nameless

variable {t u w : Nameless}

/-! ### From call by value to the calculus -/

/-- Whether what constants stand for is locally closed, so that it may be unfolded. -/
def ConstsClosed : Nameless → Prop
  | .bound _ => True
  | .free _ => True
  | .app f a => f.ConstsClosed ∧ a.ConstsClosed
  | .lam b => b.ConstsClosed
  | .const _ e => e.LocallyClosed

/-- What a reference stands for is read under no binder. -/
theorem constsClosed_namelessIn (t : Term) (scope : List String) :
    (t.namelessIn scope).ConstsClosed := by
  induction t generalizing scope with
  | var x =>
    rw [Term.namelessIn]
    split <;> trivial
  | app f a ihf iha => exact ⟨ihf scope, iha scope⟩
  | abs x b ih => exact ih (x :: scope)
  | ref n t => exact locallyClosed_nameless t

/-- **A step of call by value** is a contraction or an unfolding. -/
theorem ValueStep.reduces (h : ValueStep t u) (ht : t.ConstsClosed) : Reduces True t u := by
  induction h with
  | beta b => exact .contract b _
  | fn a _ ih => exact .fn a (ih ht.1)
  | arg b _ ih => exact .arg _ (ih ht.2)
  | unfoldFn n e a => exact .fn a (.unfold n trivial ht.1)
  | unfoldArg b n => exact .arg _ (.unfold n trivial ht.2)

/-! ### From the calculus to call by name -/

/-- **A step at the head of an application** is one of call by name. -/
theorem HeadStep.nameStep (h : HeadStep True t u) (ht : t.isApp = true) : NameStep t u := by
  induction h with
  | contract b a => exact .beta b a
  | unfold n => cases ht
  | @fn f g a hfg ih =>
    by_cases hf : f.isApp = true
    · exact .fn a (ih hf)
    · -- the only other function with a step at its head is a constant
      cases hfg with
      | contract => exact absurd rfl hf
      | unfold n => exact .unfoldFn n _ a
      | fn => exact absurd rfl hf

/-- As long as there is an application, steps at the head are steps of call by name. -/
theorem exists_nameSteps (h : HeadSteps True t w) (hw : w.isApp = false) :
    ∃ u, Relation.ReflTransGen NameStep t u ∧ u.isApp = false := by
  induction h using Relation.ReflTransGen.head_induction_on with
  | refl => exact ⟨w, .refl, hw⟩
  | @head t v hstep _ ih =>
    by_cases ht : t.isApp = true
    · obtain ⟨u, hu, happ⟩ := ih
      exact ⟨u, .head (hstep.nameStep ht) hu, happ⟩
    · exact ⟨t, .refl, Bool.not_eq_true _ ▸ ht⟩

end Nameless

open Nameless

namespace Term

variable {t n : Term} {budget : Nat}

/-- What a run of call by value reports is reached in the calculus, and it is no
application. -/
theorem reduces_of_cbv (hclosed : t.isClosed = true) (hrefs : t.refsClosed = true)
    (h : (Strategy.cbv.run budget t).normalForm? = some n) :
    Relation.ReflTransGen (Reduces True) t.nameless n.nameless ∧ n.nameless.isApp = false := by
  have hinv : ∀ t s, t.isClosed = true ∧ t.refsClosed = true → Strategy.cbv.step t = some s →
      s.next.isClosed = true ∧ s.next.refsClosed = true := fun _ _ => closed_next_of_step
  have hstep : ∀ t s, t.isClosed = true ∧ t.refsClosed = true → Strategy.cbv.step t = some s →
      Reduces True t.nameless s.next.nameless := fun t s ht hs =>
    (valueStep_of_stepValue ht.1 hs).reduces (constsClosed_namelessIn t [])
  constructor
  · have hreach := reaches_of_normalForm? (R := fun t u => Reduces True t.nameless u.nameless)
      hinv hstep ⟨hclosed, hrefs⟩ h
    exact hreach.lift Term.nameless fun _ _ hstep => hstep
  · have hn := inv_of_normalForm? hinv ⟨hclosed, hrefs⟩ h
    rw [isApp_nameless]
    exact (stepValue_eq_none_iff hn.1).mp (step_eq_none_of_normalForm? h)

/-- **Call by name ends where its machine does**: it takes the machine's steps, and it is stuck
only at a term that is no application. -/
theorem cbn_ends_of_nameSteps (hclosed : t.isClosed = true) (hrefs : t.refsClosed = true)
    {u : Nameless} (hu : Relation.ReflTransGen NameStep t.nameless u) (happ : u.isApp = false) :
    ∃ budget, (Strategy.cbn.run budget t).timedOut = false := by
  have hinv : ∀ t s, t.isClosed = true ∧ t.refsClosed = true → Strategy.cbn.step t = some s →
      s.next.isClosed = true ∧ s.next.refsClosed = true := fun _ _ => closed_next_of_step
  have hsound : ∀ t s, t.isClosed = true ∧ t.refsClosed = true → Strategy.cbn.step t = some s →
      NameStep t.nameless s.next.nameless := fun _ _ ht => nameStep_of_stepName ht.1
  have hstuck : ∀ t, t.isClosed = true ∧ t.refsClosed = true → Strategy.cbn.step t = none →
      ∀ u, ¬NameStep t.nameless u := by
    intro t ht hs u hstep
    have happ := hstep.isApp
    rw [isApp_nameless, (stepName_eq_none_iff ht.1).mp hs] at happ
    cases happ
  have hend : ∀ v, ¬NameStep u v := by
    intro v hstep
    rw [hstep.isApp] at happ
    cases happ
  obtain ⟨budget, n, hn, -⟩ := exists_normalForm?_of_reflTransGen (R := NameStep)
    (fun _ _ _ => NameStep.det) hsound hstuck hinv ⟨hclosed, hrefs⟩ hu hend .start
  exact ⟨budget, timedOut_eq_false_iff.mpr ⟨n, hn⟩⟩

/-- **Call by name finds a value whenever call by value does**: if a run of call by value
from a closed term, whose references are closed at every depth, ends within some budget,
then so does one of call by name. -/
theorem cbn_ends_of_cbv (hclosed : t.isClosed = true) (hrefs : t.refsClosed = true)
    (h : ∃ budget, (Strategy.cbv.run budget t).timedOut = false) :
    ∃ budget, (Strategy.cbn.run budget t).timedOut = false := by
  obtain ⟨budget, hend⟩ := h
  obtain ⟨v, hv⟩ := timedOut_eq_false_iff.mp hend
  obtain ⟨hreach, hvapp⟩ := reduces_of_cbv hclosed hrefs hv
  obtain ⟨w, hw, hwapp⟩ := exists_headSteps hreach hvapp
  obtain ⟨u, hu, huapp⟩ := exists_nameSteps hw hwapp
  exact cbn_ends_of_nameSteps hclosed hrefs hu huapp

/-- An argument that call by value has to unfold and reduce, and that call by name throws
away as it is. -/
def discardedMacro : Term :=
  .app (.abs "x" (.abs "y" (.var "y")))
    (.ref "I" (.app (.abs "x" (.var "x")) (.abs "x" (.var "x"))))

theorem cbn_ends_of_cbv_discardedMacro : discardedMacro.isClosed = true ∧
    discardedMacro.refsClosed = true ∧ (Strategy.cbv.run 3 discardedMacro).timedOut = false ∧
      ∃ budget, (Strategy.cbn.run budget discardedMacro).timedOut = false := by
  have hend : (Strategy.cbv.run 3 discardedMacro).timedOut = false := by decide +kernel
  exact ⟨by decide, by decide, hend, cbn_ends_of_cbv (by decide) (by decide) ⟨3, hend⟩⟩

end Term

end LambdaTrace
