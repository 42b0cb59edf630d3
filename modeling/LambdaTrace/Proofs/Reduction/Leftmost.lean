import LambdaTrace.Proofs.Reduction.Standard
import LambdaTrace.Proofs.Reduction.Strong

/-!
# Normal order finds every normal form

A normal form that can be reached by contractions, in whatever order, is reached by
normal order. On terms without names that is a matter of standard reductions: they begin
at the head, as normal order does, and where the result is normal they can go on from left
to right, since nothing that they lead to on the way is a redex before its turn
(`LambdaTrace.Nameless.normalSteps_of_beta`).

Here normal order is a machine (`LambdaTrace.Nameless.NormalStep`), which contracts the
redex that begins furthest to the left. The strategy on terms with names chooses between
the whole application, its function and its argument, and it does so as the machine
does; but it contracts as the machine does only where its substitution is faithful
(`LambdaTrace.Term.normalStep_of_stepNormal`). That is what has to be asked of a run
(`LambdaTrace.Term.normal_ends_of_beta`).
-/

namespace LambdaTrace

open Nameless Step

namespace Nameless

variable {t u v f g a b : Nameless}

/-! ### The machine -/

/-- **The machine of normal order**: the redex whose abstraction is furthest to the left. An
argument has its turn when the function is normal and cannot be applied. -/
inductive NormalStep : Nameless → Nameless → Prop
  | contract (b a : Nameless) : NormalStep (.app (.lam b) a) (b.instantiate a)
  | fn {f g : Nameless} (a : Nameless) : (∀ b, f ≠ .lam b) → NormalStep f g →
    NormalStep (.app f a) (.app g a)
  | arg {f a b : Nameless} : (∀ b, f ≠ .lam b) → f.IsNormal → NormalStep a b →
    NormalStep (.app f a) (.app f b)
  | body {b c : Nameless} : NormalStep b c → NormalStep (.lam b) (.lam c)

/-- Steps of normal order, one after the other. -/
abbrev NormalSteps : Nameless → Nameless → Prop :=
  Relation.ReflTransGen NormalStep

theorem NormalStep.beta (h : NormalStep t u) : Beta t u := by
  induction h with
  | contract b a => exact .contract b a
  | fn a _ _ ih => exact .fn a ih
  | arg _ _ _ ih => exact .arg _ ih
  | body _ ih => exact .body ih

/-- Normal order has one step at most. -/
theorem NormalStep.det (h : NormalStep t u) (h' : NormalStep t v) : u = v := by
  induction h generalizing v with
  | contract b a =>
    cases h' with
    | contract => rfl
    | fn _ hlam _ => exact absurd rfl (hlam b)
    | arg hlam _ _ => exact absurd rfl (hlam b)
  | fn a hlam hf ih =>
    cases h' with
    | contract b => exact absurd rfl (hlam b)
    | fn _ _ hf' => rw [ih hf']
    | arg _ hnormal _ => exact absurd hf.beta (hnormal _)
  | arg hlam hnormal ha ih =>
    cases h' with
    | contract b => exact absurd rfl (hlam b)
    | fn _ _ hf' => exact absurd hf'.beta (hnormal _)
    | arg _ _ ha' => rw [ih ha']
  | body hb ih =>
    cases h' with
    | body hb' => rw [ih hb']

/-! ### Steps of the parts -/

/-- An abstraction stays one. -/
theorem NormalSteps.exists_lam (h : NormalSteps (.lam b) u) : ∃ c, u = .lam c := by
  induction h with
  | refl => exact ⟨b, rfl⟩
  | tail _ hstep ih =>
    obtain ⟨c, rfl⟩ := ih
    cases hstep
    exact ⟨_, rfl⟩

/-- Steps of the function, as long as it does not become an abstraction. -/
theorem NormalSteps.fn (h : NormalSteps f g) (hg : ∀ b, g ≠ .lam b) (a : Nameless) :
    NormalSteps (.app f a) (.app g a) := by
  induction h using Relation.ReflTransGen.head_induction_on with
  | refl => exact .refl
  | @head f f' hstep hrest ih =>
    have hf : ∀ b, f ≠ .lam b := by
      rintro b rfl
      obtain ⟨c, hc⟩ := NormalSteps.exists_lam (hrest.head hstep)
      exact hg c hc
    exact .head (.fn a hf hstep) ih

/-- Steps of the argument, when the function is done with. -/
theorem NormalSteps.arg (hf : ∀ b, f ≠ .lam b) (hnormal : f.IsNormal) (h : NormalSteps a b) :
    NormalSteps (.app f a) (.app f b) :=
  h.lift (Nameless.app f) fun _ _ hstep => .arg hf hnormal hstep

theorem NormalSteps.body (h : NormalSteps a b) : NormalSteps (.lam a) (.lam b) :=
  h.lift Nameless.lam fun _ _ hstep => .body hstep

/-! ### Standard reductions to a normal form -/

/-- A contraction at the head is the first that normal order makes. -/
theorem HeadStep.normalStep (h : HeadStep False t u) : NormalStep t u := by
  induction h with
  | contract b a => exact .contract b a
  | unfold n hfalse => exact hfalse.elim
  | @fn f g a hfg ih =>
    refine .fn a ?_ ih
    rintro b rfl
    cases hfg

theorem HeadSteps.normalSteps (h : HeadSteps False t u) : NormalSteps t u :=
  h.lift id fun _ _ hstep => hstep.normalStep

/-- **A standard reduction to a normal form** can be made from left to right. -/
theorem Standard.normalSteps (h : Standard False t u) (hu : u.IsNormal) : NormalSteps t u := by
  induction h with
  | head ht => exact ht.normalSteps
  | @app t f g a b ht _ _ ihf iha =>
    obtain ⟨hlam, hg, hb⟩ := isNormal_app.mp hu
    have hfn : NormalSteps (.app f a) (.app g a) := (ihf hg).fn hlam a
    have harg : NormalSteps (.app g a) (.app g b) := .arg hlam hg (iha hb)
    exact ht.normalSteps.trans (hfn.trans harg)
  | lam ht _ ih =>
    have hbody : NormalSteps _ _ := ih (isNormal_lam.mp hu)
    exact ht.normalSteps.trans hbody.body

theorem Beta.reduces (h : Beta t u) : Reduces False t u := by
  induction h with
  | contract b a => exact .contract b a
  | fn a _ ih => exact .fn a ih
  | arg f _ ih => exact .arg f ih
  | body _ ih => exact .body ih

/-- **Normal order reaches every normal form** that contractions reach. -/
theorem normalSteps_of_beta (h : Relation.ReflTransGen Beta t u) (hu : u.IsNormal) :
    NormalSteps t u := by
  have hreduces : Relation.ReflTransGen (Reduces False) t u :=
    h.lift id fun _ _ hstep => hstep.reduces
  exact (standard_of_reduces hreduces).normalSteps hu

end Nameless

/-! ### Faithful runs -/

section Faithful

variable {strategy : Strategy} {t : Term}

/-- How the first term was reached says nothing about the steps. -/
theorem isFaithful_runFrom_iff {step : Term → Option Step} (budget : Nat)
    (label label' : Label) :
    Trace.IsFaithful (runFrom step budget label t) ↔
      Trace.IsFaithful (runFrom step budget label' t) := by
  cases budget <;> rw [runFrom, runFrom] <;> split <;> simp [Trace.IsFaithful]

/-- **The runs from a term are faithful** if its step is and the runs from the next term
are. -/
theorem forall_isFaithful_run_iff : (∀ budget, (strategy.run budget t).IsFaithful) ↔
    ∀ s, strategy.step t = some s →
      s.IsFaithful ∧ ∀ budget, (strategy.run budget s.next).IsFaithful := by
  have hcons : ∀ budget s, strategy.step t = some s →
      ((strategy.run (budget + 1) t).IsFaithful ↔
        s.IsFaithful ∧ (strategy.run budget s.next).IsFaithful) := by
    intro budget s hs
    rw [Strategy.run, Strategy.run, runFrom, hs,
      isFaithful_runFrom_iff budget .start s.event.label]
    simp [Trace.IsFaithful]
  constructor
  · intro h s hs
    exact ⟨((hcons 0 s hs).mp (h 1)).1, fun budget => ((hcons budget s hs).mp (h _)).2⟩
  · intro h budget
    cases hs : strategy.step t with
    | none =>
      cases budget <;> rw [Strategy.run, runFrom, hs] <;> simp [Trace.IsFaithful]
    | some s =>
      cases budget with
      | zero =>
        rw [Strategy.run, runFrom, hs]
        simp [Trace.IsFaithful]
      | succ budget => exact (hcons budget s hs).mpr ⟨(h s hs).1, (h s hs).2 budget⟩

end Faithful

namespace Term

/-! ### The strategy follows the machine -/

/-- **A faithful step of normal order** from a term without macros is the machine's. -/
theorem normalStep_of_stepNormal {t : Term} {s : Step} (ht : t.references = [])
    (hs : t.stepNormal = some s) (hfaithful : s.IsFaithful) (scope : List String) :
    NormalStep (t.namelessIn scope) (s.next.namelessIn scope) := by
  induction t generalizing s scope with
  | app f a ihf iha =>
    obtain ⟨hf, ha⟩ := references_app.mp ht
    simp only [stepNormal, Option.orElse_eq_some, Option.map_eq_some_iff,
      Option.map_eq_none_iff] at hs
    rcases hs with hs | ⟨-, hs | ⟨hc, ⟨r, hr, rfl⟩ | ⟨hfn, hs | ⟨-, r, hr, rfl⟩⟩⟩⟩
    · -- there is no reference to expand, neither here nor in the argument
      obtain ⟨n, e, rfl, -⟩ := expandFn_eq_some.mp hs
      exact absurd hf (List.cons_ne_nil n [])
    · obtain ⟨x, b, rfl, rfl⟩ := contractAt_eq_some.mp hs
      have hbody : Faithful b a x := hfaithful
      have hnext : (contract x b a).next.namelessIn scope =
          (b.namelessIn (x :: scope)).instantiate (a.namelessIn scope) :=
        hbody.namelessIn_substitute scope
      rw [hnext]
      exact .contract _ _
    · exact .fn _ (namelessIn_ne_lam hc scope) (ihf hf hr hfaithful scope)
    · obtain ⟨n, g, k, rfl, -⟩ := expandArg_eq_some.mp hs
      exact absurd ha (List.cons_ne_nil n [])
    · exact .arg (namelessIn_ne_lam hc scope) (isNormal_of_stepNormal hfn scope)
        (iha ha hr hfaithful scope)
  | abs x b ih =>
    obtain ⟨r, hr, rfl⟩ := Option.map_eq_some_iff.mp hs
    exact .body (ih ht hr hfaithful (x :: scope))
  | _ => simp [stepNormal] at hs

/-- **Normal order finds every normal form.** Let the steps of normal order from a term
without macros be faithful; this is so where the new name of every binder renamed is neither
free in its body nor the variable substituted for. If contractions lead from the term to a
normal form, in whatever order, then within some budget the run in normal order ends, and
with that normal form. -/
theorem normal_ends_of_beta {t : Term} (ht : t.references = [])
    (hfaithful : ∀ budget, (Strategy.normal.run budget t).IsFaithful) {u : Nameless}
    (hred : Relation.ReflTransGen Beta t.nameless u) (hu : u.IsNormal) :
    ∃ budget n, (Strategy.normal.run budget t).timedOut = false ∧
      (Strategy.normal.run budget t).normalForm? = some n ∧ n.nameless = u := by
  let Inv : Term → Prop := fun t =>
    t.references = [] ∧ ∀ budget, (Strategy.normal.run budget t).IsFaithful
  have hsound : ∀ t s, Inv t → Strategy.normal.step t = some s →
      NormalStep t.nameless s.next.nameless := by
    intro t s h hs
    obtain ⟨hstep, -⟩ := forall_isFaithful_run_iff.mp h.2 s hs
    exact normalStep_of_stepNormal h.1 hs hstep []
  have hstuck : ∀ t, Inv t → Strategy.normal.step t = none → ∀ u, ¬NormalStep t.nameless u := by
    intro t _ hs u hstep
    exact isNormal_of_stepNormal hs [] u hstep.beta
  have hinv : ∀ t s, Inv t → Strategy.normal.step t = some s → Inv s.next := by
    intro t s h hs
    obtain ⟨-, hnext⟩ := forall_isFaithful_run_iff.mp h.2 s hs
    exact ⟨hereditary_references.next (admits_of_step hs) h.1, hnext⟩
  have hend : ∀ v, ¬NormalStep u v := fun v hstep => hu v hstep.beta
  obtain ⟨budget, n, hn, hnu⟩ := exists_normalForm?_of_reflTransGen (R := NormalStep)
    (fun _ _ _ => NormalStep.det) hsound hstuck hinv ⟨ht, hfaithful⟩
    (normalSteps_of_beta hred hu) hend .start
  exact ⟨budget, n, timedOut_eq_false_iff.mpr ⟨n, hn⟩, hn, hnu⟩

/-- A term that has no normal form. -/
def selfApplication : Term :=
  .app (.abs "x" (.app (.var "x") (.var "x"))) (.abs "x" (.app (.var "x") (.var "x")))

/-- A loop that is thrown away, and then a redex at which a binder is renamed. -/
def discardedLoop : Term :=
  .app (.abs "z" renamingRedex) selfApplication

theorem normal_ends_of_beta_discardedLoop :
    let u : Nameless := .lam (.lam (.app (.bound 1) (.bound 0)))
    discardedLoop.references = [] ∧
      (∀ budget, (Strategy.normal.run budget discardedLoop).IsFaithful) ∧
      Relation.ReflTransGen Beta discardedLoop.nameless u ∧ u.IsNormal ∧
      ∃ budget n, (Strategy.normal.run budget discardedLoop).timedOut = false ∧
        (Strategy.normal.run budget discardedLoop).normalForm? = some n ∧ n.nameless = u := by
  intro u
  have hrefs : discardedLoop.references = [] := by decide
  -- nothing is renamed in the first step, the new name of the second one is harmless, and
  -- there is no third one
  have hfaithful : ∀ budget, (Strategy.normal.run budget discardedLoop).IsFaithful := by
    refine forall_isFaithful_run_iff.mpr fun s hs => ?_
    obtain rfl : contract "z" renamingRedex selfApplication = s := Option.some.inj hs
    refine ⟨.of_isClosed (by decide) _ _, ?_⟩
    have hnext : (contract "z" renamingRedex selfApplication).next = renamingRedex := by
      decide +kernel
    rw [hnext]
    refine forall_isFaithful_run_iff.mpr fun s hs => ?_
    obtain rfl : (contract "x" (.abs "y" (.app (.var "x") (.var "y"))) (.var "y")).inBody "y" =
      s := Option.some.inj hs
    refine ⟨(faithful_iff []).mpr (by decide +kernel), ?_⟩
    refine forall_isFaithful_run_iff.mpr fun s hs => ?_
    have hstuck : Strategy.normal.step ((contract "x" (.abs "y" (.app (.var "x") (.var "y")))
        (.var "y")).inBody "y").next = none := by
      decide +kernel
    rw [hstuck] at hs
    cases hs
  have hred : Relation.ReflTransGen Beta discardedLoop.nameless u := by
    have hfirst : Beta discardedLoop.nameless renamingRedex.nameless := .contract _ _
    have hsecond : Beta renamingRedex.nameless u := .body (.contract _ _)
    exact .head hfirst (.single hsecond)
  have hu : u.IsNormal := by
    refine isNormal_lam.mpr (isNormal_lam.mpr (isNormal_app.mpr ⟨fun b hb => ?_, ?_, ?_⟩))
    · cases hb
    · exact fun _ => not_beta_bound 1
    · exact fun _ => not_beta_bound 0
  exact ⟨hrefs, hfaithful, hred, hu, normal_ends_of_beta hrefs hfaithful hred hu⟩

end Term

end LambdaTrace
