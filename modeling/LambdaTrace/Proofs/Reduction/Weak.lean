import LambdaTrace.Proofs.Reduction.Runs
import LambdaTrace.Proofs.Substitution.Faithful

/-!
# Weak reduction of closed terms

Call by value and call by name never go under a binder. On a closed term they
therefore only ever insert closed terms, for which no binder has to be renamed, and
everything that can go wrong with names does not happen: the two strategies are the
textbook machines on terms without names, with macro references as constants
(`LambdaTrace.Term.weak_follows`).

The machines are `LambdaTrace.Nameless.ValueStep` and
`LambdaTrace.Nameless.NameStep`. A constant is unfolded at the head of an application;
call by value also unfolds an argument that stands for an application, since that is
no value. The invariant of the runs is that the term is closed and so is what its
references stand for. With it a strategy is stuck at no application
(`LambdaTrace.Term.stepValue_eq_none_iff`, `LambdaTrace.Term.stepName_eq_none_iff`),
which is what makes its order of trying the machine's; so the runs of closed terms end at
abstractions and references only (`LambdaTrace.Term.weak_progress`).
-/

namespace LambdaTrace

open Nameless Step

namespace Nameless

/-! ### The machines -/

/-- **The values** of call by value: abstractions, and constants that do not stand for
an application. -/
inductive IsValue : Nameless → Prop
  | lam (b : Nameless) : IsValue (.lam b)
  | const (n : String) {e : Nameless} : e.isApp = false → IsValue (.const n e)

/-- **The machine of call by value**: the function, then the argument, then the
contraction. -/
inductive ValueStep : Nameless → Nameless → Prop
  | beta (b : Nameless) {v : Nameless} : IsValue v → ValueStep (.app (.lam b) v) (b.instantiate v)
  | fn {f g : Nameless} (a : Nameless) : ValueStep f g → ValueStep (.app f a) (.app g a)
  | arg (b : Nameless) {a c : Nameless} :
    ValueStep a c → ValueStep (.app (.lam b) a) (.app (.lam b) c)
  | unfoldFn (n : String) (e a : Nameless) : ValueStep (.app (.const n e) a) (.app e a)
  | unfoldArg (b : Nameless) (n : String) {e : Nameless} : e.isApp = true →
    ValueStep (.app (.lam b) (.const n e)) (.app (.lam b) e)

/-- **The machine of call by name**: the function, then the contraction. -/
inductive NameStep : Nameless → Nameless → Prop
  | beta (b a : Nameless) : NameStep (.app (.lam b) a) (b.instantiate a)
  | fn {f g : Nameless} (a : Nameless) : NameStep f g → NameStep (.app f a) (.app g a)
  | unfoldFn (n : String) (e a : Nameless) : NameStep (.app (.const n e) a) (.app e a)

/-! ### The machines have no choice -/

section Determinism

variable {t u v : Nameless}

theorem ValueStep.isApp (h : ValueStep t u) : t.isApp = true := by
  cases h <;> rfl

theorem NameStep.isApp (h : NameStep t u) : t.isApp = true := by
  cases h <;> rfl

theorem IsValue.isApp (h : IsValue t) : t.isApp = false := by
  cases h <;> rfl

theorem IsValue.not_valueStep (h : IsValue t) : ¬ValueStep t u := by
  intro hstep
  exact absurd hstep.isApp (by simp [h.isApp])

/-- Call by value has one step at most. -/
theorem ValueStep.det (h : ValueStep t u) (h' : ValueStep t v) : u = v := by
  induction h generalizing v with
  | beta b hv =>
    cases h' with
    | beta => rfl
    | fn _ hf => cases hf
    | arg _ ha => exact absurd ha hv.not_valueStep
    | unfoldArg _ n he => exact absurd he (by cases hv; simp_all)
  | fn a hf ih =>
    cases h' with
    | beta => cases hf
    | fn _ hf' => rw [ih hf']
    | arg => cases hf
    | unfoldFn => cases hf
    | unfoldArg => cases hf
  | arg b ha ih =>
    cases h' with
    | beta _ hv => exact absurd ha hv.not_valueStep
    | fn _ hf => cases hf
    | arg _ ha' => rw [ih ha']
    | unfoldArg => cases ha
  | unfoldFn n e a =>
    cases h' with
    | fn _ hf => cases hf
    | unfoldFn => rfl
  | unfoldArg b n he =>
    cases h' with
    | beta _ hv => exact absurd he (by cases hv; simp_all)
    | fn _ hf => cases hf
    | arg _ ha => cases ha
    | unfoldArg => rfl

/-- Call by name has one step at most. -/
theorem NameStep.det (h : NameStep t u) (h' : NameStep t v) : u = v := by
  induction h generalizing v with
  | beta b a =>
    cases h' with
    | beta => rfl
    | fn _ hf => cases hf
  | fn a hf ih =>
    cases h' with
    | beta => cases hf
    | fn _ hf' => rw [ih hf']
    | unfoldFn => cases hf
  | unfoldFn n e a =>
    cases h' with
    | fn _ hf => cases hf
    | unfoldFn => rfl

end Determinism

end Nameless

namespace Term

/-! ### Only values are stuck -/

theorem isApp_nameless (t : Term) : t.nameless.isApp = t.isApp := by
  cases t <;> rfl

/-- A closed function without a step, at which no reference is expanded, is an
abstraction. -/
theorem exists_abs_of_stuck {f a : Term} (h : f.isClosed = true) (hf : f.isApp = false)
    (hfn : expandFn f a = none) : ∃ x b, f = .abs x b := by
  cases f with
  | var x => exact absurd h (not_isClosed_var x)
  | app g b => simp [isApp] at hf
  | abs x b => exact ⟨x, b, rfl⟩
  | ref n t => simp [expandFn] at hfn

/-- **Call by value is stuck at no closed application.** -/
theorem stepValue_eq_none_iff {t : Term} (h : t.isClosed = true) :
    t.stepValue = none ↔ t.isApp = false := by
  induction t with
  | app f a ihf iha =>
    rw [isClosed_app] at h
    refine iff_of_false ?_ (by simp [isApp])
    simp only [stepValue, Option.orElse_eq_none, Option.map_eq_none_iff]
    rintro ⟨hf, hfn, -, -, hc⟩
    -- the function can only be an abstraction, and then the application is contracted
    obtain ⟨x, b, rfl⟩ := exists_abs_of_stuck h.1 ((ihf h.1).mp hf) hfn
    simp [contractAt] at hc
  | _ => simp [stepValue, isApp]

/-- **Call by name is stuck at no closed application.** -/
theorem stepName_eq_none_iff {t : Term} (h : t.isClosed = true) :
    t.stepName = none ↔ t.isApp = false := by
  induction t with
  | app f a ihf _ =>
    rw [isClosed_app] at h
    refine iff_of_false ?_ (by simp [isApp])
    simp only [stepName, Option.orElse_eq_none, Option.map_eq_none_iff]
    rintro ⟨hf, hfn, hc⟩
    obtain ⟨x, b, rfl⟩ := exists_abs_of_stuck h.1 ((ihf h.1).mp hf) hfn
    simp [contractAt] at hc
  | _ => simp [stepName, isApp]

/-! ### The strategies follow the machines -/

/-- Inserting a closed term is inserting it without names. -/
theorem nameless_contract (x : String) (b : Term) {a : Term} (ha : a.isClosed = true) :
    (contract x b a).next.nameless = (b.namelessIn [x]).instantiate a.nameless :=
  (Faithful.of_isClosed ha b x).namelessIn_substitute []

/-- A closed argument without a step, which is not expanded, is a value. -/
theorem isValue_of_stuck {f a : Term} (h : a.isClosed = true) (ha : a.isApp = false)
    (harg : expandArg f a = none) : IsValue a.nameless := by
  cases a with
  | var x => exact absurd h (not_isClosed_var x)
  | app g b => simp [isApp] at ha
  | abs x b => exact .lam _
  | ref n t =>
    refine .const n ?_
    rw [← nameless, isApp_nameless]
    cases t with
    | app g b => simp [expandArg] at harg
    | _ => rfl

/-- **What call by value does at a closed application**: it goes to the argument, or contracts,
only when the function is an abstraction. -/
theorem stepValue_app_cases {f a : Term} {s : Step} (hf : f.isClosed = true)
    (ha : a.isClosed = true) (hs : (app f a).stepValue = some s) :
    (∃ r, f.stepValue = some r ∧ s = r.inFn a) ∨
      (∃ n e, f = .ref n e ∧ s = (expand n e).inFn a) ∨
      ∃ x b, f = .abs x b ∧
        ((∃ n g h, a = .ref n (.app g h) ∧ s = (expand n (.app g h)).inArg f) ∨
          (∃ r, a.stepValue = some r ∧ s = r.inArg f) ∨
          (a.isApp = false ∧ expandArg f a = none ∧ s = contract x b a)) := by
  simp only [stepValue, Option.orElse_eq_some, Option.map_eq_some_iff, Option.map_eq_none_iff]
    at hs
  rcases hs with ⟨r, hr, rfl⟩ | ⟨hfstuck, hs⟩
  · exact Or.inl ⟨r, hr, rfl⟩
  rcases hs with hs | ⟨hfn, hs⟩
  · exact Or.inr (Or.inl (expandFn_eq_some.mp hs))
  refine Or.inr (Or.inr ?_)
  obtain ⟨x, b, rfl⟩ := exists_abs_of_stuck hf ((stepValue_eq_none_iff hf).mp hfstuck) hfn
  refine ⟨x, b, rfl, ?_⟩
  rcases hs with hs | ⟨harg, ⟨r, hr, rfl⟩ | ⟨hastuck, hs⟩⟩
  · exact Or.inl (expandArg_eq_some.mp hs)
  · exact Or.inr (Or.inl ⟨r, hr, rfl⟩)
  · exact Or.inr (Or.inr ⟨(stepValue_eq_none_iff ha).mp hastuck, harg, (Option.some.inj hs).symm⟩)

/-- **What call by name does at an application.** -/
theorem stepName_app_cases {f a : Term} {s : Step} (hs : (app f a).stepName = some s) :
    (∃ r, f.stepName = some r ∧ s = r.inFn a) ∨
      (∃ n e, f = .ref n e ∧ s = (expand n e).inFn a) ∨
      ∃ x b, f = .abs x b ∧ s = contract x b a := by
  simp only [stepName, Option.orElse_eq_some, Option.map_eq_some_iff] at hs
  rcases hs with ⟨r, hr, rfl⟩ | ⟨-, hs | ⟨-, hs⟩⟩
  · exact Or.inl ⟨r, hr, rfl⟩
  · exact Or.inr (Or.inl (expandFn_eq_some.mp hs))
  · exact Or.inr (Or.inr (contractAt_eq_some.mp hs))

/-- **A step of call by value** from a closed term is a step of the machine. -/
theorem valueStep_of_stepValue {t : Term} {s : Step} (h : t.isClosed = true)
    (hs : t.stepValue = some s) : ValueStep t.nameless s.next.nameless := by
  induction t generalizing s with
  | app f a ihf iha =>
    rw [isClosed_app] at h
    rcases stepValue_app_cases h.1 h.2 hs with ⟨r, hr, rfl⟩ | ⟨n, e, rfl, rfl⟩ |
      ⟨x, b, rfl, ⟨n, g, c, rfl, rfl⟩ | ⟨r, hr, rfl⟩ | ⟨happ, harg, rfl⟩⟩
    · exact .fn _ (ihf h.1 hr)
    · exact .unfoldFn n _ _
    · exact .unfoldArg _ n rfl
    · exact .arg _ (iha h.2 hr)
    · rw [nameless_contract x b h.2]
      exact .beta _ (isValue_of_stuck h.2 happ harg)
  | _ => simp [stepValue] at hs

/-- **A step of call by name** from a closed term is a step of the machine. -/
theorem nameStep_of_stepName {t : Term} {s : Step} (h : t.isClosed = true)
    (hs : t.stepName = some s) : NameStep t.nameless s.next.nameless := by
  induction t generalizing s with
  | app f a ihf _ =>
    rw [isClosed_app] at h
    rcases stepName_app_cases hs with ⟨r, hr, rfl⟩ | ⟨n, e, rfl, rfl⟩ | ⟨x, b, rfl, rfl⟩
    · exact .fn _ (ihf h.1 hr)
    · exact .unfoldFn n _ _
    · rw [nameless_contract x b h.2]
      exact .beta _ _
  | _ => simp [stepName] at hs

/-- The invariant of weak runs is kept by every step. -/
theorem closed_next_of_step {strategy : Strategy} {t : Term} {s : Step}
    (h : t.isClosed = true ∧ t.refsClosed = true) (hs : strategy.step t = some s) :
    s.next.isClosed = true ∧ s.next.refsClosed = true :=
  ⟨(admits_of_step hs).isClosed_next h.2 h.1, (admits_of_step hs).refsClosed_next h.2⟩

/-- **Weak reduction of closed terms is exact**: from a closed term whose references
are closed at every depth, call by value and call by name follow their machines,
step by step and over every run. -/
theorem weak_follows {t : Term} (hclosed : t.isClosed = true)
    (hrefs : t.refsClosed = true) :
    Strategy.cbv.Follows ValueStep t ∧ Strategy.cbn.Follows NameStep t := by
  constructor
  · refine Strategy.follows_of_sound .cbv ValueStep (fun _ _ _ => ValueStep.det)
      (fun t s h => valueStep_of_stepValue h.1) (fun t h hs u hu => ?_)
      (fun t s => closed_next_of_step) ⟨hclosed, hrefs⟩
    have happ := hu.isApp
    rw [isApp_nameless, (stepValue_eq_none_iff h.1).mp hs] at happ
    exact absurd happ Bool.false_ne_true
  · refine Strategy.follows_of_sound .cbn NameStep (fun _ _ _ => NameStep.det)
      (fun t s h => nameStep_of_stepName h.1) (fun t h hs u hu => ?_)
      (fun t s => closed_next_of_step) ⟨hclosed, hrefs⟩
    have happ := hu.isApp
    rw [isApp_nameless, (stepName_eq_none_iff h.1).mp hs] at happ
    exact absurd happ Bool.false_ne_true

/-- A redex whose body hides its own variable and whose argument is a macro. -/
def shadowingRedex : Term :=
  .app (.abs "x" (.abs "x" (.var "x")))
    (.ref "I" (.app (.abs "x" (.var "x")) (.abs "x" (.var "x"))))

theorem weak_follows_shadowingRedex :
    shadowingRedex.isClosed = true ∧ shadowingRedex.refsClosed = true ∧
      Strategy.cbv.Follows ValueStep shadowingRedex ∧
      Strategy.cbn.Follows NameStep shadowingRedex :=
  ⟨by decide, by decide, weak_follows (by decide) (by decide)⟩

/-! ### Progress -/

/-- A closed term that is no application is an abstraction or a reference. -/
theorem isApp_eq_false_iff {t : Term} (h : t.isClosed = true) :
    t.isApp = false ↔ t.isAbs = true ∨ t.isRef = true := by
  cases t with
  | var x => exact absurd h (not_isClosed_var x)
  | _ => simp [isApp, isAbs, isRef]

/-- **A weak strategy is stuck at no closed application.** -/
theorem weak_step_eq_none_iff {strategy : Strategy} (hweak : strategy = .cbv ∨ strategy = .cbn)
    {t : Term} (h : t.isClosed = true) : strategy.step t = none ↔ t.isApp = false := by
  rcases hweak with rfl | rfl
  · exact stepValue_eq_none_iff h
  · exact stepName_eq_none_iff h

/-- **Weak reduction makes progress.** From a closed term whose references are closed at every
depth, call by value and call by name have a step exactly if the term is an application. So in
every run, of whatever budget, the entry at which the run is over is an abstraction or a
reference, no entry before it is either, and a run that did not spend its budget reports one
of the two. -/
theorem weak_progress {strategy : Strategy} (hweak : strategy = .cbv ∨ strategy = .cbn)
    {t : Term} (hclosed : t.isClosed = true) (hrefs : t.refsClosed = true) :
    (strategy.step t = none ↔ t.isApp = false) ∧ ∀ budget,
      (∀ e ∈ strategy.run budget t,
        e.outcome = .finished ↔ e.term.isAbs = true ∨ e.term.isRef = true) ∧
      ((strategy.run budget t).timedOut = false →
        ∃ v, (strategy.run budget t).normalForm? = some v ∧
          (v.isAbs = true ∨ v.isRef = true)) := by
  have hinv : ∀ t s, t.isClosed = true ∧ t.refsClosed = true → strategy.step t = some s →
      s.next.isClosed = true ∧ s.next.refsClosed = true := fun _ _ => closed_next_of_step
  refine ⟨weak_step_eq_none_iff hweak hclosed, fun budget => ⟨fun e he => ?_, fun hend => ?_⟩⟩
  · have hentry := forall_mem_runFrom hinv ⟨hclosed, hrefs⟩ budget .start e he
    rw [finished_iff_of_mem_runFrom he, weak_step_eq_none_iff hweak hentry.1,
      isApp_eq_false_iff hentry.1]
  · obtain ⟨v, hv⟩ := timedOut_eq_false_iff.mp hend
    have hvclosed := inv_of_normalForm? hinv ⟨hclosed, hrefs⟩ hv
    have hstuck : strategy.step v = none := step_eq_none_of_normalForm? hv
    rw [weak_step_eq_none_iff hweak hvclosed.1, isApp_eq_false_iff hvclosed.1] at hstuck
    exact ⟨v, hv, hstuck⟩

/-- A macro applied to an application, whose function is a macro and whose argument is one that
stands for an application. -/
def appliedMacro : Term :=
  .app (.ref "K" (.abs "x" (.abs "y" (.var "x"))))
    (.app (.ref "I" (.abs "z" (.var "z")))
      (.ref "A" (.app (.abs "x" (.var "x")) (.ref "I" (.abs "z" (.var "z"))))))

/-- Call by value unfolds the function, and both parts of the argument before it contracts; call
by name unfolds the function alone. -/
theorem weak_progress_appliedMacro :
    appliedMacro.isClosed = true ∧ appliedMacro.refsClosed = true ∧
      (Strategy.cbv.step appliedMacro ≠ none ∧
        (Strategy.cbv.run 6 appliedMacro).map (·.label) =
          [.start, .equals, .equals, .equals, .arrow, .arrow, .arrow] ∧
        ∃ v, (Strategy.cbv.run 6 appliedMacro).normalForm? = some v ∧
          (v.isAbs = true ∨ v.isRef = true)) ∧
      Strategy.cbn.step appliedMacro ≠ none ∧
        (Strategy.cbn.run 2 appliedMacro).map (·.label) = [.start, .equals, .arrow] ∧
        ∃ v, (Strategy.cbn.run 2 appliedMacro).normalForm? = some v ∧
          (v.isAbs = true ∨ v.isRef = true) := by
  have hclosed : appliedMacro.isClosed = true := by decide
  have hrefs : appliedMacro.refsClosed = true := by decide
  have happ : appliedMacro.isApp ≠ false := by decide
  obtain ⟨hvalue, hvalues⟩ := weak_progress (Or.inl rfl) hclosed hrefs
  obtain ⟨hname, hnames⟩ := weak_progress (Or.inr rfl) hclosed hrefs
  exact ⟨hclosed, hrefs,
    ⟨fun hnone => happ (hvalue.mp hnone), by decide +kernel, (hvalues 6).2 (by decide +kernel)⟩,
    fun hnone => happ (hname.mp hnone), by decide +kernel, (hnames 2).2 (by decide +kernel)⟩

end Term

end LambdaTrace
