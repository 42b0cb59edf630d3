import LambdaTrace.Proofs.Reduction.Transparent

/-!
# The head part of normal order

Call by name looks into the function of an application before it looks at the application;
normal order looks at the application first, and goes on into arguments and bodies. They agree
nevertheless, since the two alternatives exclude each other: a function with a step is an
application, so it can be neither contracted with its argument nor expanded. What tells the two
strategies apart is only how far they go. A step is at the **head** if the way to its place goes
down functions alone (`LambdaTrace.Step.isAtHead`), and call by name takes the step of normal
order if it is at the head, and no step otherwise (`LambdaTrace.Term.stepName_eq_some_iff`).

So the run of call by name is the beginning of the run of normal order, up to the first step that
leaves the head (`LambdaTrace.Term.cbn_headOf_normal`). It ends at what call by name takes for a
value: an abstraction, a reference, or a variable with arguments
(`LambdaTrace.Term.isHeadNormal`). Nothing is asked of the names in the term, nor of what its
references stand for.
-/

namespace LambdaTrace

open Step

/-- Whether the way to the place of a step goes down functions only. -/
def Step.isAtHead (s : Step) : Bool :=
  s.path.all (· = .left)

/-- The step that was taken, if one was. -/
def Outcome.step? : Outcome → Option Step
  | .stepped s => some s
  | .finished => none
  | .timedOut => none

/-- The steps of a run, one after the other. -/
def Trace.steps (trace : Trace) : List Step :=
  trace.filterMap (·.outcome.step?)

namespace Term

variable {t f a : Term} {s : Step}

/-! ### The values of call by name -/

/-- Whether a term is a variable with arguments, of which there may be none. -/
def isNeutral : Term → Bool
  | .var _ => true
  | .app f _ => f.isNeutral
  | _ => false

/-- **The values of call by name**: abstractions, references, and variables with arguments. -/
def isHeadNormal (t : Term) : Bool :=
  t.isAbs || t.isRef || t.isNeutral

/-- **Call by name is stuck at its values**, and nowhere else. -/
theorem stepName_eq_none_iff_isHeadNormal : t.stepName = none ↔ t.isHeadNormal = true := by
  induction t with
  | app f a ihf _ =>
    rw [stepName, Option.orElse_eq_none, Option.orElse_eq_none, Option.map_eq_none_iff, ihf]
    cases f <;> simp [expandFn, contractAt, isHeadNormal, isAbs, isRef, isNeutral]
  | _ => simp [stepName, isHeadNormal, isAbs, isRef, isNeutral]

/-! ### Steps at the head -/

theorem isAtHead_inFn : (s.inFn a).isAtHead = s.isAtHead := by
  simp [isAtHead, inFn]

theorem isAtHead_inArg : (s.inArg f).isAtHead = false := by
  simp [isAtHead, inArg]

theorem isAtHead_inBody (x : String) : (s.inBody x).isAtHead = false := by
  simp [isAtHead, inBody]

/-- A function with a step can be neither expanded nor contracted with its argument. -/
theorem not_redex_of_stepName (h : f.stepName = some s) (a : Term) :
    expandFn f a = none ∧ contractAt f a = none := by
  cases f with
  | app g b => exact ⟨rfl, rfl⟩
  | _ => cases h

/-- **Call by name takes the step of normal order** if it is at the head. -/
theorem stepName_eq_some_iff :
    t.stepName = some s ↔ t.stepNormal = some s ∧ s.isAtHead = true := by
  induction t generalizing s with
  | app f a ihf _ =>
    constructor
    · intro h
      rcases stepName_app_cases h with ⟨r, hr, rfl⟩ | ⟨n, e, rfl, rfl⟩ | ⟨x, b, rfl, rfl⟩
      · obtain ⟨hnormal, hhead⟩ := ihf.mp hr
        obtain ⟨hexpand, hcontract⟩ := not_redex_of_stepName hr a
        refine ⟨?_, isAtHead_inFn.trans hhead⟩
        rw [stepNormal, hexpand, hcontract, hnormal]
        rfl
      · exact ⟨rfl, rfl⟩
      · exact ⟨rfl, rfl⟩
    · rintro ⟨h, hhead⟩
      simp only [stepNormal, Option.orElse_eq_some, Option.map_eq_some_iff] at h
      rcases h with h | ⟨hexpand, h | ⟨hcontract, ⟨r, hr, rfl⟩ | ⟨-, h | ⟨-, r, -, rfl⟩⟩⟩⟩
      · obtain ⟨n, e, rfl, rfl⟩ := expandFn_eq_some.mp h
        rfl
      · obtain ⟨x, b, rfl, rfl⟩ := contractAt_eq_some.mp h
        rfl
      · rw [isAtHead_inFn] at hhead
        rw [stepName, ihf.mpr ⟨hr, hhead⟩]
        rfl
      · obtain ⟨n, g, k, -, rfl⟩ := expandArg_eq_some.mp h
        rw [isAtHead_inArg] at hhead
        cases hhead
      · rw [isAtHead_inArg] at hhead
        cases hhead
  | abs x b _ =>
    refine iff_of_false (by simp [stepName]) ?_
    rintro ⟨h, hhead⟩
    obtain ⟨r, -, rfl⟩ := Option.map_eq_some_iff.mp h
    rw [isAtHead_inBody] at hhead
    cases hhead
  | _ => simp [stepName, stepNormal]

end Term

/-! ### Runs that begin alike -/

section Runs

variable {step step' : Term → Option Step} {t n : Term} {s : Step} {budget : Nat} {label : Label}

theorem steps_runFrom_zero (step : Term → Option Step) (label : Label) (t : Term) :
    (runFrom step 0 label t).steps = [] := by
  rw [runFrom]
  split <;> rfl

theorem steps_runFrom_of_stuck (h : step t = none) (budget : Nat) (label : Label) :
    (runFrom step budget label t).steps = [] := by
  rw [runFrom_of_stuck h]
  rfl

theorem steps_runFrom_succ (h : step t = some s) (budget : Nat) (label : Label) :
    (runFrom step (budget + 1) label t).steps =
      s :: (runFrom step budget s.event.label s.next).steps := by
  rw [runFrom, h]
  rfl

/-- **A strategy that stops earlier** takes the steps of the other one, as long as they are
those that it takes. -/
theorem steps_runFrom_eq_takeWhile {keep : Step → Bool}
    (h : ∀ t s, step t = some s ↔ step' t = some s ∧ keep s = true) (budget : Nat) (label : Label)
    (t : Term) : (runFrom step budget label t).steps =
      (runFrom step' budget label t).steps.takeWhile keep := by
  induction budget generalizing label t with
  | zero => rw [steps_runFrom_zero, steps_runFrom_zero, List.takeWhile_nil]
  | succ budget ih =>
    cases hs : step t with
    | some s =>
      obtain ⟨hs', hkeep⟩ := (h t s).mp hs
      rw [steps_runFrom_succ hs, steps_runFrom_succ hs', List.takeWhile_cons_of_pos hkeep, ih]
    | none =>
      rw [steps_runFrom_of_stuck hs]
      cases hs' : step' t with
      | none => rw [steps_runFrom_of_stuck hs', List.takeWhile_nil]
      | some s =>
        -- the other strategy goes on here, with a step that this one does not take
        have hkeep : ¬keep s = true := by
          intro hkeep
          rw [(h t s).mpr ⟨hs', hkeep⟩] at hs
          cases hs
        rw [steps_runFrom_succ hs', List.takeWhile_cons_of_neg hkeep]

/-- Its run shows what the other run shows at the beginning. -/
theorem shown_runFrom_prefix (h : ∀ t s, step t = some s → step' t = some s) (budget : Nat)
    (label : Label) (t : Term) :
    (runFrom step budget label t).shown <+: (runFrom step' budget label t).shown := by
  induction budget generalizing label t with
  | zero =>
    rw [runFrom, runFrom]
    split <;> split <;> exact List.prefix_rfl
  | succ budget ih =>
    cases hs : step t with
    | none =>
      obtain ⟨o, rest, heq⟩ := exists_cons_runFrom step' (budget + 1) label t
      rw [runFrom_of_stuck hs, heq]
      exact List.prefix_append [(label, t)] _
    | some s =>
      rw [runFrom, runFrom, hs, h t s hs]
      exact (List.prefix_cons_inj (label, t)).mpr (ih s.event.label s.next)

/-- It ends within every budget within which the other one ends. -/
theorem exists_normalForm?_of_takes (h : ∀ t s, step t = some s → step' t = some s)
    (hn : (runFrom step' budget label t).normalForm? = some n) :
    ∃ v, (runFrom step budget label t).normalForm? = some v := by
  induction budget generalizing label t with
  | zero =>
    cases hs : step t with
    | none => exact ⟨t, normalForm?_of_stuck hs 0 label⟩
    | some s =>
      rw [runFrom, h t s hs] at hn
      cases hn
  | succ budget ih =>
    cases hs : step t with
    | none => exact ⟨t, normalForm?_of_stuck hs _ label⟩
    | some s =>
      rw [normalForm?_runFrom_succ (h t s hs)] at hn
      rw [normalForm?_runFrom_succ hs]
      exact ih hn

end Runs

/-- **One strategy is the head part of another** from a term: it takes the steps of the other
that are at the head, and its run is that of the other as far as these go, within the same
budget. If the run of the other reports a normal form, its own reports a value. -/
structure Strategy.HeadOf (strategy strategy' : Strategy) (t : Term) : Prop where
  step : ∀ s, strategy.step t = some s ↔ strategy'.step t = some s ∧ s.isAtHead = true
  shown : ∀ budget, (strategy.run budget t).shown <+: (strategy'.run budget t).shown
  steps : ∀ budget, (strategy.run budget t).steps <+: (strategy'.run budget t).steps
  steps_eq : ∀ budget,
    (strategy.run budget t).steps = (strategy'.run budget t).steps.takeWhile Step.isAtHead
  ends : ∀ budget, (strategy'.run budget t).timedOut = false →
    ∃ v, (strategy.run budget t).normalForm? = some v ∧ v.isHeadNormal = true

namespace Term

/-- **Call by name is the head part of normal order**, from every term. -/
theorem cbn_headOf_normal (t : Term) : Strategy.cbn.HeadOf .normal t := by
  have hstep : ∀ t s, Strategy.cbn.step t = some s ↔
      Strategy.normal.step t = some s ∧ s.isAtHead = true := fun _ _ => stepName_eq_some_iff
  have htakes : ∀ t s, Strategy.cbn.step t = some s → Strategy.normal.step t = some s :=
    fun t s hs => ((hstep t s).mp hs).1
  have hsteps : ∀ budget, (Strategy.cbn.run budget t).steps =
      (Strategy.normal.run budget t).steps.takeWhile Step.isAtHead :=
    fun budget => steps_runFrom_eq_takeWhile hstep budget .start t
  refine ⟨hstep t, fun budget => shown_runFrom_prefix htakes budget .start t, fun budget => ?_,
    hsteps, fun budget hend => ?_⟩
  · rw [hsteps]
    exact List.takeWhile_prefix _
  · obtain ⟨n, hn⟩ := timedOut_eq_false_iff.mp hend
    obtain ⟨v, hv⟩ := exists_normalForm?_of_takes htakes hn
    exact ⟨v, hv, stepName_eq_none_iff_isHeadNormal.mp (step_eq_none_of_normalForm? hv)⟩

/-- A reference to an open term, applied to a redex. -/
def openHead : Term :=
  .app (.ref "F" (.abs "x" (.app (.var "y") (.var "x"))))
    (.app (.abs "z" (.var "z")) (.var "w"))

/-- The head comes to be a variable after two steps, and normal order takes one more, in the
argument. -/
theorem cbn_headOf_normal_openHead :
    (Strategy.normal.run 3 openHead).timedOut = false ∧
      (Strategy.normal.run 3 openHead).steps.map Step.path = [[.left], [], [.right]] ∧
      (Strategy.cbn.run 3 openHead).steps.map Step.path = [[.left], []] ∧
      (Strategy.cbn.run 3 openHead).steps <+: (Strategy.normal.run 3 openHead).steps ∧
      ∃ v, (Strategy.cbn.run 3 openHead).normalForm? = some v ∧ v.isHeadNormal = true := by
  have hhead : Strategy.cbn.HeadOf .normal openHead := cbn_headOf_normal openHead
  have hend : (Strategy.normal.run 3 openHead).timedOut = false := by decide +kernel
  exact ⟨hend, by decide +kernel, by decide +kernel, hhead.steps 3, hhead.ends 3 hend⟩

end Term

end LambdaTrace
