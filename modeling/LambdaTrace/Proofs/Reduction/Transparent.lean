import LambdaTrace.Proofs.Reduction.Weak

/-!
# Macros are transparent to weak reduction

A reference is unfolded late, or not at all, and meanwhile it is carried around, copied and
thrown away. None of that is seen by a reader who unfolds every reference in every term of
a run: an expansion changes nothing then, and a contraction is the contraction that the same
strategy makes of the unfolded term, at the same place and with the same copies
(`LambdaTrace.Strategy.SeesThrough`). The run of the unfolded term is therefore what is left
of the run when the terms reached by expansions are dropped, as far as the budget goes.

This holds of closed terms whose references are closed at every depth
(`LambdaTrace.Term.weak_seesThrough`). Unfolding then commutes with substitution
(`LambdaTrace.Term.unfold_substitute`), since it neither frees a variable that a binder
could capture nor uncovers an occurrence of the variable substituted for.

Call by value in addition asks of an argument whether it is a value, and it answers for a
reference by looking one level deep. The answer is that for the unfolded argument unless the
reference stands for nothing but another reference (`LambdaTrace.Term.isApp_unfold_of_stuck`);
so that is excluded.
-/

namespace LambdaTrace

open Step

/-! ### Unfolding what a run shows -/

/-- An event with every reference in its terms unfolded. -/
def Event.unfold : Event → Event
  | .beta x b a copies => .beta x b.unfold a.unfold copies
  | .expansion n e => .expansion n e.unfold

/-- A step with every reference in its terms unfolded, at the same place. -/
def Step.unfold (s : Step) : Step :=
  ⟨s.next.unfold, s.path, s.event.unfold⟩

/-- How the terms of a run were reached, with the terms. -/
def Trace.shown (trace : Trace) : List (Label × Term) :=
  trace.map fun e => (e.label, e.term)

/-- What is shown of a run to a reader who unfolds every reference: an entry that was
reached by an expansion repeats the one before it, and is left out. -/
def Trace.shownUnfolded (trace : Trace) : List (Label × Term) :=
  (trace.filter (·.label != .equals)).map fun e => (e.label, e.term.unfold)

/-- **A strategy sees through the references of a term**: to unfold them before a step or
after it is the same, expansions apart, and the same is true of every run. -/
structure Strategy.SeesThrough (strategy : Strategy) (t : Term) : Prop where
  expansion : ∀ s, strategy.step t = some s → s.event.label = .equals →
    s.next.unfold = t.unfold
  contraction : ∀ s, strategy.step t = some s → s.event.label = .arrow →
    strategy.step t.unfold = some s.unfold
  run : ∀ budget,
    (strategy.run budget t).shownUnfolded <+: (strategy.run budget t.unfold).shown

theorem Event.label_unfold (e : Event) : e.unfold.label = e.label := by
  cases e <;> rfl

/-- A step is a contraction or an expansion. -/
theorem Event.label_eq_or (e : Event) : e.label = .arrow ∨ e.label = .equals := by
  cases e with
  | beta x b a copies => exact Or.inl rfl
  | expansion n t => exact Or.inr rfl

namespace Term

variable {t f a b v : Term} {s : Step} {x : String}

/-! ### Unfolding and substitution -/

theorem isRef_unfold (t : Term) : t.unfold.isRef = false := by
  induction t with
  | ref n t ih => exact ih
  | _ => rfl

/-- In an unfolded argument there is nothing to expand. -/
theorem expandArg_unfold (f a : Term) : expandArg f a.unfold = none := by
  rw [Option.eq_none_iff_forall_ne_some]
  intro s hs
  obtain ⟨n, g, k, heq, -⟩ := expandArg_eq_some.mp hs
  have href : a.unfold.isRef = false := isRef_unfold a
  rw [heq] at href
  cases href

/-- A closed term put for a variable that is not free changes nothing. -/
theorem substitute_of_notMem (hv : v.isClosed = true) (hx : x ∉ b.freeVars) :
    substitute b v x = (b, []) := by
  induction b with
  | var y =>
    have hyx : y ≠ x := by
      rintro rfl
      exact hx (List.mem_singleton_self y)
    rw [substitute_var, if_neg hyx]
  | app f a ihf iha =>
    rw [mem_freeVars_app, not_or] at hx
    rw [substitute_app, ihf hx.1, iha hx.2]
    rfl
  | abs y b ih =>
    by_cases hyx : y = x
    · rw [hyx, substitute_shadowed]
    · have hxb : x ∉ b.freeVars := fun h => hx (mem_freeVars_abs.mpr ⟨h, Ne.symm hyx⟩)
      rw [substitute_kept hyx (isClosed_iff.mp hv y), ih hxb]
      rfl
  | ref n t => rw [substitute_ref]

/-- **Unfolding commutes with substitution**, and the copies are at the same positions. -/
theorem unfold_substitute (hb : b.refsClosed = true) (hv : v.isClosed = true)
    (hvrefs : v.refsClosed = true) :
    substitute b.unfold v.unfold x = ((substitute b v x).1.unfold, (substitute b v x).2) := by
  have hv' : v.unfold.isClosed = true := isClosed_unfold hvrefs hv
  induction b with
  | var y =>
    rw [unfold, substitute_var, substitute_var]
    by_cases hyx : y = x
    · rw [if_pos hyx, if_pos hyx]
    · rw [if_neg hyx, if_neg hyx, unfold]
  | app f a ihf iha =>
    rw [refsClosed_app] at hb
    rw [unfold, substitute_app, substitute_app, ihf hb.1, iha hb.2, unfold]
  | abs y b ih =>
    rw [refsClosed_abs] at hb
    by_cases hyx : y = x
    · rw [unfold, hyx, substitute_shadowed, substitute_shadowed, unfold]
    · -- neither inserted term has a free variable, so no binder is renamed
      rw [unfold, substitute_kept hyx (isClosed_iff.mp hv y),
        substitute_kept hyx (isClosed_iff.mp hv' y), ih hb, unfold]
  | ref n t =>
    rw [refsClosed_ref] at hb
    have hx : x ∉ t.unfold.freeVars := isClosed_iff.mp (isClosed_unfold hb.2 hb.1) x
    rw [unfold, substitute_of_notMem hv' hx, substitute_ref, unfold]

/-- A contraction, seen with all references unfolded. -/
theorem unfold_contract (hb : b.refsClosed = true) (ha : a.isClosed = true)
    (harefs : a.refsClosed = true) :
    (contract x b a).unfold = contract x b.unfold a.unfold := by
  have hsubst := unfold_substitute (x := x) hb ha harefs
  simp only [contract, Step.unfold, Event.unfold, hsubst]

/-! ### Single steps -/

/-- **An expansion is not seen** when all references are unfolded. -/
theorem Admits.unfold_next (h : Admits t s) (he : s.event.label = .equals) :
    s.next.unfold = t.unfold := by
  induction h with
  | contract x b a => cases he
  | expandFn n t a => rfl
  | expandArg f n g h => rfl
  | fn a _ ih => exact congrArg (Term.app · a.unfold) (ih he)
  | arg f _ ih => exact congrArg (Term.app f.unfold) (ih he)
  | body x _ ih => exact congrArg (Term.abs x) (ih he)

/-- An argument that call by value takes for a value is no application when it is unfolded. -/
theorem isApp_unfold_of_stuck (h : a.Sound fun _ e => e.isRef = false)
    (ha : a.isApp = false) (harg : expandArg f a = none) : a.unfold.isApp = false := by
  cases a with
  | ref n t =>
    obtain ⟨hclosed, -⟩ := refsClosed_ref.mp h.refsClosed
    obtain ⟨hbare, -⟩ := h.carries
    cases t with
    | var y => exact absurd hclosed (not_isClosed_var y)
    | app g b => simp [expandArg] at harg
    | abs y b => rfl
    | ref m e => cases hbare
  | app g b => cases ha
  | _ => rfl

/-- **A contraction of call by name** is the one that it makes of the unfolded term. -/
theorem stepName_unfold (hclosed : t.isClosed = true) (hrefs : t.refsClosed = true)
    (hs : t.stepName = some s) (he : s.event.label = .arrow) :
    t.unfold.stepName = some s.unfold := by
  induction t generalizing s with
  | app f a ihf _ =>
    rw [isClosed_app] at hclosed
    rw [refsClosed_app] at hrefs
    rcases stepName_app_cases hs with ⟨r, hr, rfl⟩ | ⟨n, e, rfl, rfl⟩ | ⟨x, b, rfl, rfl⟩
    · have hfn : f.unfold.stepName = some r.unfold := ihf hclosed.1 hrefs.1 hr he
      rw [unfold, stepName, hfn]
      rfl
    · cases he
    · rw [unfold_contract (refsClosed_abs.mp hrefs.1) hclosed.2 hrefs.2]
      rfl
  | _ => simp [stepName] at hs

/-- **A contraction of call by value** is the one that it makes of the unfolded term. -/
theorem stepValue_unfold (h : t.Sound fun _ e => e.isRef = false)
    (hs : t.stepValue = some s) (he : s.event.label = .arrow) :
    t.unfold.stepValue = some s.unfold := by
  induction t generalizing s with
  | app f a ihf iha =>
    obtain ⟨hf, ha⟩ := sound_app.mp h
    -- what call by value does when the function is an abstraction, folded or not
    have habs : ∀ x b, (app (abs x b) a).unfold.stepValue =
        (a.unfold.stepValue.map (·.inArg (abs x b).unfold) <|>
          some (contract x b.unfold a.unfold)) := by
      intro x b
      rw [unfold, unfold, stepValue, expandArg_unfold]
      rfl
    rcases stepValue_app_cases hf.closed ha.closed hs with ⟨r, hr, rfl⟩ | ⟨n, e, rfl, rfl⟩ |
      ⟨x, b, rfl, ⟨n, g, c, rfl, rfl⟩ | ⟨r, hr, rfl⟩ | ⟨happ, harg, rfl⟩⟩
    · have hfn : f.unfold.stepValue = some r.unfold := ihf hf hr he
      rw [unfold, stepValue, hfn]
      rfl
    · cases he
    · cases he
    · have hstep : a.unfold.stepValue = some r.unfold := iha ha hr he
      rw [habs, hstep]
      rfl
    · have hstuck : a.unfold.stepValue = none :=
        (stepValue_eq_none_iff (isClosed_unfold ha.refsClosed ha.closed)).mpr
          (isApp_unfold_of_stuck ha happ harg)
      rw [habs, hstuck,
        unfold_contract (refsClosed_abs.mp hf.refsClosed) ha.closed ha.refsClosed]
      rfl
  | _ => simp [stepValue] at hs

end Term

/-! ### Runs -/

section Runs

variable {strategy : Strategy} {Inv : Term → Prop} {t : Term}

theorem Trace.shownUnfolded_cons_equals (t : Term) (o : Outcome) (trace : Trace) :
    Trace.shownUnfolded (⟨.equals, t, o⟩ :: trace) = trace.shownUnfolded :=
  rfl

theorem Trace.shownUnfolded_cons_of_ne {label : Label} (h : label ≠ .equals) (t : Term)
    (o : Outcome) (trace : Trace) :
    Trace.shownUnfolded (⟨label, t, o⟩ :: trace) = (label, t.unfold) :: trace.shownUnfolded := by
  cases label with
  | equals => exact absurd rfl h
  | _ => rfl

/-- **What follows the first entry** is seen in the run of the unfolded term, if single
contractions are, from every term that satisfies an invariant. With every expansion the run of
the unfolded term has more of its budget left than the run has. -/
theorem shownUnfolded_tail_runFrom
    (hcontraction : ∀ t s, Inv t → strategy.step t = some s → s.event.label = .arrow →
      strategy.step t.unfold = some s.unfold)
    (hinv : ∀ t s, Inv t → strategy.step t = some s → Inv s.next) (ht : Inv t)
    {budget budget' : Nat} (hle : budget ≤ budget') (label label' : Label) :
    Trace.shownUnfolded (runFrom strategy.step budget label t).tail <+:
      Trace.shown (runFrom strategy.step budget' label' t.unfold).tail := by
  induction budget generalizing t budget' label label' with
  | zero =>
    have htail : (runFrom strategy.step 0 label t).tail = [] := by
      rw [runFrom]
      split <;> rfl
    rw [htail]
    exact List.nil_prefix
  | succ budget ih =>
    cases hs : strategy.step t with
    | none =>
      rw [runFrom, hs]
      exact List.nil_prefix
    | some s =>
      have hnext : Inv s.next := hinv t s ht hs
      obtain ⟨o, rest, hrun⟩ := exists_cons_runFrom strategy.step budget s.event.label s.next
      have htail : (runFrom strategy.step (budget + 1) label t).tail =
          ⟨s.event.label, s.next, o⟩ :: rest := by
        rw [runFrom, hs]
        exact hrun
      rw [htail]
      rcases s.event.label_eq_or with hl | hl
      · -- the run of the unfolded term makes the same contraction
        obtain ⟨budget', rfl⟩ : ∃ k, budget' = k + 1 := ⟨budget' - 1, by omega⟩
        obtain ⟨o', rest', hrun'⟩ :=
          exists_cons_runFrom strategy.step budget' .arrow s.next.unfold
        have htail' : (runFrom strategy.step (budget' + 1) label' t.unfold).tail =
            ⟨.arrow, s.next.unfold, o'⟩ :: rest' := by
          rw [runFrom, hcontraction t s ht hs hl, ← hrun', ← hl, ← s.event.label_unfold]
          rfl
        have hrest : Trace.shownUnfolded rest <+: Trace.shown rest' := by
          have htails := ih hnext (Nat.le_of_succ_le_succ hle) s.event.label .arrow
          rwa [hrun, hrun'] at htails
        rw [htail', hl, Trace.shownUnfolded_cons_of_ne (by decide)]
        exact List.cons_prefix_cons.mpr ⟨rfl, hrest⟩
      · -- it has nothing to do
        have hrest := ih hnext (Nat.le_of_succ_le hle) s.event.label label'
        rw [(Term.admits_of_step hs).unfold_next hl, hrun] at hrest
        rw [hl, Trace.shownUnfolded_cons_equals]
        exact hrest

/-- **A strategy sees through references** if its single contractions do, from every term that
satisfies an invariant. -/
theorem Strategy.seesThrough_of_contraction
    (hcontraction : ∀ t s, Inv t → strategy.step t = some s → s.event.label = .arrow →
      strategy.step t.unfold = some s.unfold)
    (hinv : ∀ t s, Inv t → strategy.step t = some s → Inv s.next) (ht : Inv t) :
    strategy.SeesThrough t where
  expansion s hs he := (Term.admits_of_step hs).unfold_next he
  contraction s hs he := hcontraction t s ht hs he
  run budget := by
    have htail : Trace.shownUnfolded (strategy.run budget t).tail <+:
        Trace.shown (strategy.run budget t.unfold).tail :=
      shownUnfolded_tail_runFrom hcontraction hinv ht le_rfl .start .start
    obtain ⟨o, rest, hrun⟩ := exists_cons_runFrom strategy.step budget .start t
    obtain ⟨o', rest', hrun'⟩ := exists_cons_runFrom strategy.step budget .start t.unfold
    rw [Strategy.run, Strategy.run, hrun, hrun'] at htail
    rw [Strategy.run, Strategy.run, hrun, hrun', Trace.shownUnfolded_cons_of_ne (by decide)]
    exact List.cons_prefix_cons.mpr ⟨rfl, htail⟩

end Runs

namespace Term

variable {t : Term}

/-- Call by name sees through references, whatever they stand for, as long as it is closed. -/
theorem seesThrough_cbn (hclosed : t.isClosed = true) (hrefs : t.refsClosed = true) :
    Strategy.cbn.SeesThrough t := by
  refine Strategy.seesThrough_of_contraction ?_ (fun _ _ => closed_next_of_step)
    ⟨hclosed, hrefs⟩
  rintro t s ⟨hclosed, hrefs⟩ hs he
  exact stepName_unfold hclosed hrefs hs he

/-- **Macros are transparent to weak reduction.** From a closed term whose references, at every
depth, are closed and do not stand for a bare reference, call by value and call by name take the
contractions that they take from the unfolded term; and what a run of theirs shows, expansions
left out and references unfolded, is how the run of the unfolded term begins. -/
theorem weak_seesThrough (hclosed : t.isClosed = true) (hrefs : t.refsClosed = true)
    (hbare : t.Carries fun _ e => e.isRef = false) :
    Strategy.cbv.SeesThrough t ∧ Strategy.cbn.SeesThrough t := by
  refine ⟨?_, seesThrough_cbn hclosed hrefs⟩
  have hsound : t.Sound fun _ e => e.isRef = false := ⟨hclosed, hrefs, hbare⟩
  refine Strategy.seesThrough_of_contraction ?_ (fun _ _ => Sound.next) hsound
  intro t s ht hs he
  exact stepValue_unfold ht hs he

/-- An argument that is a macro of another macro: `(λx. x x) K`, where `K` stands for `I I`. -/
def macroOfMacro : Term :=
  let I : Term := .ref "I" (.abs "x" (.var "x"))
  .app (.abs "x" (.app (.var "x") (.var "x"))) (.ref "K" (.app I I))

theorem weak_seesThrough_macroOfMacro : macroOfMacro.isClosed = true ∧
    macroOfMacro.refsClosed = true ∧ (macroOfMacro.Carries fun _ e => e.isRef = false) ∧
      Strategy.cbv.SeesThrough macroOfMacro ∧ Strategy.cbn.SeesThrough macroOfMacro := by
  have hbare : macroOfMacro.Carries fun _ e => e.isRef = false := by
    simp [macroOfMacro, Carries, isRef]
  exact ⟨by decide, by decide, hbare, weak_seesThrough (by decide) (by decide) hbare⟩

-- An argument that stands for a reference is taken for a value, whatever that stands for.
example :
    let t : Term := .app (.abs "x" (.var "x")) (.ref "J" macroOfMacro.unfold)
    let u : Term := .app (.abs "x" (.var "x")) (.ref "J" (.ref "K" macroOfMacro.unfold))
    t.unfold = u.unfold ∧ (Strategy.cbv.step t).map (·.event.label) = some .equals ∧
      (Strategy.cbv.step u).map (·.event.label) = some .arrow ∧
      (Strategy.cbv.step u).map (·.unfold) ≠ Strategy.cbv.step u.unfold := by
  decide +kernel

end Term

end LambdaTrace
