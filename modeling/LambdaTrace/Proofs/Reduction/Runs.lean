import LambdaTrace.Proofs.Nameless.Valuation
import LambdaTrace.Proofs.Reduction.Steps

/-!
# Runs and the machines they follow

A run lists the terms that a strategy reaches, and a machine is a relation between
the forms of terms. If the two agree on single steps, from every term that satisfies
an invariant of the strategy, then they agree on runs
(`LambdaTrace.map_runFrom_eq_some_iff`): the `i`-th entry of a run is what the machine
reaches in `i` steps, and there is an `i`-th entry as long as the machine gets there
and the budget allows for it. A machine that ends is followed to its end if the budget is
large enough (`LambdaTrace.exists_normalForm?_of_reflTransGen`).

Where there is no machine to follow, a run is still a chain: from each entry to the
next it takes the step that the entry records (`LambdaTrace.isChain_runFrom`), from each
entry on it is the run from there (`LambdaTrace.runFrom_of_getElem?`), and the term that it
reports at its end has no step (`LambdaTrace.step_eq_none_of_normalForm?`). It reports one
unless the budget was spent (`LambdaTrace.timedOut_eq_false_iff`). What every step keeps
holds of every entry (`LambdaTrace.forall_mem_runFrom`).
-/

namespace LambdaTrace

/-- **A number of steps** of a relation. -/
inductive StepsTo {α : Type} (R : α → α → Prop) : Nat → α → α → Prop
  | refl (a : α) : StepsTo R 0 a a
  | head {n : Nat} {a b c : α} : R a b → StepsTo R n b c → StepsTo R (n + 1) a c

section StepsTo

variable {α : Type} {R : α → α → Prop} {a c : α} {n : Nat}

theorem stepsTo_zero : StepsTo R 0 a c ↔ a = c := by
  constructor
  · rintro ⟨⟩
    rfl
  · rintro rfl
    exact .refl a

theorem stepsTo_succ : StepsTo R (n + 1) a c ↔ ∃ b, R a b ∧ StepsTo R n b c := by
  constructor
  · rintro (_ | ⟨hab, hbc⟩)
    exact ⟨_, hab, hbc⟩
  · rintro ⟨b, hab, hbc⟩
    exact .head hab hbc

end StepsTo

section Simulation

variable {α : Type} {R : α → α → Prop} {step : Term → Option Step} {view : Term → α}
  {Inv : Term → Prop}

/-- A run starts with the term it is started with, and how that was reached is written there
and makes no other difference. -/
theorem exists_forall_runFrom_eq_cons (step : Term → Option Step) (budget : Nat) (t : Term) :
    ∃ o rest, ∀ label, runFrom step budget label t = ⟨label, t, o⟩ :: rest := by
  cases budget <;> cases hs : step t <;> exact ⟨_, _, fun label => by rw [runFrom, hs]⟩

theorem exists_cons_runFrom (step : Term → Option Step) (budget : Nat) (label : Label)
    (t : Term) : ∃ o rest, runFrom step budget label t = ⟨label, t, o⟩ :: rest := by
  obtain ⟨o, rest, heq⟩ := exists_forall_runFrom_eq_cons step budget t
  exact ⟨o, rest, heq label⟩

/-- From a term without a step, the run is over as it starts. -/
theorem runFrom_of_stuck {t : Term} (h : step t = none) (budget : Nat) (label : Label) :
    runFrom step budget label t = [⟨label, t, .finished⟩] := by
  cases budget <;> rw [runFrom, h]

theorem normalForm?_of_stuck {t : Term} (h : step t = none) (budget : Nat) (label : Label) :
    (runFrom step budget label t).normalForm? = some t := by
  rw [runFrom_of_stuck h]
  rfl

/-- With a step, a run reports what the run from the next term reports. -/
theorem normalForm?_runFrom_succ {t : Term} {s : Step} (h : step t = some s) (budget : Nat)
    (label : Label) : (runFrom step (budget + 1) label t).normalForm? =
      (runFrom step budget s.event.label s.next).normalForm? := by
  obtain ⟨o, rest, heq⟩ := exists_cons_runFrom step budget s.event.label s.next
  rw [runFrom, h]
  simp only [heq]
  rw [Trace.normalForm?, Trace.normalForm?, List.getLast?_cons_cons]

theorem map_runFrom_zero (step : Term → Option Step) (view : Term → α) (budget : Nat)
    (label : Label) (t : Term) :
    (runFrom step budget label t)[0]?.map (fun e => view e.term) = some (view t) := by
  obtain ⟨o, rest, heq⟩ := exists_cons_runFrom step budget label t
  rw [heq]
  rfl

/-- **A run follows a machine** that every step of it follows. -/
theorem map_runFrom_eq_some_iff
    (hstep : ∀ t, Inv t → ∀ u, R (view t) u ↔ (step t).map (fun s => view s.next) = some u)
    (hinv : ∀ t s, Inv t → step t = some s → Inv s.next) {t : Term} (ht : Inv t)
    (budget : Nat) (label : Label) (i : Nat) (u : α) :
    (runFrom step budget label t)[i]?.map (fun e => view e.term) = some u ↔
      i ≤ budget ∧ StepsTo R i (view t) u := by
  induction budget generalizing t label i with
  | zero =>
    cases i with
    | zero => simp [map_runFrom_zero, stepsTo_zero]
    | succ i =>
      have hlen : (runFrom step 0 label t)[i + 1]? = none := by
        rw [runFrom]
        split <;> rfl
      simp [hlen]
  | succ budget ih =>
    cases i with
    | zero => simp [map_runFrom_zero, stepsTo_zero]
    | succ i =>
      rw [stepsTo_succ, runFrom]
      cases hs : step t with
      | none =>
        -- the run is over, and the machine is stuck
        have hstuck : ¬∃ b, R (view t) b ∧ StepsTo R i b u := by
          rintro ⟨b, hb, -⟩
          rw [hstep t ht, hs] at hb
          simp at hb
        simp [hstuck]
      | some s =>
        have hnext : ∀ b, R (view t) b ↔ view s.next = b := by
          intro b
          rw [hstep t ht, hs]
          simp
        rw [List.getElem?_cons_succ, ih (hinv t s ht hs), Nat.succ_le_succ_iff]
        simp [hnext]

/-- **A run reports what a machine ends in**, if the budget is large enough: it takes the steps
of the machine, which has no choice, and it is stuck only where the machine is. -/
theorem exists_normalForm?_of_reflTransGen (hdet : ∀ a b c, R a b → R a c → b = c)
    (hsound : ∀ t s, Inv t → step t = some s → R (view t) (view s.next))
    (hstuck : ∀ t, Inv t → step t = none → ∀ u, ¬R (view t) u)
    (hinv : ∀ t s, Inv t → step t = some s → Inv s.next) {t : Term} (ht : Inv t) {u : α}
    (hred : Relation.ReflTransGen R (view t) u) (hu : ∀ v, ¬R u v) (label : Label) :
    ∃ budget n, (runFrom step budget label t).normalForm? = some n ∧ view n = u := by
  obtain ⟨a, ha⟩ : ∃ a, view t = a := ⟨_, rfl⟩
  rw [ha] at hred
  induction hred using Relation.ReflTransGen.head_induction_on generalizing t label with
  | refl =>
    subst ha
    have hnone : step t = none := by
      rw [Option.eq_none_iff_forall_ne_some]
      intro s hs
      exact hu _ (hsound t s ht hs)
    exact ⟨0, t, normalForm?_of_stuck hnone 0 label, rfl⟩
  | @head a b hab _ ih =>
    subst ha
    obtain ⟨s, hs⟩ : ∃ s, step t = some s := by
      rw [← Option.ne_none_iff_exists']
      exact fun hnone => hstuck t ht hnone b hab
    have hb : view s.next = b := hdet _ _ _ (hsound t s ht hs) hab
    obtain ⟨budget, n, hn, hnu⟩ := ih (hinv t s ht hs) s.event.label hb
    exact ⟨budget + 1, n, (normalForm?_runFrom_succ hs budget label).trans hn, hnu⟩

end Simulation

section Entries

variable {step : Term → Option Step} {t n : Term} {label : Label} {budget : Nat}

/-- **From each entry to the next** a run takes the step that the entry records, and
what every step keeps holds all along. -/
theorem isChain_runFrom {Inv : Term → Prop}
    (hinv : ∀ t s, Inv t → step t = some s → Inv s.next) (ht : Inv t) (budget : Nat)
    (label : Label) :
    (runFrom step budget label t).IsChain fun e e' =>
      Inv e.term ∧ ∃ s, step e.term = some s ∧ e.outcome = .stepped s ∧ e'.term = s.next := by
  induction budget generalizing t label with
  | zero =>
    rw [runFrom]
    split <;> exact List.isChain_singleton _
  | succ budget ih =>
    rw [runFrom]
    cases hs : step t with
    | none => exact List.isChain_singleton _
    | some s =>
      have hrest := ih (hinv t s ht hs) s.event.label
      obtain ⟨o, rest, heq⟩ := exists_cons_runFrom step budget s.event.label s.next
      rw [heq] at hrest
      simp only [heq]
      exact List.isChain_cons_cons.mpr ⟨⟨ht, s, hs, rfl, rfl⟩, hrest⟩

/-- **What every step keeps** holds of every entry. -/
theorem forall_mem_runFrom {Inv : Term → Prop}
    (hinv : ∀ t s, Inv t → step t = some s → Inv s.next) (ht : Inv t) (budget : Nat)
    (label : Label) : ∀ e ∈ runFrom step budget label t, Inv e.term := by
  induction budget generalizing t label with
  | zero =>
    rw [runFrom]
    split <;> exact List.forall_mem_singleton.mpr ht
  | succ budget ih =>
    rw [runFrom]
    cases hs : step t with
    | none => exact List.forall_mem_singleton.mpr ht
    | some s => exact List.forall_mem_cons.mpr ⟨ht, ih (hinv t s ht hs) s.event.label⟩

/-- **An entry says that the run is over** exactly if its term has no step. -/
theorem finished_iff_of_mem_runFrom {e : Entry} (he : e ∈ runFrom step budget label t) :
    e.outcome = .finished ↔ step e.term = none := by
  induction budget generalizing t label with
  | zero =>
    cases hs : step t with
    | none =>
      rw [runFrom_of_stuck hs, List.mem_singleton] at he
      exact he ▸ iff_of_true rfl hs
    | some s =>
      rw [runFrom, hs] at he
      exact List.mem_singleton.mp he ▸ iff_of_false (by simp) (by simp [hs])
  | succ budget ih =>
    cases hs : step t with
    | none =>
      rw [runFrom_of_stuck hs, List.mem_singleton] at he
      exact he ▸ iff_of_true rfl hs
    | some s =>
      rw [runFrom, hs] at he
      rcases List.mem_cons.mp he with rfl | he
      · exact iff_of_false (by simp) (by simp [hs])
      · exact ih he

/-- **A run is taken up again** at any of its entries: the run from there, with what is left
of the budget, is the rest of it. -/
theorem runFrom_of_getElem? {e : Entry} {i : Nat}
    (h : (runFrom step budget label t)[i]? = some e) (label' : Label) :
    runFrom step (budget - i) label' e.term =
      ⟨label', e.term, e.outcome⟩ :: (runFrom step budget label t).drop (i + 1) := by
  induction i generalizing budget t label with
  | zero =>
    obtain ⟨o, rest, heq⟩ := exists_forall_runFrom_eq_cons step budget t
    rw [heq] at h
    obtain rfl : ⟨label, t, o⟩ = e := Option.some.inj h
    rw [Nat.sub_zero, heq, heq]
    rfl
  | succ i ih =>
    -- a run with a second entry took a step
    cases budget with
    | zero =>
      rw [runFrom] at h
      split at h <;> cases h
    | succ budget =>
      cases hs : step t with
      | none =>
        rw [runFrom, hs] at h
        cases h
      | some s =>
        rw [runFrom, hs, List.getElem?_cons_succ] at h
        rw [Nat.succ_sub_succ, ih h, runFrom, hs, List.drop_succ_cons]

/-- The term that a run reports at its end has no step. -/
theorem step_eq_none_of_normalForm? (h : (runFrom step budget label t).normalForm? = some n) :
    step n = none := by
  induction budget generalizing t label with
  | zero =>
    rw [runFrom] at h
    cases hs : step t <;> simp_all [Trace.normalForm?]
  | succ budget ih =>
    cases hs : step t with
    | none =>
      obtain rfl : t = n := Option.some.inj ((normalForm?_of_stuck hs _ label).symm.trans h)
      exact hs
    | some s => exact ih (normalForm?_runFrom_succ hs budget label ▸ h)

/-- A run whose entries are related one by one relates its first term to the one it
reports at its end. -/
theorem reflTransGen_of_normalForm? {R : Term → Term → Prop}
    (hchain : (runFrom step budget label t).IsChain fun e e' => R e.term e'.term)
    (h : (runFrom step budget label t).normalForm? = some n) : Relation.ReflTransGen R t n := by
  obtain ⟨o, rest, heq⟩ := exists_cons_runFrom step budget label t
  rw [heq] at h hchain
  clear heq
  induction rest generalizing label t o with
  | nil =>
    have htn : t = n := by cases o <;> simp_all [Trace.normalForm?]
    rw [htn]
  | cons e rest ih =>
    obtain ⟨hR, hrest⟩ := List.isChain_cons_cons.mp hchain
    exact .head hR (ih e.outcome hrest h)

/-- A run leads to the term that it reports by steps of its own. -/
theorem reaches_of_normalForm? {Inv : Term → Prop} {R : Term → Term → Prop}
    (hinv : ∀ t s, Inv t → step t = some s → Inv s.next)
    (hR : ∀ t s, Inv t → step t = some s → R t s.next) (ht : Inv t)
    (h : (runFrom step budget label t).normalForm? = some n) : Relation.ReflTransGen R t n := by
  refine reflTransGen_of_normalForm? ?_ h
  refine (isChain_runFrom hinv ht budget label).imp ?_
  rintro e e' ⟨he, s, hs, -, hnext⟩
  exact hnext ▸ hR _ s he hs

/-- What every step keeps holds of the term that a run reports at its end. -/
theorem inv_of_normalForm? {Inv : Term → Prop}
    (hinv : ∀ t s, Inv t → step t = some s → Inv s.next) (ht : Inv t)
    (h : (runFrom step budget label t).normalForm? = some n) : Inv n := by
  have hreach : Relation.ReflTransGen (fun t u => Inv t → Inv u) t n :=
    reaches_of_normalForm? hinv (fun t s _ hs ht => hinv t s ht hs) ht h
  clear h
  induction hreach with
  | refl => exact ht
  | tail _ hstep ih => exact hstep ih

end Entries

/-! ### How a run ends -/

section Ends

variable {strategy : Strategy} {budget : Nat} {t : Term}

/-- A run either spends its budget or reports a normal form. -/
theorem timedOut_eq_false_iff : (strategy.run budget t).timedOut = false ↔
    ∃ n, (strategy.run budget t).normalForm? = some n := by
  obtain ⟨o, rest, heq⟩ := exists_cons_runFrom strategy.step budget .start t
  obtain ⟨e, he⟩ : ∃ e, (strategy.run budget t).getLast? = some e := by
    rw [Strategy.run, heq]
    exact ⟨_, List.getLast?_eq_some_getLast (List.cons_ne_nil _ _)⟩
  obtain ⟨label, n, outcome⟩ := e
  rw [Trace.timedOut, Trace.normalForm?, he]
  cases outcome <;> simp

/-- A run without a normal form spent its budget. -/
theorem timedOut_of_normalForm? (h : (strategy.run budget t).normalForm? = none) :
    (strategy.run budget t).timedOut = true := by
  rw [← Bool.not_eq_false, timedOut_eq_false_iff, h]
  simp

end Ends

/-- **A strategy follows a machine** on nameless terms from a term: its next step is
the machine's, it has none exactly where the machine is stuck, and the entries of its
runs are what the machine reaches, as far as the budget goes. -/
structure Strategy.Follows (strategy : Strategy) (R : Nameless → Nameless → Prop)
    (t : Term) : Prop where
  step : ∀ u, R t.nameless u ↔ (strategy.step t).map (fun s => s.next.nameless) = some u
  stuck : strategy.step t = none ↔ ∀ u, ¬R t.nameless u
  run : ∀ (budget i : Nat) (u : Nameless),
    (strategy.run budget t)[i]?.map (fun e => e.term.nameless) = some u ↔
      i ≤ budget ∧ StepsTo R i t.nameless u

/-- To follow a machine that has no choice, it is enough to take its steps and to be
stuck only where it is, from every term that satisfies an invariant. -/
theorem Strategy.follows_of_sound (strategy : Strategy) (R : Nameless → Nameless → Prop)
    {Inv : Term → Prop} (hdet : ∀ T u v, R T u → R T v → u = v)
    (hsound : ∀ t s, Inv t → strategy.step t = some s → R t.nameless s.next.nameless)
    (hstuck : ∀ t, Inv t → strategy.step t = none → ∀ u, ¬R t.nameless u)
    (hinv : ∀ t s, Inv t → strategy.step t = some s → Inv s.next) {t : Term} (ht : Inv t) :
    strategy.Follows R t := by
  have hstep : ∀ t, Inv t → ∀ u,
      R t.nameless u ↔ (strategy.step t).map (fun s => s.next.nameless) = some u := by
    intro t ht u
    cases hs : strategy.step t with
    | none => exact iff_of_false (hstuck t ht hs u) (by simp)
    | some s =>
      rw [Option.map_some, Option.some_inj]
      constructor
      · exact hdet _ _ _ (hsound t s ht hs)
      · rintro rfl
        exact hsound t s ht hs
  refine ⟨hstep t ht, ⟨hstuck t ht, fun hno => ?_⟩, fun budget i u => ?_⟩
  · by_contra hne
    obtain ⟨s, hs⟩ := Option.ne_none_iff_exists'.mp hne
    exact hno _ (hsound t s ht hs)
  · exact map_runFrom_eq_some_iff hstep hinv ht budget .start i u

end LambdaTrace
