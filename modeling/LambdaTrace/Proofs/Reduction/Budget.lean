import LambdaTrace.Proofs.Reduction.Runs
import LambdaTrace.Proofs.Reduction.Transparent

/-!
# What the budget of a run decides

Without a budget there is one sequence of terms for each term: what is reached from it in no
steps, in one, in two (`LambdaTrace.reduct?`), until there is no step any more, if that happens
(`LambdaTrace.stepCount`). A run is the beginning of this sequence. The budget decides where it
is cut off, and nothing else: an entry says how its term was reached and what became of it, and
only the last one can say that the budget was spent
(`LambdaTrace.Strategy.Records`).

So two runs of a term differ by their budgets in the obvious way. If the shorter one came to its
end, the longer one is the same; otherwise it begins with the same terms, and goes on where the
shorter one says that it stopped (`LambdaTrace.Strategy.run_extended`).
-/

namespace LambdaTrace

variable {step : Term → Option Step} {t u : Term} {label : Label} {n m i : Nat}

/-! ### The sequence of terms -/

/-- **What is reached in a number of steps** from a term that was reached as the label says,
with the kind of the last step. -/
def reduct? (step : Term → Option Step) : Nat → Label → Term → Option (Label × Term)
  | 0, label, t => some (label, t)
  | i + 1, _, t => (step t).bind fun s => reduct? step i s.event.label s.next

/-- One more step is taken from what was reached. -/
theorem reduct?_succ (i : Nat) (label : Label) (t : Term) : reduct? step (i + 1) label t =
    (reduct? step i label t).bind fun r => (step r.2).map fun s => (s.event.label, s.next) := by
  induction i generalizing label t with
  | zero =>
    rw [reduct?, reduct?, Option.bind_some]
    cases step t <;> rfl
  | succ i ih =>
    rw [reduct?, reduct?, Option.bind_assoc]
    exact congrArg _ (funext fun s => ih s.event.label s.next)

/-- **The number of steps** from a term until there is none, which there may always be. -/
noncomputable def stepCount (step : Term → Option Step) (t : Term) : ℕ∞ :=
  ⨅ (i : ℕ) (_ : ∃ label u, reduct? step i .start t = some (label, u) ∧ step u = none), (i : ℕ∞)

/-- There is a next term as long as there is a step. -/
theorem isSome_reduct?_succ : (reduct? step (i + 1) label t).isSome = true ↔
    ∃ label' u, reduct? step i label t = some (label', u) ∧ (step u).isSome = true := by
  rw [reduct?_succ]
  rcases reduct? step i label t with _ | ⟨label', u⟩
  · simp
  · simp

/-- **A term is reached in a number of steps** if there are that many. -/
theorem le_stepCount_iff : (i : ℕ∞) ≤ stepCount step t ↔
    (reduct? step i .start t).isSome = true := by
  rw [stepCount, le_iInf₂_iff]
  constructor
  · intro h
    induction i with
    | zero => rfl
    | succ i ih =>
      obtain ⟨⟨label, u⟩, hu⟩ := Option.isSome_iff_exists.mp
        (ih fun j hj => le_trans (by exact_mod_cast i.le_succ) (h j hj))
      refine isSome_reduct?_succ.mpr ⟨label, u, hu, ?_⟩
      by_contra hstuck
      have hle := h i ⟨label, u, hu, by simpa using hstuck⟩
      exact absurd (Nat.cast_le.mp hle) (Nat.not_succ_le_self i)
  · rintro h j ⟨label, u, hu, hstuck⟩
    rw [Nat.cast_le]
    by_contra hlt
    -- what is reached in more steps is reached by way of the term without a step
    have hnone : ∀ k, reduct? step (j + 1 + k) .start t = none := by
      intro k
      induction k with
      | zero => simp [reduct?_succ, hu, hstuck]
      | succ k ih => rw [← Nat.add_assoc, reduct?_succ, ih, Option.bind_none]
    obtain ⟨k, rfl⟩ := Nat.exists_eq_add_of_lt (Nat.lt_of_not_le hlt)
    rw [show j + k + 1 = j + 1 + k by omega, hnone] at h
    cases h

/-! ### One run -/

/-- **What a run shows** is the beginning of the sequence, as far as the budget goes. -/
theorem getElem?_shown_runFrom (n i : Nat) (label : Label) (t : Term) :
    (runFrom step n label t).shown[i]? = if i ≤ n then reduct? step i label t else none := by
  induction n generalizing i label t with
  | zero =>
    have hshown : (runFrom step 0 label t).shown = [(label, t)] := by
      rw [runFrom]
      split <;> rfl
    cases i <;> simp [hshown, reduct?]
  | succ n ih =>
    rw [runFrom]
    cases hs : step t with
    | none => cases i <;> simp [Trace.shown, reduct?, hs]
    | some s =>
      cases i with
      | zero => simp [Trace.shown, reduct?]
      | succ i => simpa [Trace.shown, reduct?, hs] using ih i s.event.label s.next

/-- **The length of a run**: it has an entry for each step within the budget, and the one that
it starts with. -/
theorem length_runFrom (n : Nat) (t : Term) :
    ((runFrom step n .start t).length : ℕ∞) = min (n : ℕ∞) (stepCount step t) + 1 := by
  obtain ⟨k, hk⟩ := ENat.ne_top_iff_exists.mp
    (ne_top_of_le_ne_top (ENat.natCast_ne_top n) (min_le_left (n : ℕ∞) (stepCount step t)))
  have hiff : ∀ i, i < (runFrom step n .start t).length ↔ i < k + 1 := by
    intro i
    have hshown : i < (runFrom step n .start t).length ↔
        (runFrom step n .start t).shown[i]?.isSome = true := by
      simp [Trace.shown]
    have hmin : i < k + 1 ↔ i ≤ n ∧ (reduct? step i .start t).isSome = true := by
      rw [Nat.lt_succ_iff, ← Nat.cast_le (α := ℕ∞), hk, le_min_iff, Nat.cast_le, le_stepCount_iff]
    rw [hshown, hmin, getElem?_shown_runFrom]
    by_cases hi : i ≤ n <;> simp [hi]
  have hlen : (runFrom step n .start t).length = k + 1 :=
    eq_of_forall_lt_iff hiff
  rw [hlen, ← hk, Nat.cast_add, Nat.cast_one]

/-- **What became of the last term** of a run: it has no step, or the budget was spent. -/
theorem outcome_of_getLast? {e : Entry} (h : (runFrom step n label t).getLast? = some e) :
    e.outcome = if (step e.term).isSome then .timedOut else .finished := by
  induction n generalizing label t with
  | zero =>
    cases hs : step t with
    | none =>
      rw [runFrom_of_stuck hs] at h
      cases h
      simp [hs]
    | some s =>
      rw [runFrom, hs] at h
      cases h
      simp [hs]
  | succ n ih =>
    cases hs : step t with
    | none =>
      rw [runFrom_of_stuck hs] at h
      cases h
      simp [hs]
    | some s =>
      obtain ⟨o, rest, heq⟩ := exists_cons_runFrom step n s.event.label s.next
      refine @ih s.next s.event.label ?_
      rw [runFrom, hs] at h
      simp only [heq] at h ⊢
      rwa [List.getLast?_cons_cons] at h

/-- A run spends its budget exactly if there are more steps than that. -/
theorem timedOut_runFrom_iff : (runFrom step n label t).timedOut = true ↔
    (reduct? step (n + 1) label t).isSome = true := by
  induction n generalizing label t with
  | zero => cases hs : step t <;> simp [runFrom, reduct?, hs, Trace.timedOut]
  | succ n ih =>
    cases hs : step t with
    | none => simp [runFrom_of_stuck hs, reduct?, hs, Trace.timedOut]
    | some s =>
      obtain ⟨o, rest, heq⟩ := exists_cons_runFrom step n s.event.label s.next
      rw [reduct?, hs, Option.bind_some, ← ih, runFrom, hs]
      simp only [heq]
      rw [Trace.timedOut, Trace.timedOut, List.getLast?_cons_cons]

/-! ### Two runs -/

/-- **A run that came to its end** is the run with any larger budget. -/
theorem runFrom_eq_of_le (hle : n ≤ m) (hend : (runFrom step n label t).timedOut = false) :
    runFrom step m label t = runFrom step n label t := by
  induction n generalizing m label t with
  | zero =>
    cases hs : step t with
    | none => rw [runFrom_of_stuck hs, runFrom_of_stuck hs]
    | some s => simp [runFrom, hs, Trace.timedOut] at hend
  | succ n ih =>
    obtain ⟨m, rfl⟩ : ∃ k, m = k + 1 := ⟨m - 1, by omega⟩
    cases hs : step t with
    | none => rw [runFrom_of_stuck hs, runFrom_of_stuck hs]
    | some s =>
      have hrest : (runFrom step n s.event.label s.next).timedOut = false := by
        rw [← Bool.not_eq_true, timedOut_runFrom_iff] at hend ⊢
        simpa [reduct?, hs] using hend
      rw [runFrom, runFrom, hs]
      exact congrArg _ (ih (Nat.le_of_succ_le_succ hle) hrest)

/-- **A run that spent its budget** is the beginning of the run with any larger budget, which
goes on from the last term. -/
theorem exists_runFrom_eq_append (hle : n ≤ m)
    (hend : (runFrom step n label t).timedOut = true) :
    ∃ init label' u o rest, init.length = n ∧
      runFrom step n label t = init ++ [⟨label', u, .timedOut⟩] ∧
      runFrom step m label t = init ++ ⟨label', u, o⟩ :: rest ∧
      (n < m → ∃ s, step u = some s ∧ o = .stepped s) := by
  induction n generalizing m label t with
  | zero =>
    cases hs : step t with
    | none => simp [runFrom_of_stuck hs, Trace.timedOut] at hend
    | some s =>
      obtain ⟨o, rest, heq⟩ := exists_cons_runFrom step m label t
      refine ⟨[], label, t, o, rest, rfl, by rw [runFrom, hs]; rfl, heq, fun hlt => ?_⟩
      obtain ⟨m, rfl⟩ : ∃ k, m = k + 1 := ⟨m - 1, by omega⟩
      rw [runFrom, hs] at heq
      cases heq
      exact ⟨s, hs, rfl⟩
  | succ n ih =>
    obtain ⟨m, rfl⟩ : ∃ k, m = k + 1 := ⟨m - 1, by omega⟩
    cases hs : step t with
    | none => simp [runFrom_of_stuck hs, Trace.timedOut] at hend
    | some s =>
      have hrest : (runFrom step n s.event.label s.next).timedOut = true := by
        rw [timedOut_runFrom_iff] at hend ⊢
        simpa [reduct?, hs] using hend
      obtain ⟨init, label', u, o, rest, hlen, hn, hm, hstep⟩ :=
        ih (Nat.le_of_succ_le_succ hle) hrest
      refine ⟨⟨label, t, .stepped s⟩ :: init, label', u, o, rest, by rw [List.length_cons, hlen],
        ?_, ?_, fun hlt => hstep (Nat.lt_of_succ_lt_succ hlt)⟩
      · rw [runFrom, hs]
        exact congrArg _ hn
      · rw [runFrom, hs]
        exact congrArg _ hm

/-! ### Runs of a strategy -/

/-- **What a run records** of the sequence of terms. -/
structure Strategy.Records (strategy : Strategy) (t : Term) (budget : ℕ) (entries : Trace) :
    Prop where
  /-- There is an entry for each step within the budget, and one to start with. -/
  length : (entries.length : ℕ∞) = min (budget : ℕ∞) (stepCount strategy.step t) + 1
  /-- The `i`-th entry has the `i`-th term, labelled by the kind of step that led to it. -/
  reached : ∀ i e, entries[i]? = some e →
    reduct? strategy.step i .start t = some (e.label, e.term)
  /-- An entry that is not the last has the step that is taken from its term. -/
  stepped : ∀ i e, entries[i]? = some e → i + 1 < entries.length →
    ∃ s, strategy.step e.term = some s ∧ e.outcome = .stepped s
  /-- The last one says whether its term has a step. -/
  last : ∀ e, entries.getLast? = some e →
    e.outcome = if (strategy.step e.term).isSome then .timedOut else .finished
  /-- Only if there are more steps than the budget allows for, it is spent. -/
  timedOut_iff : entries.timedOut = true ↔ (budget : ℕ∞) < stepCount strategy.step t

theorem Strategy.records_run (strategy : Strategy) (t : Term) (budget : ℕ) :
    strategy.Records t budget (strategy.run budget t) where
  length := length_runFrom budget t
  reached i e he := by
    have hshown : (strategy.run budget t).shown[i]? = some (e.label, e.term) := by
      rw [Trace.shown, List.getElem?_map, he]
      rfl
    rw [Strategy.run, getElem?_shown_runFrom] at hshown
    split at hshown
    · exact hshown
    · cases hshown
  stepped i e he hi := by
    have hchain : (strategy.run budget t).IsChain fun e e' => True ∧
        ∃ s, strategy.step e.term = some s ∧ e.outcome = .stepped s ∧ e'.term = s.next :=
      @isChain_runFrom _ t (fun _ => True) (fun _ _ _ _ => trivial) trivial budget .start
    obtain ⟨-, s, hs, ho, -⟩ := List.isChain_iff_getElem.mp hchain i hi
    obtain ⟨hlt, rfl⟩ := List.getElem?_eq_some_iff.mp he
    exact ⟨s, hs, ho⟩
  last e he := outcome_of_getLast? he
  timedOut_iff := by
    rw [Strategy.run, timedOut_runFrom_iff, ← le_stepCount_iff, Nat.cast_add, Nat.cast_one,
      ENat.add_one_le_iff (ENat.natCast_ne_top budget)]

/-- **A run is a beginning of the sequence of terms, and a larger budget only extends it**, for
every strategy and every term. A budget below zero is none. The run records the sequence as far as
its budget goes; if it came to its end it is the run with any larger budget, and if it spent its
budget it differs from the beginning of that run by nothing but the outcome of its last
entry. -/
theorem Strategy.run_extended (strategy : Strategy) (t : Term) {n m : ℤ} (h : n ≤ m) :
    strategy.Records t n.toNat (strategy.run n.toNat t) ∧
    ((strategy.run n.toNat t).timedOut = false →
      strategy.run m.toNat t = strategy.run n.toNat t) ∧
    ((strategy.run n.toNat t).timedOut = true → ∃ init label u o rest,
      init.length = n.toNat ∧
      strategy.run n.toNat t = init ++ [⟨label, u, .timedOut⟩] ∧
      strategy.run m.toNat t = init ++ ⟨label, u, o⟩ :: rest ∧
      (n.toNat < m.toNat → ∃ s, strategy.step u = some s ∧ o = .stepped s)) :=
  ⟨strategy.records_run t n.toNat, runFrom_eq_of_le (Int.toNat_le_toNat h),
    exists_runFrom_eq_append (Int.toNat_le_toNat h)⟩

/-- Two identities applied one after the other. -/
def Term.twoIdentities : Term :=
  .app (.app (.abs "x" (.var "x")) (.abs "y" (.var "y"))) (.var "z")

/-- A budget of two is just enough, and with one the run stops before the second contraction. -/
theorem Strategy.run_extended_twoIdentities :
    let run : ℤ → Trace := fun n => Strategy.cbn.run n.toNat Term.twoIdentities
    ((2 : ℤ) ≤ 5 ∧ (run 2).timedOut = false ∧ run 5 = run 2) ∧
      ((1 : ℤ) ≤ 5 ∧ (run 1).timedOut = true ∧ ∃ init label u o rest, init.length = 1 ∧
        run 1 = init ++ [⟨label, u, .timedOut⟩] ∧ run 5 = init ++ ⟨label, u, o⟩ :: rest ∧
        ∃ s, Strategy.cbn.step u = some s ∧ o = .stepped s) := by
  intro run
  have hend : (run 2).timedOut = false := by decide +kernel
  have hspent : (run 1).timedOut = true := by decide +kernel
  obtain ⟨-, hsame, -⟩ :=
    Strategy.run_extended .cbn Term.twoIdentities (n := 2) (m := 5) (by decide)
  obtain ⟨-, -, hlonger⟩ :=
    Strategy.run_extended .cbn Term.twoIdentities (n := 1) (m := 5) (by decide)
  obtain ⟨init, label, u, o, rest, hlen, h₁, h₅, hstep⟩ := hlonger hspent
  exact ⟨⟨by decide, hend, hsame hend⟩, by decide, hspent, init, label, u, o, rest, hlen, h₁, h₅,
    hstep (by decide)⟩

end LambdaTrace
