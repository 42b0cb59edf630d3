import LambdaTrace.Proofs.Report.Raised

/-!
# Every statement that waits is run once

A call of `LambdaTrace.Session.run` takes up the statements that wait, one after the other, and is
broken off where one of them fails. What a statement comes to depends on the macros and the
settings of the session alone (`LambdaTrace.Session.outcome`), and these are left as they were
(`LambdaTrace.Session.Unchanged`), so it does not matter what was run before, or in which call.

A statement leaves the list of those that wait when it is taken up, before it is known whether its
result can be concluded. So where a call is broken off, the list holds what comes after the
statement that failed (`LambdaTrace.Session.Ran`), and calls that are repeated until none fails
take up every statement once (`LambdaTrace.Session.RunsOut`).
-/

namespace LambdaTrace

namespace Session

variable {s t u : Session} {number : Int} {statement : Statement} {trace : Trace}

/-! ### What a statement comes to -/

/-- The name-bearing form of the last term of a run, if the run ended and that has names in it. -/
def naming (s : Session) (trace : Trace) : Except SessionError (Option Term) :=
  match trace.normalForm? with
  | none => .ok none
  | some t =>
    if s.resugars then
      match s.table.resugar s.strategy t with
      | .error cycle => .error (.table (.circular cycle))
      | .ok (named, changed) => .ok (if changed then some named else none)
    else .ok none

/-- **What a statement comes to**: its run with the name-bearing form of its result, or the error
that keeps it from having one. A run that spends its budget is a result. -/
def outcome (s : Session) (statement : Statement) : Except SessionError StatementResult :=
  match s.parse statement.text with
  | .error e => .error (.reading e)
  | .ok t =>
    let trace := s.strategy.run s.budget t
    (s.naming trace).map fun resugared => ⟨statement, trace, resugared⟩

/-- **What running leaves as it was**: the macros with the budget, and the settings. -/
structure Unchanged (s t : Session) : Prop where
  table : t.table = s.table
  strategy : t.strategy = s.strategy
  resugars : t.resugars = s.resugars
  path : t.path = s.path
  loading : t.loading = s.loading

theorem Unchanged.refl (s : Session) : s.Unchanged s :=
  ⟨rfl, rfl, rfl, rfl, rfl⟩

theorem Unchanged.trans (h : s.Unchanged t) (h' : t.Unchanged u) : s.Unchanged u :=
  ⟨h'.table.trans h.table, h'.strategy.trans h.strategy, h'.resugars.trans h.resugars,
    h'.path.trans h.path, h'.loading.trans h.loading⟩

theorem Unchanged.naming_eq (h : s.Unchanged t) : t.naming = s.naming := by
  funext trace
  rw [naming, naming, h.table, h.strategy, h.resugars]

/-- **It does not matter what was run before.** -/
theorem Unchanged.outcome_eq (h : s.Unchanged t) : t.outcome = s.outcome := by
  funext statement
  rw [outcome, outcome, h.naming_eq, parse, parse, budget, budget, h.table, h.strategy]

/-- A run that spends its budget reports no normal form. -/
theorem normalForm?_of_timedOut (h : trace.timedOut = true) : trace.normalForm? = none := by
  rw [Trace.timedOut] at h
  rw [Trace.normalForm?]
  cases hlast : trace.getLast? with
  | none => rfl
  | some e =>
    obtain ⟨label, v, outcome⟩ := e
    rw [hlast] at h
    cases outcome <;> first | rfl | cases h

/-- **A run that spends its budget is a result** like any other, without a name-bearing form. -/
theorem outcome_of_timedOut {v : Term} (hread : s.parse statement.text = .ok v)
    (hspent : (s.strategy.run s.budget v).timedOut = true) :
    s.outcome statement = .ok ⟨statement, s.strategy.run s.budget v, none⟩ := by
  rw [outcome, hread]
  dsimp only
  rw [naming, normalForm?_of_timedOut hspent]
  rfl

/-! ### One statement -/

/-- A run is concluded by its name-bearing form, and no more than a warning is written. -/
theorem exists_conclude_eq (s : Session) (statement : Statement) (trace : Trace) :
    ∃ f : Reporter → Reporter, s.conclude statement trace = (s.naming trace, s.report f) := by
  rw [conclude, naming]
  cases trace.normalForm? with
  | none =>
    rw [timeoutWarning_eq]
    exact ⟨_, rfl⟩
  | some v =>
    dsimp only
    split
    · cases s.table.resugar s.strategy v with
      | error cycle => exact ⟨id, rfl⟩
      | ok r => exact ⟨id, rfl⟩
    · exact ⟨id, rfl⟩

/-- Keeps the result of a statement whose run is concluded, and notes that it is done. -/
def keepResult (s : Session) (statement : Statement) (trace : Trace) : Work Unit :=
  (s.conclude statement trace).andThen fun resugared t =>
    let kept : Session := { t with results := t.results ++ [⟨statement, trace, resugared⟩] }
    (.ok (), kept.finishLine t.path)

theorem exists_keepResult_eq (s : Session) (statement : Statement) (trace : Trace) :
    let result := (s.naming trace).map fun r => StatementResult.mk statement trace r
    ∃ t, s.keepResult statement trace = (result.map fun _ => (), t) ∧ t.pending = s.pending ∧
      t.results = s.results ++ result.toOption.toList ∧ s.Unchanged t := by
  obtain ⟨f, hf⟩ := s.exists_conclude_eq statement trace
  rw [keepResult, hf]
  cases s.naming trace with
  | error e => exact ⟨_, rfl, rfl, (List.append_nil _).symm, ⟨rfl, rfl, rfl, rfl, rfl⟩⟩
  | ok resugared => exact ⟨_, rfl, rfl, rfl, ⟨rfl, rfl, rfl, rfl, rfl⟩⟩

/-- **A statement is taken up**: it does not wait any more, whatever it comes to; its result, if it
has one, is the last one; and what it comes to is told by the session before. -/
theorem exists_runStatement_eq (h : number ∈ s.pending.map (·.1)) (statement : Statement) :
    ∃ t, s.runStatement number statement = ((s.outcome statement).map fun _ => (), t) ∧
      t.pending = s.pending.filter (·.1 != number) ∧
      t.results = s.results ++ (s.outcome statement).toOption.toList ∧ s.Unchanged t := by
  obtain ⟨started, hstarted⟩ :
      ∃ t, t = s.report (·.registerLine s.path statement.text number) := ⟨_, rfl⟩
  have hunchanged : s.Unchanged started := by
    rw [hstarted]
    exact ⟨rfl, rfl, rfl, rfl, rfl⟩
  have hpending : started.pending = s.pending := by
    rw [hstarted]
    rfl
  have hresults : started.results = s.results := by
    rw [hstarted]
    rfl
  have hdrop : ∀ t : Session, t.pending = s.pending → t.dropPending number =
      (.ok (), { t with pending := s.pending.filter (·.1 != number) }) := by
    intro t ht
    rw [dropPending, ht, if_pos h]
  rw [runStatement, ← hstarted, evaluate, ← hunchanged.outcome_eq, outcome]
  cases started.parse statement.text with
  | error e =>
    dsimp only
    rw [hdrop started hpending]
    exact ⟨_, rfl, rfl, hresults.trans (List.append_nil _).symm,
      hunchanged.trans ⟨rfl, rfl, rfl, rfl, rfl⟩⟩
  | ok v =>
    dsimp only
    rw [hdrop { started with current := some v } hpending]
    obtain ⟨taken, htaken⟩ : ∃ t : Session, t = { started with
        current := some v, pending := s.pending.filter (·.1 != number) } := ⟨_, rfl⟩
    have hsame : started.Unchanged taken := by
      rw [htaken]
      exact ⟨rfl, rfl, rfl, rfl, rfl⟩
    obtain ⟨t, ht, htpending, htresults, htunchanged⟩ :=
      taken.exists_keepResult_eq statement (started.strategy.run started.budget v)
    rw [hsame.naming_eq] at ht htresults
    refine ⟨t, ?_, ?_, ?_, (hunchanged.trans hsame).trans htunchanged⟩
    · rw [← ht, htaken]
      rfl
    · rw [htpending, htaken]
    · rw [htresults, htaken, ← hresults]

/-! ### A call -/

/-- Runs statements in turn, up to the first error, and notes those that are taken up. -/
def runRecorded (s : Session) : List (Int × Statement) → Work Unit × List (Int × Statement)
  | [] => ((.ok (), s), [])
  | p :: rest =>
    match s.runStatement p.1 p.2 with
    | (.error e, t) => ((.error e, t), [p])
    | (.ok (), t) =>
      let (w, taken) := t.runRecorded rest
      (w, p :: taken)

/-- Nothing changes by taking notes. -/
theorem runRecorded_fst (s : Session) (ps : List (Int × Statement)) :
    (s.runRecorded ps).1 = s.runStatements ps := by
  induction ps generalizing s with
  | nil => rfl
  | cons p rest ih =>
    rw [runRecorded, runStatements]
    cases s.runStatement p.1 p.2 with
    | mk r t =>
      cases r with
      | error e => rfl
      | ok _ => exact ih t

/-- The statements that a call evaluates. -/
def evaluated (s : Session) : List (Int × Statement) :=
  (s.runRecorded s.pending).2

/-- **What a call comes to**, by the statements that wait before it. -/
inductive Ran (s : Session) : Work Unit → Prop
  /-- Every statement has a result. -/
  | finished {t : Session} (results : List StatementResult) :
    s.pending.map (fun p => s.outcome p.2) = results.map .ok →
    s.evaluated = s.pending → t.pending = [] → t.results = s.results ++ results →
    s.Unchanged t → Ran s (.ok (), t)
  /-- One has none: those before it have, and those after it wait. -/
  | broken {t : Session} {e : SessionError} {later : List (Int × Statement)}
    {p : Int × Statement} (earlier : List (Int × Statement)) (results : List StatementResult) :
    s.pending = earlier ++ p :: later →
    earlier.map (fun p => s.outcome p.2) = results.map .ok → s.outcome p.2 = .error e →
    s.evaluated = earlier ++ [p] → t.pending = later → t.results = s.results ++ results →
    s.Unchanged t → Ran s (.error e, t)

/-- The first of the statements that wait is taken off the list. -/
theorem filter_pending_eq {p : Int × Statement} {rest : List (Int × Statement)}
    (h : (p :: rest).map (·.1) |>.Nodup) : (p :: rest).filter (·.1 != p.1) = rest := by
  rw [List.map_cons, List.nodup_cons] at h
  rw [List.filter_cons_of_neg (by simp), List.filter_eq_self]
  intro q hq
  have hne : q.1 ≠ p.1 := fun heq => h.1 (heq ▸ List.mem_map_of_mem hq)
  simpa using hne

/-- A statement that has a result comes before the others. -/
theorem Ran.cons {p : Int × Statement} {rest : List (Int × Statement)} {r : StatementResult}
    {w : Work Unit} (hpending : s.pending = p :: rest) (hr : s.outcome p.2 = .ok r)
    (hrun : s.runStatement p.1 p.2 = (.ok (), t)) (ht : t.pending = rest)
    (hresults : t.results = s.results ++ [r]) (hunchanged : s.Unchanged t) (h : t.Ran w) :
    s.Ran w := by
  have hevaluated : s.evaluated = p :: t.evaluated := by
    rw [evaluated, evaluated, hpending, runRecorded, hrun, ht]
  cases h with
  | @finished u results hall heval hnone hres hsame =>
    rw [hunchanged.outcome_eq, ht] at hall
    refine .finished (r :: results) ?_ ?_ hnone ?_ (hunchanged.trans hsame)
    · rw [hpending, List.map_cons, List.map_cons, hr, hall]
    · rw [hevaluated, heval, ht, hpending]
    · rw [hres, hresults, List.append_assoc, List.singleton_append]
  | @broken u e later q earlier results hsplit hall he heval hlater hres hsame =>
    rw [hunchanged.outcome_eq] at hall he
    refine .broken (p :: earlier) (r :: results) ?_ ?_ he ?_ hlater ?_
      (hunchanged.trans hsame)
    · rw [hpending, ← ht, hsplit, List.cons_append]
    · rw [List.map_cons, List.map_cons, hr, hall]
    · rw [hevaluated, heval, List.cons_append]
    · rw [hres, hresults, List.append_assoc, List.singleton_append]

/-- **A call runs the statements that wait** up to the first that fails. -/
theorem ran_run (h : (s.pending.map (·.1)).Nodup) : s.Ran s.run := by
  rw [run]
  generalize hpending : s.pending = pending
  rw [hpending] at h
  induction pending generalizing s with
  | nil =>
    refine .finished [] ?_ ?_ hpending ?_ (.refl s) <;> simp [hpending, evaluated, runRecorded]
  | cons p rest ih =>
    have hmem : p.1 ∈ s.pending.map (·.1) := by simp [hpending]
    obtain ⟨t, hrun, ht, hresults, hunchanged⟩ := exists_runStatement_eq hmem p.2
    rw [hpending, filter_pending_eq h] at ht
    rw [runStatements, hrun]
    cases hout : s.outcome p.2 with
    | error e =>
      rw [hout] at hrun hresults
      have hevaluated : s.evaluated = [p] := by
        rw [evaluated, hpending, runRecorded, hrun]
        rfl
      exact .broken [] [] hpending rfl hout hevaluated ht hresults hunchanged
    | ok r =>
      rw [hout] at hrun hresults
      have hnodup : (rest.map (·.1)).Nodup := (List.nodup_cons.mp h).2
      exact .cons hpending hout hrun ht hresults hunchanged (ih hnodup ht)

/-! ### Calls until nothing fails -/

/-- **Calls that are repeated until none fails**, by the sessions that they are made on. -/
inductive RunsOut : Session → List Session → Session → Prop
  | last {s t : Session} : s.run = (.ok (), t) → RunsOut s [s] t
  | again {s t u : Session} {e : SessionError} {calls : List Session} :
    s.run = (.error e, t) → RunsOut t calls u → RunsOut s (s :: calls) u

/-- The results of statements that have one. -/
def resultsOf (s : Session) (statements : List (Int × Statement)) : List StatementResult :=
  statements.filterMap fun p => (s.outcome p.2).toOption

theorem resultsOf_of_map_eq {ps : List (Int × Statement)} {results : List StatementResult}
    (h : ps.map (fun p => s.outcome p.2) = results.map .ok) : s.resultsOf ps = results := by
  have hmap : s.resultsOf ps = (ps.map fun p => s.outcome p.2).filterMap Except.toOption := by
    rw [resultsOf, List.filterMap_map]
    rfl
  rw [hmap, h, List.filterMap_map]
  exact List.filterMap_some

/-- **Calls end, and together they evaluate every statement once.** -/
theorem exists_runsOut (h : (s.pending.map (·.1)).Nodup) : ∃ calls t, RunsOut s calls t ∧
    (∀ c ∈ calls, c.Ran c.run) ∧ calls.flatMap evaluated = s.pending ∧
    t.pending = [] ∧ t.results = s.results ++ s.resultsOf s.pending ∧ s.Unchanged t := by
  -- On the number of statements that wait: a call that fails takes up at least one of them.
  generalize hlength : s.pending.length = length
  induction length using Nat.strongRecOn generalizing s with
  | ind length ih =>
  have hran := ran_run h
  cases hrun : s.run with
  | mk r t =>
  rw [hrun] at hran
  cases hran with
  | @finished _ results hall heval hnone hres hsame =>
    refine ⟨[s], t, .last hrun, ?_, ?_, hnone, ?_, hsame⟩
    · simpa using ran_run h
    · rw [List.flatMap_singleton, heval]
    · rw [hres, resultsOf_of_map_eq hall]
  | @broken _ e later p earlier results hsplit hall he heval hlater hres hsame =>
    have hnodup : (t.pending.map (·.1)).Nodup := by
      rw [hsplit, List.map_append, List.map_cons] at h
      rw [hlater]
      exact (List.nodup_cons.mp (List.nodup_append.mp h).2.1).2
    have hshort : t.pending.length < length := by
      rw [← hlength, hsplit, hlater, List.length_append, List.length_cons]
      omega
    obtain ⟨calls, u, hcalls, hrans, hflat, hnone, hresults, hunchanged⟩ :=
      ih _ hshort hnodup rfl
    have hresultsOf : t.resultsOf t.pending = s.resultsOf later := by
      rw [resultsOf, resultsOf, hsame.outcome_eq, hlater]
    have hfailed : s.resultsOf (earlier ++ p :: later) = results ++ s.resultsOf later := by
      rw [resultsOf, List.filterMap_append, List.filterMap_cons, he, ← resultsOf_of_map_eq hall]
      rfl
    refine ⟨s :: calls, u, .again hrun hcalls, ?_, ?_, hnone, ?_, hsame.trans hunchanged⟩
    · exact List.forall_mem_cons.mpr ⟨ran_run h, hrans⟩
    · rw [List.flatMap_cons, heval, hflat, hlater, hsplit, List.append_assoc,
        List.singleton_append]
    · rw [hresults, hres, hresultsOf, hsplit, hfailed, List.append_assoc]

/-! ### Statements are added at the end -/

/-- A statement under a new number waits behind the others. -/
theorem putPending_eq_append {ps : List (Int × Statement)} (h : number ∉ ps.map (·.1)) :
    putPending number statement ps = ps ++ [(number, statement)] := by
  induction ps with
  | nil => rfl
  | cons p rest ih =>
    rw [List.map_cons, List.mem_cons, not_or] at h
    rw [putPending, if_neg (Ne.symm h.1), ih h.2]
    rfl

/-- A term that is added is not run yet. -/
theorem exists_add_eq {line : String} (files : Files) (hkind : statement.kind = .execution)
    (hinfer : Statement.infer line = .ok statement) (hnew : number ∉ s.pending.map (·.1)) :
    ∃ t, s.add files line number = (.ok (), t) ∧ t.pending = s.pending ++ [(number, statement)] ∧
      t.results = s.results ∧ s.Unchanged t := by
  rw [add, addWith, hinfer]
  dsimp only
  rw [performWith, hkind]
  refine ⟨_, rfl, ?_, rfl, ⟨rfl, rfl, rfl, rfl, rfl⟩⟩
  exact putPending_eq_append hnew

/-- **Every statement that waits is run once, in the order of adding, and across errors.** A term
that is added waits behind the others. A call evaluates the statements that wait up to the first
that fails: those before it have their results, those after it wait. Calls that are repeated until
none fails end, and together they evaluate what waited, each statement once and in order; a run
that spends its budget is a result, and the macros, the strategy and the budget are left as they
were. -/
theorem statements_run_once (h : (s.pending.map (·.1)).Nodup) :
    (∀ files line number statement, Statement.infer line = .ok statement →
      statement.kind = .execution → number ∉ s.pending.map (·.1) →
      ∃ t, s.add files line number = (.ok (), t) ∧
        t.pending = s.pending ++ [(number, statement)] ∧ t.results = s.results ∧
        s.Unchanged t) ∧
    s.Ran s.run ∧
    (∀ statement v, s.parse statement.text = .ok v →
      (s.strategy.run s.budget v).timedOut = true →
      s.outcome statement = .ok ⟨statement, s.strategy.run s.budget v, none⟩) ∧
    ∃ calls t, RunsOut s calls t ∧ (∀ c ∈ calls, c.Ran c.run) ∧
      (∀ c ∈ calls, (c.runRecorded c.pending).1 = c.run) ∧
      calls.flatMap evaluated = s.pending ∧ t.pending = [] ∧
      t.results = s.results ++ s.resultsOf s.pending ∧ s.Unchanged t := by
  obtain ⟨calls, t, hcalls, hrans, hflat, hnone, hresults, hunchanged⟩ := exists_runsOut h
  refine ⟨fun files _ _ _ hinfer hkind hnew => exists_add_eq files hkind hinfer hnew, ran_run h,
    fun _ _ => outcome_of_timedOut, calls, t, hcalls, hrans, fun c _ => ?_, hflat, hnone, hresults,
    hunchanged⟩
  exact c.runRecorded_fst c.pending

/-- Four terms wait: the second one has no normal form, and the third one cannot be read. -/
def fourWaiting : Session :=
  { fresh (.start false .plain) commandLineName true with
    table := .empty 3
    pending := [(1, .ofKind .execution "(λx. x) λy. y"),
      (2, .ofKind .execution "(λx. x x) λx. x x"), (4, .ofKind .execution "B"),
      (7, .ofKind .execution "λx. λy. x")] }

/-- The third one breaks the first call off, and the last one is left for the second call. -/
theorem statements_run_once_fourWaiting :
    fourWaiting.run.1.toOption = none ∧ fourWaiting.run.2.pending.map (·.1) = [7] ∧
    fourWaiting.run.2.results.map (·.trace.timedOut) = [false, true] ∧
    ∃ calls t, RunsOut fourWaiting calls t ∧ calls.flatMap evaluated = fourWaiting.pending ∧
      t.pending = [] := by
  obtain ⟨-, -, -, calls, t, hcalls, -, -, hflat, hnone, -⟩ :=
    statements_run_once (s := fourWaiting) (by decide)
  exact ⟨by decide +kernel, by decide +kernel, by decide +kernel, calls, t, hcalls, hflat, hnone⟩

end Session

end LambdaTrace
