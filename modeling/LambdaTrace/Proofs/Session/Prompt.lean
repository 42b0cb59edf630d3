import LambdaTrace.Proofs.Macros.Header
import LambdaTrace.Proofs.Report.Raised
import LambdaTrace.Proofs.Session.NullNames

/-!
# Sessions of the command line

A session of the command line is asked for one thing after another, and between two of them it is
at rest: no statement waits, no result is left, and nothing is being worked on
(`LambdaTrace.Session.AtRest`). A request that is refused leaves the statements listed that led
to the error, for the report; once this is written they are forgotten, and the session is at rest
again. So whatever was refused before, no request finds the session in disorder, and none fails
by a slip of the program. Only a statement that leads to a file name with a null character in it
comes to something that is no error of the program at all.
-/

namespace LambdaTrace

namespace Session

variable {files : Files} {s s' : Session} {Q : Prop}

/-! ### Steady sessions -/

/-- **A steady session of the command line**: its macros are as they were made, no file is being
loaded, no error is fatal, and the command line is listed. -/
structure Steady (s : Session) : Prop where
  coherent : s.Coherent
  path : s.path = commandLineName
  loading : s.loading = []
  fatal : s.reporter.fatal = false
  nodup : s.reporter.traceback.paths.Nodup
  listed : commandLineName ∈ s.reporter.traceback.paths

/-- **A session at rest**: nothing is being worked on, no statement waits, and no result is
left. -/
structure AtRest (s : Session) : Prop where
  steady : s.Steady
  idle : ∀ path, s.Idle path
  pending : s.pending = []
  results : s.results = []

/-- A session that has refused something, before this is reported. -/
structure Refused (s : Session) : Prop where
  steady : s.Steady
  pending : s.pending = []
  results : s.results = []

theorem AtRest.refused (h : s.AtRest) : s.Refused :=
  ⟨h.steady, h.pending, h.results⟩

/-- **How a request ends**: it is refused with an error that has a report, or it is granted; or it
leads to a name with a null character in it, for which there is a condition. -/
inductive Ends {α : Type} (Q : Prop) (P : Session → Prop) : Work α → Prop
  | refused {e : SessionError} {t : Session} : e.HasReport → t.Refused → Ends Q P (.error e, t)
  | nullInName {path : String} {t : Session} : Q → t.Refused →
    Ends Q P (.error (.nullInName path), t)
  | granted {a : α} {t : Session} : P t → Ends Q P (.ok a, t)

/-- Work that leaves a session as it has to keeps it steady, while the command line is listed. -/
theorem Steady.of_leaves {i : Bool} (h : s.Steady) (hleaves : Leaves i s s')
    (hcoherent : s'.Coherent) (hnodup : s'.reporter.traceback.paths.Nodup)
    (hlisted : commandLineName ∈ s'.reporter.traceback.paths) : s'.Steady :=
  ⟨hcoherent, hleaves.path.trans h.path, hleaves.loading.trans h.loading,
    hleaves.fatal.trans h.fatal, hnodup, hlisted⟩

/-- Only some of a session matters for it to be steady. -/
theorem Steady.congr (h : s.Steady) (hcoherent : s'.Coherent) (hpath : s'.path = s.path)
    (hloading : s'.loading = s.loading) (hfatal : s'.reporter.fatal = s.reporter.fatal)
    (hpaths : s'.reporter.traceback.paths = s.reporter.traceback.paths) : s'.Steady :=
  ⟨hcoherent, hpath.trans h.path, hloading.trans h.loading, hfatal.trans h.fatal,
    hpaths ▸ h.nodup, hpaths ▸ h.listed⟩

theorem Steady.tidy (h : s.Steady) (hidle : ∀ path, s.Idle path) : Tidy files s :=
  ⟨h.nodup, fun q v hq => absurd hq (hidle q v)⟩

/-! ### Adding a statement -/

/-- **What waits once a statement was added** to the main file, given how it ended. -/
inductive Waits (s : Session) (number : Int) (statement : Statement) : Work Unit → Prop
  /-- An import, and whatever failed, leaves nothing to wait. -/
  | nothing {w : Work Unit} : w.2.pending = s.pending → w.2.results = s.results →
    Waits s number statement w
  /-- A term waits to be run. -/
  | execution {t : Session} : statement.kind = .execution →
    t.pending = putPending number statement s.pending → t.results = s.results →
    Waits s number statement (.ok (), t)
  /-- The run of a definition is a result. -/
  | definition {t : Session} {n : String} {trace : Trace} :
    s.table.define statement.text = (t.table, .ok (n, trace)) → t.pending = s.pending →
    t.results = s.results ++ [⟨statement, trace, none⟩] → Waits s number statement (.ok (), t)

theorem waits_add (files : Files) (s : Session) {line : String} {statement : Statement}
    (hinfer : Statement.infer line = .ok statement) (number : Int) :
    Waits s number statement (s.add files line number) := by
  rw [add_eq, addIn, addWith, hinfer]
  dsimp only
  rw [performWith]
  split
  · have hleaves := Leaves.load files (s.report (·.registerLine s.path line number))
      (files.imported s.path statement.importPath) true
    generalize load files _ _ true = w at hleaves ⊢
    obtain ⟨e | a, t⟩ := w
    · exact .nothing (hleaves.pending rfl) (hleaves.results rfl)
    · exact .nothing (hleaves.pending rfl) (hleaves.results rfl)
  · rw [addDefinition, define]
    split
    · exact .nothing rfl rfl
    · rename_i hdef
      exact .definition hdef rfl rfl
  · rename_i hkind
    exact .execution hkind rfl rfl

/-- A statement that cannot be told leaves nothing to wait. -/
theorem add_of_infer_error (files : Files) (s : Session) {line : String} {e : StatementError}
    (hinfer : Statement.infer line = .error e) (number : Int) :
    s.add files line number =
      (.error (.statement e), s.report (·.registerLine s.path line number)) := by
  rw [add_eq, addIn, addWith, hinfer]

/-- A run is concluded, or there is an error with a report, and only the output changes. -/
theorem conclude_cases (s : Session) (statement : Statement) (trace : Trace) :
    (∃ e : SessionError, e.HasReport ∧ s.conclude statement trace = (.error e, s)) ∨
    ∃ resugared f, (∀ h : Reporter, (f h).traceback = h.traceback) ∧
      s.conclude statement trace = (.ok resugared, s.report f) := by
  rw [conclude]
  split
  · rw [timeoutWarning_eq]
    exact Or.inr ⟨none, _, fun h => h.traceback_warn _, rfl⟩
  · split
    · split
      · rename_i cycle _
        exact Or.inl ⟨.table (.circular cycle), trivial, rfl⟩
      · exact Or.inr ⟨_, id, fun _ => rfl, rfl⟩
    · exact Or.inr ⟨none, id, fun _ => rfl, rfl⟩

/-- **The one statement that waits is run**, and does not wait any more. -/
theorem run_cases {statement : Statement} {number : Int}
    (hpending : s.pending = [(number, statement)]) :
    (∃ e t, s.run = (.error e, t) ∧ e.HasReport ∧ t.pending = [] ∧
      t.results = s.results ∧ t.reporter.traceback =
        s.reporter.traceback.set s.path (some (statement.text, number))) ∨
    ∃ t trace resugared, s.run = (.ok (), t) ∧ t.pending = [] ∧
      t.results = s.results ++ [⟨statement, trace, resugared⟩] ∧ t.reporter.traceback =
        (s.reporter.traceback.set s.path (some (statement.text, number))).set s.path none := by
  have hdrop : ∀ t : Session, t.pending = s.pending →
      t.dropPending number = (.ok (), { t with pending := [] }) := by
    intro t ht
    rw [dropPending, ht, hpending]
    simp
  rw [run, hpending, runStatements, runStatement, evaluate]
  obtain ⟨started, hstarted⟩ :
      ∃ t, t = s.report (·.registerLine s.path statement.text number) := ⟨_, rfl⟩
  rw [← hstarted]
  have hwaits : started.pending = s.pending := by
    rw [hstarted]
    rfl
  cases started.parse statement.text with
  | error e =>
    dsimp only
    rw [hdrop started hwaits]
    refine Or.inl ⟨.reading e, _, rfl, trivial, rfl, ?_, ?_⟩ <;> rw [hstarted] <;> rfl
  | ok u =>
    dsimp only
    rw [hdrop { started with current := some u } hwaits]
    obtain ⟨t, ht⟩ : ∃ t : Session, t = { started with current := some u, pending := [] } :=
      ⟨_, rfl⟩
    have hfacts : t.pending = [] ∧ t.results = s.results ∧ t.path = s.path ∧
        t.reporter.traceback = s.reporter.traceback.set s.path (some (statement.text, number)) := by
      rw [ht, hstarted]
      exact ⟨rfl, rfl, rfl, rfl⟩
    obtain ⟨hpending', hresults, hpath, htraceback⟩ := hfacts
    dsimp only [Work.andThen]
    rw [← ht]
    rcases t.conclude_cases statement (started.strategy.run started.budget u) with
      ⟨e, he, hconclude⟩ | ⟨resugared, f, hf, hconclude⟩
    · rw [hconclude]
      exact Or.inl ⟨e, t, rfl, he, hpending', hresults, htraceback⟩
    · rw [hconclude]
      refine Or.inr ⟨_, started.strategy.run started.budget u, resugared, rfl, hpending', ?_, ?_⟩
      · exact congrArg (· ++ _) hresults
      · have hkept : (f t.reporter).traceback.set t.path none =
            (s.reporter.traceback.set s.path (some (statement.text, number))).set s.path none := by
          rw [hf, htraceback, hpath]
        exact hkept

/-! ### A statement at rest -/

/-- Whether the definitions among the results are found. -/
def Finds (s : Session) : Prop :=
  ∀ r ∈ s.results, r.statement.kind = .definition →
    ∃ d, s.table.get? (r.statement.definedName?.getD "") = some d

/-- **A session to which a statement was added**: a term waits to be run, or nothing does. -/
structure Added (s : Session) : Prop where
  steady : s.Steady
  idle : ∀ path, s.Idle path
  finds : s.Finds
  pending : s.pending = [] ∨ ∃ number statement, statement.kind = .execution ∧
    s.pending = [(number, statement)] ∧ s.results = []

/-- A session whose results are to be shown. -/
structure Shown (s : Session) : Prop where
  steady : s.Steady
  idle : ∀ path, s.Idle path
  finds : s.Finds
  pending : s.pending = []

/-- A statement at the prompt is met in good order. -/
theorem AtRest.proper (h : s.AtRest) (files : Files) (line : String) (number : Int) :
    Frame.Proper files ⟨s, commandLineName, false, line, number⟩ where
  tidy := h.steady.tidy h.idle
  busy := Or.inl rfl
  idle := h.idle _
  listed := h.steady.listed

/-- A statement at the prompt, as it is added. -/
theorem AtRest.add_eq_run (h : s.AtRest) (files : Files) (line : String) (number : Int) :
    s.add files line number = Frame.run files ⟨s, commandLineName, false, line, number⟩ := by
  rw [add_eq, h.steady.path]
  rfl

theorem AtRest.lists_add (h : s.AtRest) (hfiles : files.IsRooted) (line : String) (number : Int) :
    Lists files s (s.add files line number) := by
  rw [h.add_eq_run]
  exact (h.proper files line number).lists hfiles

theorem AtRest.steady_add (h : s.AtRest) (hfiles : files.IsRooted) (line : String) (number : Int) :
    (s.add files line number).2.Steady := by
  have hleaves : Leaves false s (s.add files line number).2 := Leaves.after (.add files line number)
  have hlists := h.lists_add hfiles line number
  exact h.steady.of_leaves hleaves (h.steady.coherent.after (.add files line number)) hlists.nodup
    (hlists.keeps.mem (Or.inl rfl) h.steady.listed)

/-- **A statement is added to a session at rest.** -/
theorem AtRest.add (h : s.AtRest) (hfiles : files.IsRooted) (line : String) (number : Int) :
    Ends (Frame.MeetsNull files ⟨s, commandLineName, false, line, number⟩) Added
      (s.add files line number) := by
  have hsteady := h.steady_add hfiles line number
  have hlists := h.lists_add hfiles line number
  cases hinfer : Statement.infer line with
  | error e =>
    rw [add_of_infer_error files s hinfer] at hsteady ⊢
    exact .refused trivial ⟨hsteady, h.pending, h.results⟩
  | ok statement =>
    have hwaits := waits_add files s hinfer number
    have hrun := h.add_eq_run files line number
    generalize s.add files line number = w at hsteady hlists hwaits hrun ⊢
    have hidle : w.1 = .ok () → ∀ path, w.2.Idle path :=
      fun hok path v hv => h.idle path v ((hlists.active hok path v).mp hv)
    have hnone : w.2.results = s.results → w.2.Finds := by
      intro hresults r hr
      rw [hresults, h.results] at hr
      cases hr
    cases hwaits with
    | nothing hpending hresults =>
      obtain ⟨e | a, t⟩ := w
      · have hrefused : t.Refused :=
          ⟨hsteady, hpending.trans h.pending, hresults.trans h.results⟩
        rcases SessionError.hasReport_or hlists.ne_slip with hreport | ⟨path, rfl⟩
        · exact .refused hreport hrefused
        · exact .nullInName (Frame.exists_run_eq_nullInName_iff.mp ⟨path, t, hrun.symm⟩) hrefused
      · exact .granted ⟨hsteady, hidle rfl, hnone hresults, Or.inl (hpending.trans h.pending)⟩
    | execution hkind hpending hresults =>
      rw [h.pending] at hpending
      exact .granted ⟨hsteady, hidle rfl, hnone hresults,
        Or.inr ⟨number, statement, hkind, hpending, hresults.trans h.results⟩⟩
    | @definition t n trace hdef hpending hresults =>
      refine .granted ⟨hsteady, hidle rfl, fun r hr _ => ?_, Or.inl (hpending.trans h.pending)⟩
      rw [hresults, h.results] at hr
      obtain rfl := List.mem_singleton.mp hr
      obtain ⟨d, hname, hd⟩ := MacroTable.exists_get?_definedName? h.steady.coherent.isMade hdef
        statement.kind statement.line
      exact ⟨d, by rw [hname]; exact hd⟩

/-- **What was added is run.** -/
theorem Added.run (h : s.Added) : Ends Q Shown s.run := by
  rcases h.pending with hpending | ⟨number, statement, hkind, hpending, hresults⟩
  · have hrun : s.run = (.ok (), s) := by
      rw [Session.run, hpending]
      rfl
    rw [hrun]
    exact .granted ⟨h.steady, h.idle, h.finds, hpending⟩
  · have hcoherent : s.run.2.Coherent := h.steady.coherent.after .run
    have hleaves : Leaves false s s.run.2 := Leaves.after .run
    have hset : ∀ line, (s.reporter.traceback.set s.path line).paths.Nodup :=
      fun line => Traceback.nodup_paths_set h.steady.nodup s.path line
    have hsteady : s.run.2.reporter.traceback.paths.Nodup →
        commandLineName ∈ s.run.2.reporter.traceback.paths → s.run.2.Steady :=
      h.steady.of_leaves hleaves hcoherent
    rcases run_cases hpending with
      ⟨e, t, hrun, he, hdone, hsame, htraceback⟩ |
      ⟨t, trace, resugared, hrun, hdone, hsame, htraceback⟩
    · rw [hrun] at hsteady ⊢
      rw [htraceback] at hsteady
      exact .refused he ⟨hsteady (hset _) (Traceback.mem_paths_set.mpr (Or.inr h.steady.listed)),
        hdone, hsame.trans hresults⟩
    · rw [hrun] at hsteady ⊢
      rw [htraceback] at hsteady
      refine .granted ⟨hsteady (Traceback.nodup_paths_set (hset _) _ _) ?_, ?_, ?_, hdone⟩
      · exact Traceback.mem_paths_set.mpr
          (Or.inr (Traceback.mem_paths_set.mpr (Or.inr h.steady.listed)))
      · intro path v hv
        rw [htraceback, Traceback.mem_set (hset _), Traceback.mem_set h.steady.nodup] at hv
        rcases hv with ⟨-, hv⟩ | ⟨hne, ⟨hpath, -⟩ | ⟨-, hv⟩⟩
        · cases hv
        · exact hne hpath
        · exact h.idle path v hv
      · intro r hr hdefinition
        rw [hsame, hresults] at hr
        obtain rfl := List.mem_singleton.mp hr
        rw [hkind] at hdefinition
        cases hdefinition

/-! ### Other requests at rest -/

/-- Only the strategy, the macros and the current term may change. -/
theorem AtRest.moved (h : s.AtRest) (hcoherent : s'.Coherent)
    (heq : s' = { s with strategy := s'.strategy, table := s'.table, current := s'.current }) :
    s'.AtRest := by
  rw [heq] at hcoherent ⊢
  exact ⟨h.steady.congr hcoherent rfl rfl rfl rfl, h.idle, h.pending, h.results⟩

theorem AtRest.ends {α : Type} {w : Work α} (h : w.2.AtRest)
    (herror : ∀ e, w.1 = .error e → e.HasReport) : Ends Q AtRest w := by
  obtain ⟨e | a, t⟩ := w
  · exact .refused (herror e rfl) h.refused
  · exact .granted h

theorem setStrategy_snd (s : Session) (name : String) :
    (s.setStrategy name).2 = { s with strategy := (s.setStrategy name).2.strategy } := by
  rw [Session.setStrategy]
  split <;> rfl

theorem addPrelude_snd (s : Session) :
    s.addPrelude.2 = { s with table := s.addPrelude.2.table } := by
  rw [addPrelude]
  split <;> rfl

theorem AtRest.setStrategy (h : s.AtRest) (name : String) :
    Ends Q AtRest (s.setStrategy name) := by
  have hcoherent := h.steady.coherent.setStrategy name
  refine AtRest.ends (h.moved hcoherent ?_) fun e he => ?_
  · rw [setStrategy_snd]
  · rw [Session.setStrategy] at he
    split at he <;> cases he
    exact trivial

theorem AtRest.setBudget (h : s.AtRest) (request : BudgetRequest) :
    Ends Q AtRest (s.setBudget request) := by
  have hcoherent := h.steady.coherent.setBudget request
  refine AtRest.ends (h.moved hcoherent ?_) fun e he => ?_
  · rcases setBudget_snd s request with hsame | ⟨budget, hbudget⟩
    · rw [hsame]
    · rw [hbudget]
  · simp only [Session.setBudget] at he
    split at he
    · split at he <;> cases he
      exact trivial
    all_goals
      cases he
      exact trivial

theorem AtRest.macroList (h : s.AtRest) : Ends Q AtRest s.macroList := by
  have hcoherent := h.steady.coherent.macroList
  refine AtRest.ends (h.moved hcoherent ?_) fun e he => ?_
  · rw [Session.macroList]
    split
    · rfl
    · split <;> rfl
  · rw [Session.macroList] at he
    split at he
    · cases he
      exact trivial
    · split at he <;> cases he
      exact trivial

theorem AtRest.checkGuess (h : s.AtRest) (text : String) : Ends Q AtRest (s.checkGuess text) := by
  have hcoherent := h.steady.coherent.checkGuess text
  refine AtRest.ends (h.moved hcoherent ?_) fun e he => ?_
  · rw [Session.checkGuess]
    split
    · rfl
    · split
      · rfl
      · rfl
      · split <;> rfl
  · have hstep : ∀ e, s.step = .error e → e.HasReport := by
      intro e he
      rw [step] at he
      split at he <;> cases he
      exact trivial
    rw [Session.checkGuess] at he
    split at he
    · cases he
      exact trivial
    · split at he
      · rename_i hfails
        cases he
        exact hstep e hfails
      · cases he
      · split at he <;> cases he

/-! ### Reporting, and starting -/

/-- On the command line no error is fatal. -/
theorem Refused.verdict (h : s.Refused) (otherwise : Verdict) :
    s.reporter.verdict otherwise = otherwise := by
  rw [Reporter.verdict, h.steady.fatal]
  rfl

/-- **Once an error is reported, the session is at rest again.** -/
theorem Refused.throw (h : s.Refused) (r : Report) :
    AtRest { s with reporter := s.reporter.throw r } := by
  have hpaths := Traceback.paths_clear s.reporter.traceback
  rw [Reporter.throw_eq h.steady.fatal]
  exact ⟨h.steady.congr (h.steady.coherent.congr rfl rfl) rfl rfl rfl hpaths,
    fun path v => Traceback.notMem_clear, h.pending, h.results⟩

/-- **A session of the command line starts at rest.** -/
theorem atRest_start {fatal : Bool} {paint : Painter} {options : Options}
    (h : start files (.start fatal paint) commandLineName options = (.ok (), s)) :
    s.AtRest := by
  have hcoherent := coherent_start files (.start fatal paint) commandLineName options
  have hloading := loading_start files (.start fatal paint) commandLineName options
  rw [h] at hcoherent hloading
  obtain ⟨_, s₁, hstrategy, h⟩ := Work.andThen_eq_ok h
  obtain ⟨_, s₂, hbudget, h⟩ := Work.andThen_eq_ok h
  obtain ⟨_, s₃, hprelude, h⟩ := Work.andThen_eq_ok h
  obtain rfl : s₃ = s := congrArg Prod.snd h
  -- the settings and the prelude change nothing but the strategy and the macros
  have h₁ : s₁ = { fresh (.start fatal paint) commandLineName options.resugars with
      strategy := s₁.strategy } := by
    split at hstrategy
    · cases hstrategy
      rfl
    · rename_i name _
      have hset : Prod.snd (setStrategy _ name) = s₁ := congrArg Prod.snd hstrategy
      rw [← hset]
      exact setStrategy_snd _ name
  have h₂ : s₂ = { s₁ with table := s₂.table } := by
    split at hbudget
    · cases hbudget
      rfl
    · rename_i request _
      have hset : Prod.snd (s₁.setBudget request) = s₂ := congrArg Prod.snd hbudget
      rw [← hset]
      rcases setBudget_snd s₁ request with hsame | ⟨budget, hbudget'⟩
      · rw [hsame]
      · rw [hbudget']
  have h₃ : s₃ = { s₂.report ({ · with fatal := false }) with table := s₃.table } := by
    split at hprelude
    · have hset : Prod.snd (addPrelude _) = s₃ := congrArg Prod.snd hprelude
      rw [← hset]
      exact addPrelude_snd _
    · cases hprelude
      rfl
  have hpath : s₃.path = commandLineName := by rw [h₃, h₂, h₁]; rfl
  have htraceback : s₃.reporter.traceback = [(commandLineName, none)] := by rw [h₃, h₂, h₁]; rfl
  refine ⟨⟨hcoherent, hpath, hloading, by rw [h₃]; rfl, ?_, ?_⟩, fun path v hv => ?_, ?_, ?_⟩
  · rw [htraceback]
    exact List.nodup_singleton _
  · rw [htraceback]
    exact List.mem_singleton_self _
  · rw [htraceback] at hv
    cases List.mem_singleton.mp hv
  · rw [h₃, h₂, h₁]
    rfl
  · rw [h₃, h₂, h₁]
    rfl

end Session

end LambdaTrace
