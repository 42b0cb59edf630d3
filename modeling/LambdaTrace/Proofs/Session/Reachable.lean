import LambdaTrace.Proofs.Macros.History
import LambdaTrace.Proofs.Reading.Spelled
import LambdaTrace.Session.Run

/-!
# The sessions that can be reached

What a session is asked for changes its macros, its settings and its current term, and each
of them changes without regard to the others: a term stays the current one while the macros
in it are redefined and the strategy under which it was read is given up. Still two things
are never lost. The table of macros is as it was made, and no macro is ever taken out of it;
and the current term, read once and then followed step by step, has names that can be read
and macros that the table knows. That is what a session is called coherent for
(`LambdaTrace.Session.Coherent`), and every session that can be reached from a start is
(`LambdaTrace.Session.coherent_afterAll`), whatever files are loaded on the way.
-/

namespace LambdaTrace

namespace MacroTable

variable {t t' : MacroTable} {n : String}

/-! ### Tables that grow -/

theorem isSome_source?_iff : (t.source? n).isSome = true ↔ n ∈ t.names := by
  rw [source?, Option.isSome_map, isSome_get?_iff]

/-- The terms of a settled table have names that can be read, and macros of the table. -/
theorem Settled.spelled_of_mem_terms (h : t.Settled) :
    ∀ d ∈ t.definitions, ∀ v ∈ d.terms, v.Spelled (· ∈ t.names) := by
  refine h.forall_mem_terms (fun u strategy hread _ hrefs => ?_)
    fun _ _ _ hu hs => hu.next (Term.admits_of_step hs)
  have hknown : u.Known (t.resolve strategy) :=
    fun n hn => isSome_resolve_iff.mpr (isSome_resolve_iff.mp (hread.known n hn))
  refine (hread.resolveBy hknown).spelled fun n hn e he => ⟨?_, ?_⟩
  · exact isSome_resolve_iff.mp (Option.isSome_of_eq_some he)
  · exact hrefs n (by simpa using hn) e he

/-- What is read with the macros of a table is spelled. -/
theorem IsMade.spelled_of_parse (h : t.IsMade) {strategy : Strategy} {text : String} {u : Term}
    (hu : parse (t.resolve strategy) text = .ok u) : u.Spelled (· ∈ t.names) := by
  obtain ⟨budget, h'⟩ := h
  refine (Term.readable_of_parse hu).spelled fun n _ e he => ?_
  obtain ⟨d, hd, rfl⟩ := Option.map_eq_some_iff.mp he
  have hterms := h'.spelled_of_mem_terms d (mem_of_get? hd) _ (d.expansionFor_mem_terms strategy)
  exact ⟨isSome_get?_iff.mp (Option.isSome_of_eq_some hd), hterms⟩

/-- **Whether a table has grown** from another one: its definitions are as they were made, and
no name was taken out. -/
structure GrownFrom (t t' : MacroTable) : Prop where
  isMade : t'.IsMade
  mem_names : ∀ n ∈ t.names, n ∈ t'.names

theorem IsMade.grown_define (h : t.IsMade) (source : String) :
    t.GrownFrom (t.define source).1 := by
  rcases h.legible.define_cases source with hsame | ⟨n, trace, u, hu⟩
  · rw [hsame]
    exact ⟨h, fun _ hn => hn⟩
  · exact ⟨hu.settled.isMade, fun m hm => (hu.mem_names m).mpr (Or.inl hm)⟩

theorem IsMade.grown_recompile (h : t.IsMade) : t.GrownFrom t.recompile.1 := by
  obtain ⟨t', hrec, hsettled, -, hsource⟩ := h.exists_recompile
  rw [hrec]
  refine ⟨hsettled.isMade, fun n hn => ?_⟩
  rw [← isSome_source?_iff, hsource]
  exact isSome_source?_iff.mpr hn

theorem IsMade.grown_defineAll (h : t.IsMade) {sources : List String}
    (hall : t.defineAll sources = .ok t') : t.GrownFrom t' := by
  induction sources generalizing t with
  | nil =>
    cases hall
    exact ⟨h, fun _ hn => hn⟩
  | cons source sources ih =>
    have hfirst := h.grown_define source
    rw [defineAll] at hall
    split at hall
    · cases hall
    · rename_i t₁ r hdef
      rw [hdef] at hfirst
      obtain ⟨hmade, hnames⟩ := ih hfirst.isMade hall
      exact ⟨hmade, fun n hn => hnames n (hfirst.mem_names n hn)⟩

end MacroTable

namespace Session

variable {s s' : Session}

/-- A budget that is asked for is set, or nothing is changed. -/
theorem setBudget_snd (s : Session) (request : BudgetRequest) : (s.setBudget request).2 = s ∨
    ∃ budget, (s.setBudget request).2 = { s with table := { s.table with budget } } := by
  cases request with
  | number n =>
    simp only [setBudget]
    split
    · exact Or.inr ⟨_, rfl⟩
    · exact Or.inl rfl
  | text t =>
    simp only [setBudget]
    cases integer? t with
    | none => exact Or.inl rfl
    | some n =>
      dsimp only
      split
      · exact Or.inr ⟨_, rfl⟩
      · exact Or.inl rfl

/-! ### Coherent sessions -/

/-- **A coherent session**: its macros are as they were made, and its current term has names
that can be read, and macros of the table. -/
structure Coherent (s : Session) : Prop where
  isMade : s.table.IsMade
  spelled : ∀ t, s.current = some t → t.Spelled (· ∈ s.table.names)

namespace Coherent

/-- Only the macros and the current term matter. -/
theorem congr (h : s.Coherent) (htable : s'.table = s.table) (hcurrent : s'.current = s.current) :
    s'.Coherent where
  isMade := htable ▸ h.isMade
  spelled := by
    rw [htable, hcurrent]
    exact h.spelled

/-- The table may grow. -/
theorem grown (h : s.Coherent) {t : MacroTable} (ht : s.table.GrownFrom t) :
    Session.Coherent { s with table := t } where
  isMade := ht.isMade
  spelled u hu := (h.spelled u hu).mono ht.mem_names

/-- Another term may become the current one. -/
theorem moved (h : s.Coherent) {t : Term} (ht : t.Spelled (· ∈ s.table.names)) :
    Session.Coherent { s with current := some t } where
  isMade := h.isMade
  spelled _ hu := Option.some.inj hu ▸ ht

/-! ### Settings, macros and terms -/

theorem setStrategy (h : s.Coherent) (name : String) : (s.setStrategy name).2.Coherent := by
  rw [Session.setStrategy]
  split
  · exact h
  · exact h.congr rfl rfl

theorem setBudget (h : s.Coherent) (request : BudgetRequest) :
    (s.setBudget request).2.Coherent := by
  rcases setBudget_snd s request with hsame | ⟨budget, hbudget⟩
  · rwa [hsame]
  · rw [hbudget]
    exact h.grown ⟨h.isMade.after (.setBudget budget), fun _ hn => hn⟩

theorem define (h : s.Coherent) (text : String) : (s.define text).2.Coherent := by
  have hgrown := h.grown (h.isMade.grown_define text)
  rw [Session.define]
  split <;> simp_all

theorem macroList (h : s.Coherent) : s.macroList.2.Coherent := by
  have hgrown := h.grown h.isMade.grown_recompile
  rw [Session.macroList]
  split
  · simp_all
  · split <;> simp_all

theorem evaluate (h : s.Coherent) (text : String) : (s.evaluate text).2.Coherent := by
  rw [Session.evaluate]
  split
  · exact h
  · rename_i t ht
    exact h.moved (h.isMade.spelled_of_parse ht)

/-- The next step of a coherent session is to a term that can be read. -/
theorem spelled_next (h : s.Coherent) {step : Step} (hstep : s.step = .ok (some step)) :
    step.next.Spelled (· ∈ s.table.names) := by
  rw [Session.step] at hstep
  split at hstep
  · cases hstep
  · rename_i t ht
    exact (h.spelled t ht).next (Term.admits_of_step (Except.ok.inj hstep))

theorem checkGuess (h : s.Coherent) (text : String) : (s.checkGuess text).2.Coherent := by
  rw [Session.checkGuess]
  split
  · exact h
  · split
    · exact h
    · exact h
    · rename_i step hstep
      split
      · exact h.moved (h.spelled_next hstep)
      · exact h

/-! ### Running statements -/

theorem conclude (h : s.Coherent) (statement : Statement) (trace : Trace) :
    (s.conclude statement trace).2.Coherent := by
  rw [Session.conclude]
  split
  · split
    · exact h
    · exact h.congr rfl rfl
  · split
    · split <;> exact h
    · exact h

theorem dropPending (h : s.Coherent) (number : Int) : (s.dropPending number).2.Coherent := by
  rw [Session.dropPending]
  split
  · exact h.congr rfl rfl
  · exact h

theorem runStatement (h : s.Coherent) (number : Int) (statement : Statement) :
    (s.runStatement number statement).2.Coherent := by
  have hstarted : (s.report (·.registerLine s.path statement.text number)).Coherent :=
    h.congr rfl rfl
  have hevaluate := hstarted.evaluate statement.text
  rw [Session.runStatement]
  dsimp only
  split
  · rename_i heq
    rw [heq] at hevaluate
    exact Work.andThen_keeps (hevaluate.dropPending number) fun _ _ hs => hs
  · rename_i heq
    rw [heq] at hevaluate
    refine Work.andThen_keeps (hevaluate.dropPending number) fun _ s hs => ?_
    exact Work.andThen_keeps (hs.conclude statement _) fun _ _ hs => hs.congr rfl rfl

theorem runStatements (h : s.Coherent) (statements : List (Int × Statement)) :
    (s.runStatements statements).2.Coherent := by
  induction statements generalizing s with
  | nil => exact h
  | cons p statements ih => exact Work.andThen_keeps (h.runStatement p.1 p.2) fun _ _ hs => ih hs

theorem pop (h : s.Coherent) {r : StatementResult} (hpop : s.pop? = some (r, s')) :
    s'.Coherent := by
  rw [Session.pop?] at hpop
  split at hpop
  · cases hpop
  · cases hpop
    exact h.congr rfl rfl

/-! ### Loading files -/

section Adding

variable {importFile : Session → String → Work Unit}

/-- Statements are carried out coherently if files are imported so. -/
theorem performWith (himport : ∀ s path, Session.Coherent s → (importFile s path).2.Coherent)
    (files : Files) (h : s.Coherent) (path : String) (imported : Bool) (statement : Statement)
    (number : Int) :
    (Session.performWith importFile files s path imported statement number).2.Coherent := by
  rw [Session.performWith]
  split
  · exact himport _ _ h
  · refine Work.andThen_keeps (h.define statement.text) fun _ _ hs => ?_
    cases imported
    · exact hs.congr rfl rfl
    · exact hs
  · unfold Session.addExecution
    split <;> exact h.congr rfl rfl

theorem addWith (himport : ∀ s path, Session.Coherent s → (importFile s path).2.Coherent)
    (files : Files) (h : s.Coherent) (path : String) (imported : Bool) (line : String)
    (number : Int) : (Session.addWith importFile files s path imported line number).2.Coherent := by
  have hstarted : (s.report (·.registerLine path line number)).Coherent := h.congr rfl rfl
  rw [Session.addWith]
  split
  · exact hstarted
  · rename_i statement _
    exact Work.andThen_keeps (performWith himport files hstarted path imported statement number)
      fun _ _ hs => hs.congr rfl rfl

theorem addAllWith (himport : ∀ s path, Session.Coherent s → (importFile s path).2.Coherent)
    (files : Files) (h : s.Coherent) (path : String) (imported : Bool)
    (lines : List (String × Int)) :
    (Session.addAllWith importFile files s path imported lines).2.Coherent := by
  induction lines generalizing s with
  | nil => exact h
  | cons p lines ih =>
    exact Work.andThen_keeps (addWith himport files h path imported p.1 p.2) fun _ _ hs => ih hs

end Adding

theorem leaveFile (h : s.Coherent) : s.leaveFile.2.Coherent := by
  rw [Session.leaveFile]
  split
  · exact h
  · exact h.congr rfl rfl

theorem unlistFile (h : s.Coherent) (path : String) : (s.unlistFile path).2.Coherent := by
  rw [Session.unlistFile]
  split
  · exact h.congr rfl rfl
  · exact h

/-- **Loading a file keeps a session coherent**, however the files import each other. -/
theorem loadUnder (h : s.Coherent) (files : Files) (stack : List String) (path : String)
    (imported : Bool) : (Session.loadUnder files stack s path imported).2.Coherent := by
  -- on the number of files that are not on the stack
  induction hn : unvisited files.names stack using Nat.strong_induction_on
    generalizing s stack path imported with
  | _ n ih =>
    rw [Session.loadUnder]
    dsimp only
    split
    · exact h
    · rename_i hstack
      split
      · exact h
      · rename_i text htext
        have hlt : unvisited files.names (stack ++ [files.absolute path]) < n := by
          rw [← hn]
          exact unvisited_lt (fun _ h => List.mem_append_left _ h)
            (Files.absolute_mem_names htext) hstack (by simp)
        have hentered : (s.enterFile path (files.absolute path)).Coherent := h.congr rfl rfl
        have himport : ∀ s other, Session.Coherent s →
            (Session.loadUnder files (stack ++ [files.absolute path]) s other true).2.Coherent :=
          fun s other hs => ih _ hlt hs _ other true rfl
        have hadded := addAllWith himport files hentered path imported
          (Grouping.statements (linesOf text))
        split
        · rename_i heq
          rw [heq] at hadded
          exact Work.andThen_keeps hadded.leaveFile fun _ _ hs => hs
        · rename_i heq
          rw [heq] at hadded
          exact Work.andThen_keeps hadded.leaveFile fun _ _ hs => hs.unlistFile path

/-! ### Starting -/

theorem addPrelude (h : s.Coherent) : s.addPrelude.2.Coherent := by
  rw [Session.addPrelude]
  split
  · exact h
  · rename_i t ht
    exact h.grown (h.isMade.grown_defineAll ht)

end Coherent

theorem coherent_fresh (reporter : Reporter) (path : String) (resugars : Bool) :
    (fresh reporter path resugars).Coherent where
  isMade := (MacroTable.settled_empty defaultBudget).isMade
  spelled t ht := by cases ht

/-- **A session starts coherently.** -/
theorem coherent_start (files : Files) (reporter : Reporter) (path : String)
    (options : Options) : (start files reporter path options).2.Coherent := by
  have hfresh := coherent_fresh reporter path options.resugars
  refine Work.andThen_keeps ?_ fun _ s hs => Work.andThen_keeps ?_ fun _ s hs =>
    Work.andThen_keeps ?_ fun _ s hs => ?_
  · split
    · exact hfresh
    · exact hfresh.setStrategy _
  · split
    · exact hs
    · exact hs.setBudget _
  · have hinteractive : (if path == commandLineName then s.report ({ · with fatal := false })
        else s).Coherent := by
      split
      · exact hs.congr rfl rfl
      · exact hs
    split
    · exact hinteractive.addPrelude
    · exact hinteractive
  · split
    · exact hs
    · exact hs.loadUnder files s.loading path false

/-! ### Requests -/

/-- What can be asked of a session. -/
inductive Request where
  | define (text : String)
  | setStrategy (name : String)
  | setBudget (request : BudgetRequest)
  | evaluate (text : String)
  | guess (text : String)
  | listMacros
  | add (files : Files) (line : String) (number : Int)
  | load (files : Files) (path : String) (imported : Bool)
  | run
  | pop

/-- The session after a request, be it granted or refused. -/
def after (s : Session) : Request → Session
  | .define text => (s.define text).2
  | .setStrategy name => (s.setStrategy name).2
  | .setBudget request => (s.setBudget request).2
  | .evaluate text => (s.evaluate text).2
  | .guess text => (s.checkGuess text).2
  | .listMacros => s.macroList.2
  | .add files line number => (s.add files line number).2
  | .load files path imported => (s.load files path imported).2
  | .run => s.run.2
  | .pop => (s.pop?.map (·.2)).getD s

/-- The session after some requests, one after the other. -/
def afterAll (s : Session) (requests : List Request) : Session :=
  requests.foldl after s

/-- **Every request keeps a session coherent.** -/
theorem Coherent.after (h : s.Coherent) (request : Request) : (s.after request).Coherent := by
  cases request with
  | define text => exact h.define text
  | setStrategy name => exact h.setStrategy name
  | setBudget request => exact h.setBudget request
  | evaluate text => exact h.evaluate text
  | guess text => exact h.checkGuess text
  | listMacros => exact h.macroList
  | add files line number =>
    exact addWith (fun _ path hs => hs.loadUnder files _ path true) files h _ _ line number
  | load files path imported => exact h.loadUnder files s.loading path imported
  | run => exact h.runStatements s.pending
  | pop =>
    rw [Session.after]
    cases hpop : s.pop? with
    | none => exact h
    | some p => exact h.pop hpop

/-- **Every session that can be reached is coherent.** -/
theorem coherent_afterAll (files : Files) (reporter : Reporter) (path : String)
    (options : Options) (requests : List Request) :
    ((start files reporter path options).2.afterAll requests).Coherent := by
  have hall : ∀ s : Session, s.Coherent → (s.afterAll requests).Coherent := by
    induction requests with
    | nil => exact fun _ hs => hs
    | cons request requests ih => exact fun s hs => ih _ (hs.after request)
  exact hall _ (coherent_start files reporter path options)

end Session

end LambdaTrace
