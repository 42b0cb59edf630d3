import Mathlib.Data.Nat.Init
import LambdaTrace.Proofs.Session.Reachable

/-!
# What work on a session leaves as it was

Whatever is asked of a session, it stays the session of its main file, its errors stay fatal or
not, and the stack of files being loaded is left as it was found
(`LambdaTrace.Session.Leaves.after`). A file takes its name off the stack on every exit, be it
loaded, missing, being loaded already, or faulty at any depth. The import of a file moreover
leaves the statements that wait and the results, as only the macros of the file count.
-/

namespace LambdaTrace

namespace Session

variable {s s' s'' : Session} {imported : Bool}

/-- **What a piece of work on a session leaves as it was.** Of an imported file only the macros
count. -/
structure Leaves (imported : Bool) (s s' : Session) : Prop where
  path : s'.path = s.path
  loading : s'.loading = s.loading
  fatal : s'.reporter.fatal = s.reporter.fatal
  pending : imported = true → s'.pending = s.pending
  results : imported = true → s'.results = s.results

namespace Leaves

theorem refl (s : Session) : Leaves imported s s :=
  ⟨rfl, rfl, rfl, fun _ => rfl, fun _ => rfl⟩

theorem trans (h : Leaves imported s s') (h' : Leaves imported s' s'') :
    Leaves imported s s'' where
  path := h'.path.trans h.path
  loading := h'.loading.trans h.loading
  fatal := h'.fatal.trans h.fatal
  pending hi := (h'.pending hi).trans (h.pending hi)
  results hi := (h'.results hi).trans (h.results hi)

/-- Imports leave most as it was. -/
theorem mono {i j : Bool} (hij : i = true → j = true) (h : Leaves j s s') : Leaves i s s' :=
  ⟨h.path, h.loading, h.fatal, fun hi => h.pending (hij hi), fun hi => h.results (hij hi)⟩

/-- Noting something down in the reporter leaves everything else. -/
theorem report {f : Reporter → Reporter} (hf : ∀ r, (f r).fatal = r.fatal) :
    Leaves imported s (s.report f) :=
  ⟨rfl, rfl, hf _, fun _ => rfl, fun _ => rfl⟩

theorem finishLine (s : Session) (path : String) : Leaves imported s (s.finishLine path) :=
  report fun _ => rfl

theorem define (text : String) : Leaves true s (s.define text).2 := by
  rw [Session.define]
  split <;> exact ⟨rfl, rfl, rfl, fun _ => rfl, fun _ => rfl⟩

theorem addDefinition (statement : Statement) :
    Leaves imported s (s.addDefinition statement imported).2 := by
  refine Work.andThen_keeps ((define statement.text).mono fun _ => rfl) fun _ t ht => ?_
  cases imported
  · exact ⟨ht.path, ht.loading, ht.fatal, by simp, by simp⟩
  · exact ht

theorem addExecution (statement : Statement) (number : Int) :
    Leaves imported s (s.addExecution statement number imported) := by
  rw [Session.addExecution]
  cases imported
  · exact ⟨rfl, rfl, rfl, by simp, by simp⟩
  · exact refl s

section Adding

variable {importFile : Session → String → Work Unit}

theorem performWith (himport : ∀ s other, Leaves true s (importFile s other).2) (files : Files)
    (s : Session) (path : String) (imported : Bool) (statement : Statement) (number : Int) :
    Leaves imported s
      (Session.performWith importFile files s path imported statement number).2 := by
  rw [Session.performWith]
  split
  · exact (himport _ _).mono fun _ => rfl
  · exact addDefinition statement
  · exact addExecution statement number

theorem addWith (himport : ∀ s other, Leaves true s (importFile s other).2) (files : Files)
    (s : Session) (path : String) (imported : Bool) (line : String) (number : Int) :
    Leaves imported s (Session.addWith importFile files s path imported line number).2 := by
  have hstarted : Leaves imported s (s.report (·.registerLine path line number)) :=
    report fun _ => rfl
  rw [Session.addWith]
  split
  · exact hstarted
  · rename_i statement _
    have hdone := hstarted.trans (performWith himport files _ path imported statement number)
    exact Work.andThen_keeps hdone fun _ t ht => ht.trans (finishLine t path)

theorem addAllWith (himport : ∀ s other, Leaves true s (importFile s other).2) (files : Files)
    (s : Session) (path : String) (imported : Bool) (lines : List (String × Int)) :
    Leaves imported s (Session.addAllWith importFile files s path imported lines).2 := by
  induction lines generalizing s with
  | nil => exact refl s
  | cons p lines ih =>
    exact Work.andThen_keeps (addWith himport files s path imported p.1 p.2)
      fun _ t ht => ht.trans (ih t)

end Adding

/-- Taking a name off the stack that was put on it. -/
theorem leaveFile {path name : String}
    (h : Leaves imported (s.enterFile path name) s') : Leaves imported s s'.leaveFile.2 := by
  have hloading : s'.loading = s.loading ++ [name] := h.loading
  rw [Session.leaveFile, if_neg (by simp [hloading])]
  exact ⟨h.path, by simp [hloading], h.fatal, h.pending, h.results⟩

theorem unlistFile (s : Session) (path : String) :
    Leaves imported s (s.unlistFile path).2 := by
  rw [Session.unlistFile]
  split
  · exact ⟨rfl, rfl, rfl, fun _ => rfl, fun _ => rfl⟩
  · exact refl s

/-- **Loading leaves the stack as it found it**, however it ends. -/
theorem loadUnder (files : Files) (stack : List String) (s : Session) (path : String)
    (imported : Bool) : Leaves imported s (Session.loadUnder files stack s path imported).2 := by
  -- on the number of files that are not on the stack
  induction hn : unvisited files.names stack using Nat.strong_induction_on
    generalizing s stack path imported with
  | _ n ih =>
    rw [Session.loadUnder]
    dsimp only
    split
    · exact refl s
    · rename_i hstack
      split
      · exact refl s
      · rename_i text htext
        have hlt : unvisited files.names (stack ++ [files.absolute path]) < n := by
          rw [← hn]
          exact unvisited_lt (fun _ h => List.mem_append_left _ h)
            (Files.absolute_mem_names htext) hstack (by simp)
        have hadded := addAllWith (fun t other => ih _ hlt _ t other true rfl) files
          (s.enterFile path (files.absolute path)) path imported
          (Grouping.statements (linesOf text))
        split
        · rename_i heq
          rw [heq] at hadded
          exact Work.andThen_keeps hadded.leaveFile fun _ _ ht => ht
        · rename_i heq
          rw [heq] at hadded
          exact Work.andThen_keeps hadded.leaveFile fun _ t ht => ht.trans (unlistFile t path)

theorem load (files : Files) (s : Session) (path : String) (imported : Bool) :
    Leaves imported s (s.load files path imported).2 :=
  loadUnder files s.loading s path imported

/-! ### Requests -/

theorem setStrategy (name : String) : Leaves false s (s.setStrategy name).2 := by
  rw [Session.setStrategy]
  split
  · exact refl s
  · exact ⟨rfl, rfl, rfl, fun _ => rfl, fun _ => rfl⟩

theorem setBudget (request : BudgetRequest) : Leaves false s (s.setBudget request).2 := by
  rcases setBudget_snd s request with h | ⟨_, h⟩ <;> rw [h]
  · exact refl s
  · exact ⟨rfl, rfl, rfl, fun _ => rfl, fun _ => rfl⟩

theorem macroList : Leaves false s s.macroList.2 := by
  rw [Session.macroList]
  split
  · exact ⟨rfl, rfl, rfl, fun _ => rfl, fun _ => rfl⟩
  · split <;> exact ⟨rfl, rfl, rfl, fun _ => rfl, fun _ => rfl⟩

theorem checkGuess (text : String) : Leaves false s (s.checkGuess text).2 := by
  rw [Session.checkGuess]
  split
  · exact refl s
  · split
    · exact refl s
    · exact refl s
    · split
      · exact ⟨rfl, rfl, rfl, fun _ => rfl, fun _ => rfl⟩
      · exact refl s

theorem evaluate (text : String) : Leaves false s (s.evaluate text).2 := by
  rw [Session.evaluate]
  split
  · exact refl s
  · exact ⟨rfl, rfl, rfl, fun _ => rfl, fun _ => rfl⟩

/-- Writing a warning leaves everything else. -/
theorem warn (r : Report) : Leaves imported s (s.report (·.warn r)) := by
  refine report fun h => ?_
  rw [Reporter.warn, Reporter.showDiagnosis]
  split <;> rfl

theorem conclude (statement : Statement) (trace : Trace) :
    Leaves false s (s.conclude statement trace).2 := by
  rw [Session.conclude]
  split
  · split
    · exact refl s
    · exact warn _
  · split
    · split <;> exact refl s
    · exact refl s

theorem dropPending (number : Int) : Leaves false s (s.dropPending number).2 := by
  rw [Session.dropPending]
  split
  · exact ⟨rfl, rfl, rfl, by simp, fun _ => rfl⟩
  · exact refl s

theorem runStatement (number : Int) (statement : Statement) :
    Leaves false s (s.runStatement number statement).2 := by
  have hstarted : Leaves false s (s.report (·.registerLine s.path statement.text number)) :=
    report fun _ => rfl
  have hevaluate := hstarted.trans (evaluate statement.text)
  rw [Session.runStatement]
  dsimp only
  split
  · rename_i heq
    rw [heq] at hevaluate
    exact Work.andThen_keeps (hevaluate.trans (dropPending number)) fun _ _ ht => ht
  · rename_i heq
    rw [heq] at hevaluate
    refine Work.andThen_keeps (hevaluate.trans (dropPending number)) fun _ t ht => ?_
    refine Work.andThen_keeps (ht.trans (conclude statement _)) fun _ t ht => ?_
    exact ht.trans ⟨rfl, rfl, rfl, by simp, by simp⟩

theorem runStatements (statements : List (Int × Statement)) :
    Leaves false s (s.runStatements statements).2 := by
  induction statements generalizing s with
  | nil => exact refl s
  | cons p statements ih =>
    exact Work.andThen_keeps (runStatement p.1 p.2) fun _ _ ht => ht.trans ih

theorem pop {r : StatementResult} (h : s.pop? = some (r, s')) : Leaves false s s' := by
  rw [Session.pop?] at h
  split at h
  · cases h
  · cases h
    exact ⟨rfl, rfl, rfl, by simp, by simp⟩

theorem after (request : Request) : Leaves false s (s.after request) := by
  cases request with
  | define text => exact (define text).mono (by simp)
  | setStrategy name => exact setStrategy name
  | setBudget request => exact setBudget request
  | evaluate text => exact evaluate text
  | guess text => exact checkGuess text
  | listMacros => exact macroList
  | add files line number =>
    exact addWith (fun t other => load files t other true) files s s.path false line number
  | load files path imported => exact (load files s path imported).mono (by simp)
  | run => exact runStatements s.pending
  | pop =>
    rw [Session.after]
    cases hpop : s.pop? with
    | none => exact refl s
    | some p => exact pop hpop

end Leaves

/-! ### Between two requests -/

/-- Nothing is being loaded when a session has started. -/
theorem loading_start (files : Files) (reporter : Reporter) (path : String) (options : Options) :
    (start files reporter path options).2.loading = [] := by
  have hleaves : ∀ {s t : Session} {i : Bool}, s.loading = [] → Leaves i s t → t.loading = [] :=
    fun hs ht => ht.loading.trans hs
  refine Work.andThen_keeps (P := (·.loading = [])) ?_ fun _ s hs =>
    Work.andThen_keeps (P := (·.loading = [])) ?_ fun _ s hs =>
      Work.andThen_keeps (P := (·.loading = [])) ?_ fun _ s hs => ?_
  · split
    · rfl
    · exact hleaves rfl (Leaves.setStrategy _)
  · split
    · exact hs
    · exact hleaves hs (Leaves.setBudget _)
  · have hinteractive : (if path == commandLineName then s.report ({ · with fatal := false })
        else s).loading = [] := by
      split <;> exact hs
    split
    · rw [addPrelude]
      split <;> exact hinteractive
    · exact hinteractive
  · split
    · exact hs
    · exact hleaves hs (Leaves.load files s path false)

/-- **Nothing is being loaded between two requests**, whatever went wrong before. -/
theorem loading_afterAll (files : Files) (reporter : Reporter) (path : String) (options : Options)
    (requests : List Request) :
    ((start files reporter path options).2.afterAll requests).loading = [] := by
  have hall : ∀ s : Session, s.loading = [] → (s.afterAll requests).loading = [] := by
    induction requests with
    | nil => exact fun _ hs => hs
    | cons request requests ih =>
      exact fun s hs => ih _ ((Leaves.after request).loading.trans hs)
  exact hall _ (loading_start files reporter path options)

end Session

end LambdaTrace
