import LambdaTrace.Proofs.Files.Name
import LambdaTrace.Proofs.Report.Traceback
import LambdaTrace.Proofs.Session.Frames

/-!
# What is listed while files are loaded

The reporter lists a file when it is opened and takes it off when it has been loaded; a file that
could not be loaded stays listed. In between other files come and go, but those that are being
loaded, and the command line, stay listed in their order (`LambdaTrace.Session.Busy`). In
particular a file is still listed when it is to be taken off, so loading never fails by a slip.

Loading a file without an error leaves the statements that are being worked on as they were, and
lists nothing new; all that can change is that a file which is listed from an earlier attempt is
taken off.
-/

namespace LambdaTrace

/-- The name of the command line is not the name of an imported file. -/
theorem Files.IsRooted.imported_ne {files : Files} (h : files.IsRooted) (importer name : String) :
    files.imported importer name ≠ Session.commandLineName := by
  obtain ⟨s, hs⟩ := h.exists_imported importer name
  have hline : Session.commandLineName.toList = ['<', 'i', 'n', '>'] := by decide
  intro heq
  rw [heq, hline] at hs
  cases hs

theorem SessionError.ofOpening_ne_slip {path : String} (fault : OpenFault) (x : Slip) :
    ofOpening path fault ≠ .slip x := by
  cases fault <;> simp [ofOpening]

namespace Session

variable {files : Files} {s t : Session} {path : String} {imported : Bool}

/-! ### Files being worked on -/

/-- **Whether a file is being worked on**: it is the command line, or it is being loaded. -/
def Busy (files : Files) (s : Session) (path : String) : Prop :=
  path = commandLineName ∨ files.absolute path ∈ s.loading

theorem Busy.congr (h : Busy files s path) (hloading : t.loading = s.loading) :
    Busy files t path := by
  rw [Busy, hloading]
  exact h

/-- **A tidy session** lists no file twice, and its statements being worked on stand in files
being worked on. -/
structure Tidy (files : Files) (s : Session) : Prop where
  nodup : s.reporter.traceback.paths.Nodup
  busy : ∀ q v, (q, some v) ∈ s.reporter.traceback → Busy files s q

theorem Tidy.registerLine (h : Tidy files s) (hpath : Busy files s path) (line : String)
    (number : Int) : Tidy files (s.report (·.registerLine path line number)) where
  nodup := Traceback.nodup_paths_set h.nodup path _
  busy q v hq := by
    rcases (Traceback.mem_set h.nodup).mp hq with ⟨rfl, -⟩ | ⟨-, hq⟩
    · exact hpath
    · exact h.busy q v hq

theorem Tidy.enterFile (h : Tidy files s) (path : String) :
    Tidy files (s.enterFile path (files.absolute path)) where
  nodup := Traceback.nodup_paths_set h.nodup path _
  busy q v hq := by
    rcases (Traceback.mem_set h.nodup).mp hq with ⟨-, hv⟩ | ⟨-, hq⟩
    · cases hv
    · exact (h.busy q v hq).imp_right (List.mem_append_left _)

/-- Whether no statement of a file is being worked on. -/
def Idle (s : Session) (path : String) : Prop :=
  ∀ v, (path, some v) ∉ s.reporter.traceback

/-! ### A file that is entered -/

theorem Busy.enterFile {q : String} (h : Busy files s q) (path name : String) :
    Busy files (s.enterFile path name) q :=
  h.imp_right (List.mem_append_left _)

theorem busy_enterFile (files : Files) (s : Session) (path : String) :
    Busy files (s.enterFile path (files.absolute path)) path :=
  Or.inr (List.mem_append_right _ (List.mem_singleton_self _))

theorem idle_enterFile (h : s.reporter.traceback.paths.Nodup) (path name : String) :
    (s.enterFile path name).Idle path := by
  intro v hv
  rcases (Traceback.mem_set h).mp hv with ⟨-, hnone⟩ | ⟨hne, -⟩
  · cases hnone
  · exact hne rfl

theorem listed_enterFile (s : Session) (path name : String) :
    path ∈ (s.enterFile path name).reporter.traceback.paths :=
  Traceback.mem_paths_set.mpr (Or.inl rfl)

/-! ### Work on the statements of a file -/

/-- **What becomes of the list of files** by a piece of work, which fails only for a reason
outside of the program: the files being worked on stay listed, and if it does not fail, all their
statements too, and nothing else comes to the list. -/
structure Lists (files : Files) (s : Session) (w : Work Unit) : Prop where
  nodup : w.2.reporter.traceback.paths.Nodup
  keeps : Traceback.Keeps (Busy files s) s.reporter.traceback w.2.reporter.traceback
  noSlip : ∀ x, w.1 ≠ .error (.slip x)
  active : w.1 = .ok () → ∀ q v,
    (q, some v) ∈ w.2.reporter.traceback ↔ (q, some v) ∈ s.reporter.traceback
  listed : w.1 = .ok () → ∀ q ∈ w.2.reporter.traceback.paths, q ∈ s.reporter.traceback.paths

/-- Work that failed: the statements that led to the error are left. -/
theorem Lists.failed {e : SessionError} (hnodup : t.reporter.traceback.paths.Nodup)
    (hkeeps : Traceback.Keeps (Busy files s) s.reporter.traceback t.reporter.traceback)
    (hslip : ∀ x, e ≠ .slip x) : Lists files s (.error e, t) :=
  ⟨hnodup, hkeeps, fun x hx => hslip x (Except.error.inj hx), by simp, by simp⟩

/-- Work that succeeded. -/
theorem Lists.succeeded (hnodup : t.reporter.traceback.paths.Nodup)
    (hkeeps : Traceback.Keeps (Busy files s) s.reporter.traceback t.reporter.traceback)
    (hactive : ∀ q v,
      (q, some v) ∈ t.reporter.traceback ↔ (q, some v) ∈ s.reporter.traceback)
    (hlisted : ∀ q ∈ t.reporter.traceback.paths, q ∈ s.reporter.traceback.paths) :
    Lists files s (.ok (), t) :=
  ⟨hnodup, hkeeps, by simp, fun _ => hactive, fun _ => hlisted⟩

/-- The error of work that failed is no slip. -/
theorem Lists.ne_slip {e : SessionError} (h : Lists files s (.error e, t)) (x : Slip) :
    e ≠ .slip x :=
  fun hx => h.noSlip x (congrArg Except.error hx)

/-- Work that says nothing to the reporter. -/
theorem Lists.of_reporter_eq {w : Work Unit} (h : w.2.reporter = s.reporter)
    (hs : s.reporter.traceback.paths.Nodup) (hslip : ∀ x, w.1 ≠ .error (.slip x)) :
    Lists files s w := by
  refine ⟨?_, ?_, hslip, fun _ q v => ?_, fun _ q hq => ?_⟩
  · rwa [h]
  · rw [h]
    exact Traceback.Keeps.refl _
  · rw [h]
  · rwa [h] at hq

/-- One piece of work after another. -/
theorem Lists.trans {v w : Work Unit} (h : Lists files s v) (hok : v.1 = .ok ())
    (hloading : v.2.loading = s.loading) (h' : Lists files v.2 w) : Lists files s w where
  nodup := h'.nodup
  keeps := h.keeps.trans (h'.keeps.mono fun _ hp => hp.congr hloading)
  noSlip := h'.noSlip
  active hw q x := (h'.active hw q x).trans (h.active hok q x)
  listed hw q hq := h.listed hok q (h'.listed hw q hq)

/-- Where nothing failed, the session stays tidy. -/
theorem Lists.tidy {w : Work Unit} (h : Lists files s w) (hok : w.1 = .ok ())
    (hs : Tidy files s) (hloading : w.2.loading = s.loading) : Tidy files w.2 where
  nodup := h.nodup
  busy q v hq := (hs.busy q v ((h.active hok q v).mp hq)).congr hloading

section Adding

variable {importFile : Session → String → Work Unit}

/-- A definition says nothing to the reporter. -/
theorem reporter_addDefinition (s : Session) (statement : Statement) (imported : Bool) :
    (s.addDefinition statement imported).2.reporter = s.reporter := by
  rw [addDefinition, define]
  split
  · rfl
  · cases imported <;> rfl

/-- A definition fails only as the table does. -/
theorem lists_addDefinition (hs : s.reporter.traceback.paths.Nodup) (statement : Statement)
    (imported : Bool) : Lists files s (s.addDefinition statement imported) := by
  refine Lists.of_reporter_eq (reporter_addDefinition s statement imported) hs fun x hx => ?_
  rw [addDefinition, define] at hx
  split at hx <;> cases hx

theorem lists_addExecution (hs : s.reporter.traceback.paths.Nodup) (statement : Statement)
    (number : Int) (imported : Bool) :
    Lists files s (.ok (), s.addExecution statement number imported) := by
  refine Lists.of_reporter_eq ?_ hs (by simp)
  cases imported <;> rfl

theorem lists_performWith (hfiles : files.IsRooted)
    (himport : ∀ t other, t.loading = s.loading → Tidy files t → other ≠ commandLineName →
      Lists files t (importFile t other))
    (hs : Tidy files s) (path : String) (imported : Bool) (statement : Statement) (number : Int) :
    Lists files s (performWith importFile files s path imported statement number) := by
  rw [performWith]
  split
  · exact himport s _ rfl hs (hfiles.imported_ne _ _)
  · exact lists_addDefinition hs.nodup statement imported
  · exact lists_addExecution hs.nodup statement number imported

/-- **A statement is added to a tidy session**, when nothing of its file is being worked on. -/
theorem lists_addWith (hfiles : files.IsRooted)
    (himport : ∀ t other, t.loading = s.loading → Tidy files t → other ≠ commandLineName →
      Lists files t (importFile t other))
    (hs : Tidy files s) (hbusy : Busy files s path) (hidle : s.Idle path)
    (hlisted : path ∈ s.reporter.traceback.paths) (imported : Bool) (line : String)
    (number : Int) : Lists files s (addWith importFile files s path imported line number) := by
  have hstarted := hs.registerLine hbusy line number
  have hkeeps : Traceback.Keeps (Busy files s) s.reporter.traceback
      (s.report (·.registerLine path line number)).reporter.traceback := Traceback.Keeps.set _ _
  rw [addWith]
  split
  · exact Lists.failed hstarted.nodup hkeeps (by simp)
  · rename_i statement _
    have hdone := lists_performWith (s := s.report (·.registerLine path line number)) hfiles himport
      hstarted path imported statement number
    generalize performWith importFile files _ path imported statement number = w at hdone ⊢
    obtain ⟨e | a, t⟩ := w
    · exact Lists.failed hdone.nodup (hkeeps.trans hdone.keeps) hdone.ne_slip
    · refine Lists.succeeded (Traceback.nodup_paths_set hdone.nodup path _)
        ((hkeeps.trans hdone.keeps).trans (Traceback.Keeps.set _ _)) (fun q v => ?_) fun q hq => ?_
      · have hset := (hdone.active rfl q v).trans (Traceback.mem_set hs.nodup)
        have hne : (q, some v) ∈ s.reporter.traceback → q ≠ path :=
          fun hmem heq => hidle v (heq ▸ hmem)
        exact (Traceback.mem_set hdone.nodup).trans (by grind)
      · have hset : q ∈ t.reporter.traceback.paths → q ∈ s.reporter.traceback.paths :=
          fun hmem => (Traceback.mem_paths_set.mp (hdone.listed rfl q hmem)).elim
            (fun heq => heq ▸ hlisted) id
        exact (Traceback.mem_paths_set.mp hq).elim (fun heq => heq ▸ hlisted) hset

/-- **Statements of a file are added in turn.** -/
theorem lists_addAllWith (hfiles : files.IsRooted)
    (hleaves : ∀ t other, Leaves true t (importFile t other).2)
    (himport : ∀ t other, t.loading = s.loading → Tidy files t → other ≠ commandLineName →
      Lists files t (importFile t other))
    (hs : Tidy files s) (hbusy : Busy files s path) (hidle : s.Idle path)
    (hlisted : path ∈ s.reporter.traceback.paths) (imported : Bool) (lines : List (String × Int)) :
    Lists files s (addAllWith importFile files s path imported lines) := by
  induction lines generalizing s with
  | nil =>
    exact Lists.succeeded hs.nodup (Traceback.Keeps.refl _) (fun _ _ => Iff.rfl) fun _ hq => hq
  | cons p lines ih =>
    obtain ⟨line, number⟩ := p
    have hadded := lists_addWith hfiles himport hs hbusy hidle hlisted imported line number
    have hloading := (Leaves.addWith hleaves files s path imported line number).loading
    rw [addAllWith]
    generalize addWith importFile files s path imported line number = w at hadded hloading ⊢
    obtain ⟨e | a, t⟩ := w
    · exact hadded
    · have hrest := ih (s := t) (fun u other hu => himport u other (hu.trans hloading))
        (hadded.tidy rfl hs hloading) (hbusy.congr hloading)
        (fun v hv => hidle v ((hadded.active rfl path v).mp hv))
        (hadded.keeps.mem hbusy hlisted)
      exact hadded.trans rfl hloading hrest

end Adding

/-! ### Loading files -/

/-- **Loading a file**, however the files import each other: nothing is lost of what is being
worked on, and the file is still listed when it is to be taken off. -/
theorem lists_load (hfiles : files.IsRooted) (s : Session) (path : String) (imported : Bool)
    (hs : Tidy files s) (hpath : path ≠ commandLineName) :
    Lists files s (s.load files path imported) := by
  induction s, path, imported using load_induction files with
  | step s path imported ih =>
    by_cases hmem : files.absolute path ∈ s.loading
    · rw [load_of_mem hmem]
      exact Lists.failed hs.nodup (Traceback.Keeps.refl _) (by simp)
    cases htext : files.read path with
    | error fault =>
      rw [load_of_unopened hmem htext]
      exact Lists.failed hs.nodup (Traceback.Keeps.refl _) (SessionError.ofOpening_ne_slip fault)
    | ok text =>
      have hunbusy : ¬ Busy files s path := not_or.mpr ⟨hpath, hmem⟩
      have hentered := hs.enterFile path
      have hself := busy_enterFile files s path
      have hlisted := listed_enterFile s path (files.absolute path)
      have hkeeps : Traceback.Keeps (Busy files s) s.reporter.traceback
          (s.enterFile path (files.absolute path)).reporter.traceback := Traceback.Keeps.set _ _
      have hadded : Lists files (s.enterFile path (files.absolute path))
          ((s.enterFile path (files.absolute path)).addAllIn files path imported
            (Grouping.statements (linesOf text))) :=
        lists_addAllWith hfiles (fun t other => Leaves.load files t other true)
          (ih text hmem htext) hentered hself (idle_enterFile hs.nodup path _) hlisted imported _
      rw [load_of_opened hmem htext]
      generalize (s.enterFile path (files.absolute path)).addAllIn files path imported _ = w
        at hadded ⊢
      have hkept := hkeeps.trans (hadded.keeps.mono fun q hq => hq.enterFile path _)
      obtain ⟨e | a, after⟩ := w
      · exact Lists.failed hadded.nodup hkept hadded.ne_slip
      · have hstill : path ∈ after.reporter.traceback.paths := hadded.keeps.mem hself hlisted
        dsimp only
        rw [unlistFile, if_pos hstill]
        refine Lists.succeeded (Traceback.nodup_paths_erase hadded.nodup path)
          (hkept.trans (Traceback.Keeps.erase hunbusy)) (fun q v => ?_) fun q hq => ?_
        · have hset := (hadded.active rfl q v).trans (Traceback.mem_set hs.nodup)
          have hne : (q, some v) ∈ s.reporter.traceback → q ≠ path :=
            fun hmem heq => hunbusy (heq ▸ hs.busy q v hmem)
          exact Traceback.mem_erase.trans (by grind)
        · obtain ⟨hne, hafter⟩ := Traceback.mem_paths_erase.mp hq
          exact (Traceback.mem_paths_set.mp (hadded.listed rfl q hafter)).resolve_left hne

/-- **Adding a statement of a file** to a tidy session. -/
theorem lists_addIn (hfiles : files.IsRooted) (hs : Tidy files s) (hbusy : Busy files s path)
    (hidle : s.Idle path) (hlisted : path ∈ s.reporter.traceback.paths) (imported : Bool)
    (line : String) (number : Int) : Lists files s (s.addIn files path imported line number) :=
  lists_addWith hfiles (fun t other _ ht hother => lists_load hfiles t other true ht hother) hs
    hbusy hidle hlisted imported line number

theorem lists_addAllIn (hfiles : files.IsRooted) (hs : Tidy files s) (hbusy : Busy files s path)
    (hidle : s.Idle path) (hlisted : path ∈ s.reporter.traceback.paths) (imported : Bool)
    (lines : List (String × Int)) : Lists files s (s.addAllIn files path imported lines) :=
  lists_addAllWith hfiles (fun t other => Leaves.load files t other true)
    (fun t other _ ht hother => lists_load hfiles t other true ht hother) hs hbusy hidle hlisted
    imported lines

end Session

end LambdaTrace
