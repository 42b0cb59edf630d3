import LambdaTrace.Session.Basic
import LambdaTrace.Text.Lines
import LambdaTrace.Unvisited

/-!
# Adding statements and loading files

A statement is added to a session as soon as it is met: an import loads a file, a
definition extends the table of macros, and a term waits to be run. Of an imported
file only the macros count.

Loading a file adds its statements, some of which may import further files. While a
file is being loaded its absolute name is on a stack, and no name can be put on the
stack twice; so however the files import each other, loading ends, and what grows
smaller is the number of files that are not on the stack. To add a statement only
takes to know how files are imported (`LambdaTrace.Session.addWith`); a file is
loaded by adding its statements in this way, its imports being loaded with one more
name on the stack (`LambdaTrace.Session.loadUnder`).
-/

namespace LambdaTrace

namespace Session

/-- Continues a piece of work where it succeeds. -/
def Work.andThen {α β : Type} (w : Work α) (f : α → Session → Work β) : Work β :=
  match w with
  | (.error e, s) => (.error e, s)
  | (.ok a, s) => f a s

/-- What both parts of a piece of work keep is kept by the whole. -/
theorem Work.andThen_keeps {α β : Type} {P : Session → Prop} {w : Work α}
    {f : α → Session → Work β} (hw : P w.2) (hf : ∀ a s, P s → P (f a s).2) :
    P (w.andThen f).2 := by
  obtain ⟨e | a, s⟩ := w
  · exact hw
  · exact hf a s hw

/-- A whole piece of work succeeds if both of its parts do. -/
theorem Work.andThen_eq_ok {α β : Type} {w : Work α} {f : α → Session → Work β} {b : β}
    {t : Session} (h : w.andThen f = (.ok b, t)) : ∃ a s, w = (.ok a, s) ∧ f a s = (.ok b, t) := by
  obtain ⟨e | a, s⟩ := w
  · cases h
  · exact ⟨a, s, rfl, h⟩

/-- A whole piece of work fails if one of its parts does. -/
theorem Work.andThen_eq_error {α β : Type} {w : Work α} {f : α → Session → Work β}
    {e : SessionError} {t : Session} (h : w.andThen f = (.error e, t)) :
    w = (.error e, t) ∨ ∃ a s, w = (.ok a, s) ∧ f a s = (.error e, t) := by
  obtain ⟨e | a, s⟩ := w
  · cases h
    exact Or.inl rfl
  · exact Or.inr ⟨a, s, rfl, h⟩

/-! ### Adding statements -/

/-- Notes that a statement is done. -/
def finishLine (s : Session) (path : String) : Session :=
  s.report (·.removeLine path)

/-- Puts a term among the statements still to be run. One that waits under the same
number gives way, in its place. -/
def putPending (number : Int) (statement : Statement) :
    List (Int × Statement) → List (Int × Statement)
  | [] => [(number, statement)]
  | (n, s) :: rest =>
    if n = number then (number, statement) :: rest
    else (n, s) :: putPending number statement rest

/-- Carries out a definition. Its run is a result, unless the file is imported. -/
def addDefinition (s : Session) (statement : Statement) (imported : Bool) : Work Unit :=
  (s.define statement.text).andThen fun (_, trace) s =>
    (.ok (), if imported then s else { s with results := s.results ++ [⟨statement, trace, none⟩] })

/-- Puts off the run of a term, unless the file is imported. -/
def addExecution (s : Session) (statement : Statement) (number : Int) (imported : Bool) :
    Session :=
  if imported then s else { s with pending := putPending number statement s.pending }

/-- Does what a statement of a file says, with a way to import the file of a name. -/
def performWith (importFile : Session → String → Work Unit) (files : Files) (s : Session)
    (path : String) (imported : Bool) (statement : Statement) (number : Int) : Work Unit :=
  match statement.kind with
  | .importing => importFile s (files.imported path statement.importPath)
  | .definition => s.addDefinition statement imported
  | .execution => (.ok (), s.addExecution statement number imported)

/-- Adds a statement of a file, with a way to import the file of a name. The
statement is registered while it is worked on, and stays so if it fails. -/
def addWith (importFile : Session → String → Work Unit) (files : Files) (s : Session)
    (path : String) (imported : Bool) (line : String) (number : Int) : Work Unit :=
  let started := s.report (·.registerLine path line number)
  match Statement.infer line with
  | .error e => (.error (.statement e), started)
  | .ok statement =>
    (performWith importFile files started path imported statement number).andThen fun () s =>
      (.ok (), s.finishLine path)

/-- Adds statements of a file in turn, up to the first error. -/
def addAllWith (importFile : Session → String → Work Unit) (files : Files) (s : Session)
    (path : String) (imported : Bool) : List (String × Int) → Work Unit
  | [] => (.ok (), s)
  | (line, number) :: rest =>
    (addWith importFile files s path imported line number).andThen fun () s =>
      addAllWith importFile files s path imported rest

/-! ### Loading files -/

/-- Begins to load a file, whose absolute name goes on the stack. -/
def enterFile (s : Session) (path name : String) : Session :=
  { s.report (·.registerFile path) with loading := s.loading ++ [name] }

/-- Ends loading a file, whose name is taken off the stack. -/
def leaveFile (s : Session) : Work Unit :=
  if s.loading.isEmpty then (.error (.slip .noneLoading), s)
  else (.ok (), { s with loading := s.loading.dropLast })

/-- Takes a file off the list of files. -/
def unlistFile (s : Session) (path : String) : Work Unit :=
  if path ∈ s.reporter.traceback.paths then (.ok (), s.report (·.removeFile path))
  else (.error (.slip (.unlisted path)), s)

/-- Loads a file while the files of a stack of names are being loaded, adding its
statements. The file stays registered if one of them fails. -/
def loadUnder (files : Files) (stack : List String) (s : Session) (path : String)
    (imported : Bool) : Work Unit :=
  let name := files.absolute path
  if hstack : name ∈ stack then (.error (.circularImport path), s)
  else
    match htext : files.read path with
    | .error fault => (.error (.ofOpening path fault), s)
    | .ok text =>
      have _hlt : unvisited files.names (stack ++ [name]) < unvisited files.names stack :=
        unvisited_lt (fun _ h => List.mem_append_left _ h) (Files.absolute_mem_names htext)
          hstack (by simp [name])
      let importFile := fun s other => loadUnder files (stack ++ [name]) s other true
      let statements := Grouping.statements (linesOf text)
      match addAllWith importFile files (s.enterFile path name) path imported statements with
      | (.error e, after) => after.leaveFile.andThen fun () s => (.error e, s)
      | (.ok (), after) => after.leaveFile.andThen fun () s => s.unlistFile path
termination_by unvisited files.names stack

/-- **Loads a file**: adds its statements, of an imported file only the macros. -/
def load (files : Files) (s : Session) (path : String) (imported : Bool) : Work Unit :=
  loadUnder files s.loading s path imported

/-- **Adds a statement** of the main file or the command line. -/
def add (files : Files) (s : Session) (line : String) (number : Int) : Work Unit :=
  addWith (fun s path => loadUnder files s.loading s path true) files s s.path false line number

/-! ### Starting a session -/

/-- What a session can be asked to be. -/
structure Options where
  strategy : Option String
  budget : Option BudgetRequest
  prelude : Bool
  resugars : Bool

/-- A session without macros and with the default settings. -/
def fresh (reporter : Reporter) (path : String) (resugars : Bool) : Session :=
  ⟨path, defaultStrategy, .empty defaultBudget, resugars, [], [], none, [],
    reporter.registerFile path⟩

/-- Adds the macros of the prelude. -/
def addPrelude (s : Session) : Work Unit :=
  match s.table.defineAll Prelude.definitions with
  | .error e => (.error (.table e), s)
  | .ok table => (.ok (), { s with table })

/-- **Starts a session**: makes the settings, adds the prelude, and loads the main
file, if there is one. On the command line no error is fatal once the settings are
made. -/
def start (files : Files) (reporter : Reporter) (path : String) (options : Options) : Work Unit :=
  let s := fresh reporter path options.resugars
  let withStrategy : Work Unit := match options.strategy with
    | none => (.ok (), s)
    | some name => s.setStrategy name
  withStrategy.andThen fun () s =>
    let withBudget : Work Unit := match options.budget with
      | none => (.ok (), s)
      | some request => s.setBudget request
    withBudget.andThen fun () s =>
      let interactive := path == commandLineName
      let s := if interactive then s.report ({ · with fatal := false }) else s
      let withPrelude : Work Unit := if options.prelude then s.addPrelude else (.ok (), s)
      withPrelude.andThen fun () s =>
        if interactive then (.ok (), s) else load files s path false

end Session

end LambdaTrace
