import LambdaTrace.Files.Imports
import LambdaTrace.Proofs.Session.Leaves

/-!
# Files loaded within each other

The program asks the stack of a session whether a file may be loaded, and nothing else bounds how
deep files are loaded in each other. `LambdaTrace.Session.loadUnder` is told the stack once more,
so that the measure of its recursion can be seen. Here the second copy is got rid of: as all work
leaves the stack as it found it (`LambdaTrace.Session.Leaves`), the two are always the same, and
loading satisfies the equation that the program is written by (`LambdaTrace.Session.load_eq`).

A statement together with the session in which it is added is a *frame*
(`LambdaTrace.Session.Frame`). Frames are nested: the statement of one imports a file, and the
other is met while that file is loaded (`LambdaTrace.Session.Frame.Imports`). Each frame has one
more name on the stack than the one around it, so there is no infinite descent.
-/

namespace LambdaTrace

namespace Session

variable {s s' s'' : Session} {imported : Bool}

/-! ### The recursion of the program -/

/-- Adds a statement of a file. -/
def addIn (files : Files) (s : Session) (path : String) (imported : Bool) (line : String)
    (number : Int) : Work Unit :=
  addWith (fun s other => s.load files other true) files s path imported line number

/-- Adds statements of a file in turn. -/
def addAllIn (files : Files) (s : Session) (path : String) (imported : Bool)
    (lines : List (String × Int)) : Work Unit :=
  addAllWith (fun s other => s.load files other true) files s path imported lines

/-- Loads a file, with a way to import the file of a name. Only the stack of the session is
asked whether the file may be loaded. -/
def loadWith (importFile : Session → String → Work Unit) (files : Files) (s : Session)
    (path : String) (imported : Bool) : Work Unit :=
  if files.absolute path ∈ s.loading then (.error (.circularImport path), s)
  else match files.read path with
    | .error fault => (.error (.ofOpening path fault), s)
    | .ok text =>
      match addAllWith importFile files (s.enterFile path (files.absolute path)) path imported
          (Grouping.statements (linesOf text)) with
      | (.error e, after) => after.leaveFile.andThen fun () s => (.error e, s)
      | (.ok (), after) => after.leaveFile.andThen fun () s => s.unlistFile path

theorem add_eq (files : Files) (s : Session) (line : String) (number : Int) :
    s.add files line number = s.addIn files s.path false line number :=
  rfl

namespace Leaves

theorem addIn (files : Files) (s : Session) (path : String) (imported : Bool) (line : String)
    (number : Int) : Leaves imported s (s.addIn files path imported line number).2 :=
  addWith (fun t other => load files t other true) files s path imported line number

theorem addAllIn (files : Files) (s : Session) (path : String) (imported : Bool)
    (lines : List (String × Int)) : Leaves imported s (s.addAllIn files path imported lines).2 :=
  addAllWith (fun t other => load files t other true) files s path imported lines

end Leaves

section Agreeing

variable {f g : Session → String → Work Unit} {stack : List String}

/-- How files are imported only matters under the stack that the statement is added under. -/
theorem addWith_congr (hfg : ∀ t other, t.loading = stack → f t other = g t other)
    (files : Files) (hs : s.loading = stack) (path : String) (imported : Bool) (line : String)
    (number : Int) :
    addWith f files s path imported line number = addWith g files s path imported line number := by
  have hstarted : (s.report (·.registerLine path line number)).loading = stack := hs
  rw [addWith, addWith]
  split
  · rfl
  · rw [performWith, performWith, hfg _ _ hstarted]

theorem addAllWith_congr (hfg : ∀ t other, t.loading = stack → f t other = g t other)
    (hg : ∀ t other, Leaves true t (g t other).2) (files : Files) (hs : s.loading = stack)
    (path : String) (imported : Bool) (lines : List (String × Int)) :
    addAllWith f files s path imported lines = addAllWith g files s path imported lines := by
  induction lines generalizing s with
  | nil => rfl
  | cons p lines ih =>
    obtain ⟨line, number⟩ := p
    have hleaves := Leaves.addWith hg files s path imported line number
    rw [addAllWith, addAllWith, addWith_congr hfg files hs]
    generalize addWith g files s path imported line number = w at hleaves ⊢
    obtain ⟨e | a, t⟩ := w
    · rfl
    · exact ih (hleaves.loading.trans hs)

/-- A file is loaded alike where its imports are. -/
theorem loadWith_congr {files : Files} {path : String} {text : String}
    (htext : files.read path = .ok text)
    (hfg : ∀ t other, t.loading = s.loading ++ [files.absolute path] → f t other = g t other)
    (hg : ∀ t other, Leaves true t (g t other).2) (imported : Bool) :
    s.loadWith f files path imported = s.loadWith g files path imported := by
  rw [loadWith, loadWith, htext]
  dsimp only
  rw [addAllWith_congr hfg hg files rfl]

end Agreeing

/-- What cannot be opened has no imports. -/
theorem loadWith_of_unopened {files : Files} {path : String} {fault : OpenFault}
    (hfault : files.read path = .error fault) (f g : Session → String → Work Unit)
    (imported : Bool) : s.loadWith f files path imported = s.loadWith g files path imported := by
  rw [loadWith, loadWith, hfault]

/-- **How a file is loaded**, as the program has it: the file must not be on the stack of the
session, and its imports are loaded in the same way. -/
theorem load_eq (files : Files) (s : Session) (path : String) (imported : Bool) :
    s.load files path imported =
      s.loadWith (fun t other => t.load files other true) files path imported := by
  have hunder : s.load files path imported = s.loadWith
      (fun t other => loadUnder files (s.loading ++ [files.absolute path]) t other true) files
      path imported := by
    rw [load, loadUnder, loadWith]
    dsimp only
    split
    · rfl
    · split
      · rename_i htext
        rewrite [htext]
        rfl
      · rename_i htext
        rewrite [htext]
        rfl
  rw [hunder]
  cases htext : files.read path with
  | error fault => exact loadWith_of_unopened htext _ _ imported
  | ok text =>
    refine loadWith_congr htext (fun t other ht => ?_)
      (fun t other => Leaves.load files t other true) imported
    rw [load, ht]

/-- A file that is being loaded is not loaded again. -/
theorem load_of_mem {files : Files} {path : String} (h : files.absolute path ∈ s.loading)
    (imported : Bool) : s.load files path imported = (.error (.circularImport path), s) := by
  rw [load_eq, loadWith, if_pos h]

theorem load_of_unopened {files : Files} {path : String} {fault : OpenFault}
    (h : files.absolute path ∉ s.loading) (hfault : files.read path = .error fault)
    (imported : Bool) : s.load files path imported = (.error (.ofOpening path fault), s) := by
  rw [load_eq, loadWith, if_neg h, hfault]

/-- A file that can be opened is loaded by adding its statements. -/
theorem load_of_opened {files : Files} {path text : String} (h : files.absolute path ∉ s.loading)
    (htext : files.read path = .ok text) (imported : Bool) :
    s.load files path imported =
      match (s.enterFile path (files.absolute path)).addAllIn files path imported
        (Grouping.statements (linesOf text)) with
      | (.error e, after) => (.error e, { after with loading := s.loading })
      | (.ok (), after) => unlistFile { after with loading := s.loading } path := by
  rw [load_eq, loadWith, if_neg h, htext]
  have hleaves := Leaves.addAllIn files (s.enterFile path (files.absolute path)) path imported
    (Grouping.statements (linesOf text))
  rw [addAllIn] at hleaves ⊢
  dsimp only
  generalize addAllWith _ files _ path imported _ = w at hleaves ⊢
  obtain ⟨r, after⟩ := w
  have hleave : after.leaveFile = (.ok (), { after with loading := s.loading }) := by
    have hloading : after.loading = s.loading ++ [files.absolute path] := hleaves.loading
    rw [leaveFile, if_neg (by simp [hloading]), hloading, List.dropLast_concat]
  obtain e | - := r <;> dsimp only <;> rw [hleave] <;> rfl

/-- What is shown of loading a file may be assumed of its imports, which are loaded with one more
name on the stack. -/
theorem load_induction (files : Files) {motive : Session → String → Bool → Prop}
    (step : ∀ s path imported,
      (∀ text, files.absolute path ∉ s.loading → files.read path = .ok text →
        ∀ t other, t.loading = s.loading ++ [files.absolute path] → motive t other true) →
      motive s path imported) (s : Session) (path : String) (imported : Bool) :
    motive s path imported := by
  induction hn : unvisited files.names s.loading using Nat.strong_induction_on
    generalizing s path imported with
  | _ n ih =>
    refine step s path imported fun text hnotMem htext t other ht => ih _ ?_ t other true rfl
    rw [← hn, ht]
    exact unvisited_lt (fun _ h => List.mem_append_left _ h) (Files.absolute_mem_names htext)
      hnotMem (by simp)

/-- The program unrolled: files are loaded within each other up to a depth, and what is to be
done for the imports that are deeper is left open. -/
def loadUpTo (deeper : Session → String → Work Unit) (files : Files) :
    Nat → Session → String → Bool → Work Unit
  | 0, s, path, _ => deeper s path
  | depth + 1, s, path, imported =>
    s.loadWith (fun t other => loadUpTo deeper files depth t other true) files path imported

/-- **Files are loaded within each other at most as deep as there are files** that are not on the
stack: what would be done for deeper imports does not matter. -/
theorem loadUpTo_eq (deeper : Session → String → Work Unit) (files : Files) {depth : Nat}
    (h : unvisited files.names s.loading < depth) (path : String) (imported : Bool) :
    loadUpTo deeper files depth s path imported = s.load files path imported := by
  induction depth generalizing s path imported with
  | zero => exact absurd h (Nat.not_lt_zero _)
  | succ depth ih =>
    rw [load_eq, loadUpTo]
    by_cases hmem : files.absolute path ∈ s.loading
    · rw [loadWith, loadWith, if_pos hmem, if_pos hmem]
    cases htext : files.read path with
    | error fault => exact loadWith_of_unopened htext _ _ imported
    | ok text =>
      refine loadWith_congr htext (fun t other ht => ih ?_ other true)
        (fun t other => Leaves.load files t other true) imported
      have hlt : unvisited files.names t.loading < unvisited files.names s.loading := by
        rw [ht]
        exact unvisited_lt (fun _ h => List.mem_append_left _ h) (Files.absolute_mem_names htext)
          hmem (by simp)
      omega

/-! ### Statements in turn -/

theorem addAllIn_cons (files : Files) (s : Session) (path : String) (imported : Bool)
    (p : String × Int) (lines : List (String × Int)) :
    s.addAllIn files path imported (p :: lines) =
      (s.addIn files path imported p.1 p.2).andThen fun () t =>
        t.addAllIn files path imported lines :=
  rfl

theorem addAllIn_append (files : Files) (s : Session) (path : String) (imported : Bool)
    (before after : List (String × Int)) : s.addAllIn files path imported (before ++ after) =
      (s.addAllIn files path imported before).andThen fun () t =>
        t.addAllIn files path imported after := by
  induction before generalizing s with
  | nil => rfl
  | cons p before ih =>
    rw [List.cons_append, addAllIn_cons, addAllIn_cons]
    obtain ⟨e | a, t⟩ := s.addIn files path imported p.1 p.2
    · rfl
    · exact ih t

/-- The first statement that fails is met after the ones before it were added. -/
theorem exists_of_addAllIn_error {files : Files} {path : String} {lines : List (String × Int)}
    {e : SessionError} {t : Session} (h : s.addAllIn files path imported lines = (.error e, t)) :
    ∃ before line number after u, lines = before ++ (line, number) :: after ∧
      s.addAllIn files path imported before = (.ok (), u) ∧
      u.addIn files path imported line number = (.error e, t) := by
  induction lines generalizing s with
  | nil => cases h
  | cons p lines ih =>
    rw [addAllIn_cons] at h
    rcases hadd : s.addIn files path imported p.1 p.2 with ⟨e' | a, u⟩
    · rw [hadd] at h
      cases h
      exact ⟨[], p.1, p.2, lines, s, rfl, rfl, hadd⟩
    · rw [hadd] at h
      obtain ⟨before, line, number, after, v, rfl, hbefore, hline⟩ := ih h
      refine ⟨p :: before, line, number, after, v, rfl, ?_, hline⟩
      rw [addAllIn_cons, hadd]
      exact hbefore

/-! ### Nested frames -/

/-- **A statement as it is added**: the session at that moment, the file the statement stands in,
whether that file is imported, and the text and the line of the statement. -/
structure Frame where
  session : Session
  path : String
  imported : Bool
  line : String
  number : Int

namespace Frame

/-- The session in which the statement is registered. -/
def started (f : Frame) : Session :=
  f.session.report (·.registerLine f.path f.line f.number)

/-- Adds the statement. -/
def run (files : Files) (f : Frame) : Work Unit :=
  f.session.addIn files f.path f.imported f.line f.number

end Frame

/-- **Whether a statement is met while a session loads a file**: the file can be loaded, and the
statements before this one are added without an error. -/
structure Meets (files : Files) (s : Session) (path : String) (imported : Bool) (g : Frame) :
    Prop where
  path_eq : g.path = path
  imported_eq : g.imported = imported
  notMem : files.absolute path ∉ s.loading
  exists_before : ∃ text before after, files.read path = .ok text ∧
    Grouping.statements (linesOf text) = before ++ (g.line, g.number) :: after ∧
    (s.enterFile path (files.absolute path)).addAllIn files path imported before =
      (.ok (), g.session)

/-- **Whether a statement imports a file in which another one is met.** -/
def Frame.Imports (files : Files) (f g : Frame) : Prop :=
  ∃ other, Statement.importOf? f.line = some other ∧
    Meets files f.started (files.imported f.path other) true g

/-- A statement that is met has the file on the stack. -/
theorem Meets.loading_eq {files : Files} {path : String} {g : Frame}
    (h : Meets files s path imported g) :
    g.session.loading = s.loading ++ [files.absolute path] := by
  obtain ⟨text, before, after, -, -, hadded⟩ := h.exists_before
  have hleaves := Leaves.addAllIn files (s.enterFile path (files.absolute path)) path imported
    before
  rw [hadded] at hleaves
  exact hleaves.loading

namespace Frame

theorem leaves_run (files : Files) (f : Frame) :
    Leaves f.imported f.session (f.run files).2 :=
  Leaves.addIn files f.session f.path f.imported f.line f.number

/-- The first statement of a file that can be loaded is met. -/
theorem imports_first {files : Files} {f : Frame} {other path text line : String} {number : Int}
    {after : List (String × Int)} (hother : Statement.importOf? f.line = some other)
    (hpath : files.imported f.path other = path)
    (hnotMem : files.absolute path ∉ f.session.loading) (hopen : files.read path = .ok text)
    (hlines : Grouping.statements (linesOf text) = (line, number) :: after) :
    f.Imports files
      ⟨f.started.enterFile path (files.absolute path), path, true, line, number⟩ := by
  refine ⟨other, hother, ?_⟩
  rw [hpath]
  exact ⟨rfl, rfl, hnotMem, text, [], after, hopen, hlines, rfl⟩

/-- The files that are not on the stack get fewer. -/
theorem Imports.unvisited_lt {files : Files} {f g : Frame} (h : f.Imports files g) :
    unvisited files.names g.session.loading < unvisited files.names f.session.loading := by
  obtain ⟨other, -, hmeets⟩ := h
  obtain ⟨text, before, after, htext, -, -⟩ := hmeets.exists_before
  rw [hmeets.loading_eq]
  exact LambdaTrace.unvisited_lt (fun _ h => List.mem_append_left _ h)
    (Files.absolute_mem_names htext) hmeets.notMem (by simp)

/-- **There is no infinite descent into imports.** -/
theorem wellFounded_imports (files : Files) :
    WellFounded fun g f : Frame => f.Imports files g :=
  Subrelation.wf Imports.unvisited_lt
    (measure fun f : Frame => unvisited files.names f.session.loading).wf

end Frame

end Session

end LambdaTrace
