import Mathlib.Data.List.Nodup
import LambdaTrace.Proofs.Files.Name
import LambdaTrace.Proofs.Session.Frames

/-!
# The stack of files being loaded

However files import each other, loading one ends, and while it lasts no name is twice on the
stack of files being loaded (`LambdaTrace.Session.load_terminates`). Every exit leaves the stack
as it was found, be the file loaded, missing, being loaded already, or faulty at any depth. So
between two requests the stack is empty, whatever went wrong in the ones before.

Names on the stack are absolute and in normal form, so that a file is found on it under whatever
relative name it is imported.
-/

namespace LambdaTrace

namespace Session

variable {s s' : Session} {imported : Bool}

/-! ### The stack at every moment -/

/-- **A stack of files**: no name is on it twice, and all names are absolute and in normal
form. -/
def IsStack (stack : List String) : Prop :=
  stack.Nodup ∧ ∀ name ∈ stack, FileName.IsNormal name

theorem IsStack.append {stack : List String} {name : String} (h : IsStack stack)
    (hname : name ∉ stack) (hnormal : FileName.IsNormal name) : IsStack (stack ++ [name]) := by
  refine ⟨List.nodup_append.mpr ⟨h.1, List.nodup_singleton name, ?_⟩, ?_⟩
  · rintro a ha b hb rfl
    exact hname (List.mem_singleton.mp hb ▸ ha)
  · intro n hn
    rcases List.mem_append.mp hn with hn | hn
    · exact h.2 n hn
    · exact List.mem_singleton.mp hn ▸ hnormal

/-- **The sessions there are while a session loads a file**: after some of the statements of the
file, the last of which may have failed, and while one of them imports another file. -/
inductive During (files : Files) : Session → String → Bool → Session → Prop
  | adding {s t : Session} {path text : String} {imported : Bool} {r : Except SessionError Unit}
      {before after : List (String × Int)} (notMem : files.absolute path ∉ s.loading)
      (opened : files.read path = .ok text)
      (statements_eq : Grouping.statements (linesOf text) = before ++ after)
      (added : (s.enterFile path (files.absolute path)).addAllIn files path imported before =
        (r, t)) : During files s path imported t
  | inside {s t : Session} {path other : String} {imported : Bool} {f : Frame}
      (meets : Meets files s path imported f) (importing : Statement.importOf? f.line = some other)
      (during : During files f.started (files.imported f.path other) true t) :
      During files s path imported t

/-- **The stack stays a stack.** -/
theorem During.isStack {files : Files} {path : String} {t : Session} (hfiles : files.IsRooted)
    (h : During files s path imported t) (hs : IsStack s.loading) : IsStack t.loading := by
  induction h with
  | @adding s _ path _ imported _ before _ notMem _ _ added =>
    have hleaves := Leaves.addAllIn files (s.enterFile path (files.absolute path)) path imported
      before
    rw [added] at hleaves
    rw [hleaves.loading]
    exact hs.append notMem (hfiles.isNormal_absolute path)
  | inside meets _ _ ih =>
    refine ih ?_
    rw [Frame.started, report, meets.loading_eq]
    exact hs.append meets.notMem (hfiles.isNormal_absolute _)

/-- **Loading ends, and the stack stays a stack.** A file is loaded as the program has it, which
the stack of the session alone decides; the program loads files within each other at most once
more than there are files, whatever it would do beyond that depth. At every moment the names on
the stack are distinct, absolute and in normal form. The stack is left as it was found, both by
loading a file and by adding a statement, so it is empty between two requests. -/
theorem load_terminates {files : Files} (hfiles : files.IsRooted) :
    (∀ (s : Session) (path : String) (imported : Bool),
      s.load files path imported =
        s.loadWith (fun t other => t.load files other true) files path imported ∧
      (∀ deeper, loadUpTo deeper files (files.names.length + 1) s path imported =
        s.load files path imported) ∧
      (s.load files path imported).2.loading = s.loading ∧
      (IsStack s.loading → ∀ t, During files s path imported t → IsStack t.loading)) ∧
    (∀ f : Frame, (f.run files).2.loading = f.session.loading) ∧
    ∀ (reporter : Reporter) (path : String) (options : Options) (requests : List Request),
      ((start files reporter path options).2.afterAll requests).loading = [] := by
  refine ⟨fun s path imported => ⟨load_eq files s path imported, fun deeper => ?_,
    (Leaves.load files s path imported).loading, fun hs t ht => ht.isStack hfiles hs⟩,
    fun f => (f.leaves_run files).loading, loading_afterAll files⟩
  exact loadUpTo_eq deeper files (Nat.lt_succ_of_le List.countP_le_length) path imported

/-- Two files that import each other, one of them by a name with detours. -/
def circle : Files :=
  .ofContents "/w" [("/w/a.lc", "#import \"b.lc\"\n"),
    ("/w/b.lc", "A := λx. x\n#import \"sub/.././a.lc\"\n")]

theorem load_terminates_circle : circle.IsRooted ∧
    ((fresh (.start false .plain) commandLineName false).load circle "a.lc" true).1 =
      .error (.circularImport "/w/sub/.././a.lc") := by
  have hrooted : circle.IsRooted := by decide +kernel
  refine ⟨hrooted, ?_⟩
  obtain ⟨-, hdepth, -⟩ := (load_terminates hrooted).1
    (fresh (.start false .plain) commandLineName false) "a.lc" true
  rw [← hdepth fun t _ => (.ok (), t)]
  decide +kernel

end Session

end LambdaTrace
