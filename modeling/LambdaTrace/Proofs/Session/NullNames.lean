import Mathlib.Logic.Relation
import LambdaTrace.Proofs.Session.Chain

/-!
# Names with a null character in them

A file name with a null character in it is not handed to the system, and none of the program's
checks look for one. What comes of it is no error of the program
(`LambdaTrace.SessionError.nullInName`), and no statement around the import makes it one: a
statement fails by it exactly if it asks for a file under such a name, or if a statement does that
is met while it imports a file (`LambdaTrace.Session.Frame.exists_run_eq_nullInName_iff`).
-/

namespace LambdaTrace

theorem Files.read_eq_nullInName_iff {files : Files} {name : String} :
    files.read name = .error .nullInName ↔ '\x00' ∈ name.toList := by
  rw [read]
  split
  · rename_i hnull
    exact iff_of_true rfl hnull
  · rename_i hnull
    refine iff_of_false (fun h => ?_) hnull
    split at h <;> cases h

namespace Session

namespace Frame

variable {files : Files} {f g : Frame} {path : String} {t : Session}

/-- **Whether a statement asks for a file under a name with a null character in it.** A file that
is being loaded is not asked for. -/
def AsksNull (files : Files) (f : Frame) : Prop :=
  ∃ other, Statement.importOf? f.line = some other ∧
    files.absolute (files.imported f.path other) ∉ f.session.loading ∧
    '\x00' ∈ (files.imported f.path other).toList

/-- **Whether a statement leads to a name with a null character in it**: it asks for a file under
one, or a statement does that is met while it imports a file. -/
def MeetsNull (files : Files) (f : Frame) : Prop :=
  ∃ g, Relation.ReflTransGen (Imports files) f g ∧ g.AsksNull files

theorem AsksNull.exists_run_eq (h : f.AsksNull files) :
    ∃ path t, f.run files = (.error (.nullInName path), t) := by
  obtain ⟨other, himport, hnotMem, hnull⟩ := h
  have hload := load_of_unopened (s := f.started) hnotMem (Files.read_eq_nullInName_iff.mpr hnull)
    true
  refine ⟨files.imported f.path other, f.started, ?_⟩
  rw [run_of_import himport, hload]
  rfl

/-- A statement that imports no file is refused in another way. -/
theorem run_ne_of_not_import (h : Statement.importOf? f.line = none) :
    f.run files ≠ (.error (.nullInName path), t) := by
  intro hrun
  rw [run, addIn, addWith] at hrun
  rw [Statement.importOf?] at h
  split at h
  · rename_i statement hinfer
    rw [hinfer] at hrun
    rcases Work.andThen_eq_error hrun with hdone | ⟨_, _, -, hfinish⟩
    · rw [performWith] at hdone
      split at hdone
      · rename_i hkind
        rw [hkind] at h
        cases h
      · rw [addDefinition, define] at hdone
        split at hdone <;> cases hdone
      · cases hdone
    · cases hfinish
  · rename_i hinfer
    rw [hinfer] at hrun
    cases hrun

/-- Where a name with a null character in it is met, it is asked for by the statement itself or by
one that is met while it imports a file. -/
theorem run_eq_nullInName_cases (h : f.run files = (.error (.nullInName path), t)) :
    f.AsksNull files ∨
      ∃ g t', f.Imports files g ∧ g.run files = (.error (.nullInName path), t') := by
  cases himport : Statement.importOf? f.line with
  | none => exact absurd h (run_ne_of_not_import himport)
  | some other =>
    rw [run_of_import himport] at h
    rcases Work.andThen_eq_error h with hload | ⟨_, _, -, hfinish⟩
    · rcases load_error_cases hload (by simp) with ⟨-, hbars⟩ | ⟨g, t', hmeets, hg, -⟩
      · generalize he : SessionError.nullInName path = e at hbars
        cases hbars with
        | loading => cases he
        | @unopened fault hnotMem hfault =>
          cases fault with
          | notFound => cases he
          | nullInName =>
            exact Or.inl ⟨other, himport, hnotMem, Files.read_eq_nullInName_iff.mp hfault⟩
      · exact Or.inr ⟨g, t', ⟨other, himport, hmeets⟩, hg⟩
    · cases hfinish

/-- **By which statements a name with a null character in it is met.** -/
theorem exists_run_eq_nullInName_iff :
    (∃ path t, f.run files = (.error (.nullInName path), t)) ↔ f.MeetsNull files := by
  constructor
  · rintro ⟨path, t, hrun⟩
    -- each import is a step down, and the last one asks for the name
    induction f using (wellFounded_imports files).induction generalizing t with
    | _ f ih =>
      rcases run_eq_nullInName_cases hrun with hasks | ⟨g, t', himports, hg⟩
      · exact ⟨f, .refl, hasks⟩
      · obtain ⟨last, hreach, hasks⟩ := ih g himports t' hg
        exact ⟨last, .head himports hreach, hasks⟩
  · rintro ⟨last, hreach, hasks⟩
    induction hreach using Relation.ReflTransGen.head_induction_on with
    | refl => exact hasks.exists_run_eq
    | head himports _ ih =>
      obtain ⟨path, t, hg⟩ := ih
      obtain ⟨u, hu, -⟩ := himports.exists_run_eq hg
      exact ⟨path, u, hu⟩

end Frame

end Session

end LambdaTrace
