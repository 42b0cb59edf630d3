import LambdaTrace.Proofs.Session.Chain
import LambdaTrace.Proofs.Shell.Survival

/-!
# Where an error is said to come from

The report of an error lists the statements that led to it. Whatever was typed before, these are
the statements of the chain of imports, from the one at the prompt to the one that fails
(`LambdaTrace.Shell.origin_of_error`). They are listed in the order of the chain only if no file
of it was listed before the one that imports it. This can happen: once an error is reported, the
files that led to it stay listed, and a file that is imported again later keeps its old place
(`LambdaTrace.Shell.exists_origin_out_of_order`).
-/

namespace LambdaTrace

namespace Shell

open Session (Frame)

variable {files : Files} {sh : Shell}

/-- **The origin of an error.** After any lines, a statement that fails has one chain of
statements, which begins with it; each of them imports the file of the next one, and the last one
fails by itself. When the error is reported, the statements being worked on are just those of the
chain. They are listed in its order exactly if no file of the chain was listed before the one that
imports it, and in any case if none of the imported files was listed before. -/
theorem origin_of_error (hfiles : files.IsRooted) (hopened : sh.IsOpened files)
    (lines : List String) {text : String} (htext : text ≠ "") {number : Int} {e : SessionError}
    {s : Session}
    (hadd : (sh.afterLines files lines).session.add files text number = (.error e, s)) :
    ∃ chain, Frame.Breaks files
        ⟨(sh.afterLines files lines).session, Session.commandLineName, false, text, number⟩ chain ∧
      (∀ other, Frame.Breaks files
        ⟨(sh.afterLines files lines).session, Session.commandLineName, false, text, number⟩ other →
        other = chain) ∧
      s.reporter.traceback.active.Perm (chain.map Frame.entry) ∧
      (s.reporter.traceback.active = chain.map Frame.entry ↔
        chain.IsChain fun f g => ¬ [g.path, f.path].Sublist f.session.reporter.traceback.paths) ∧
      ((∀ g ∈ chain.tail,
          g.path ∉ (sh.afterLines files lines).session.reporter.traceback.paths) →
        s.reporter.traceback.active = chain.map Frame.entry) := by
  have hrests := hopened.rests.afterLines hfiles lines
  have hproper := Session.AtRest.proper hrests files text number
  rw [Session.AtRest.add_eq_run hrests] at hadd
  obtain ⟨chain, hchain, hunique⟩ := Frame.existsUnique_breaks hfiles hproper ⟨e, s, hadd⟩
  obtain ⟨hperm, hiff⟩ := hchain.active_perm_and_eq_iff hfiles hproper hrests.idle htext
  rw [hadd] at hperm hiff
  exact ⟨chain, hchain, hunique, hperm, hiff,
    fun hnew => hiff.mpr (hchain.isChain_of_notMem hfiles hproper hnew)⟩

/-- A file that imports a faulty one. -/
def faultyFiles : Files :=
  .ofContents "/w" [("/w/a.lc", "#import \"b.lc\"\n"), ("/w/b.lc", "A := y\n")]

/-- The statement at the prompt, after the faulty file was imported by itself. -/
def typedImport : Frame :=
  ⟨((bareShell faultyFiles).afterLines faultyFiles ["#import \"b.lc\""]).session,
    Session.commandLineName, false, "#import \"a.lc\"", 2⟩

/-- The statement of the file in between. -/
def middleImport : Frame :=
  ⟨typedImport.started.enterFile "/w/a.lc" (faultyFiles.absolute "/w/a.lc"), "/w/a.lc", true,
    "#import \"b.lc\"", 1⟩

/-- The faulty statement. -/
def faultyDefinition : Frame :=
  ⟨middleImport.started.enterFile "/w/b.lc" (faultyFiles.absolute "/w/b.lc"), "/w/b.lc", true,
    "A := y", 1⟩

/-- The chain to the faulty statement. -/
theorem breaks_typedImport :
    typedImport.Breaks faultyFiles [typedImport, middleImport, faultyDefinition] := by
  have hother : Statement.importOf? typedImport.line = some "a.lc" := by decide +kernel
  have hother' : Statement.importOf? middleImport.line = some "b.lc" := by decide +kernel
  have hnone : Statement.importOf? faultyDefinition.line = none := by decide +kernel
  have hopen : faultyFiles.read "/w/a.lc" = .ok "#import \"b.lc\"\n" := by decide +kernel
  have hopen' : faultyFiles.read "/w/b.lc" = .ok "A := y\n" := by decide +kernel
  have hlines : Grouping.statements (linesOf "#import \"b.lc\"\n") =
      [("#import \"b.lc\"", 1)] := by decide +kernel
  have hlines' : Grouping.statements (linesOf "A := y\n") = [("A := y", 1)] := by decide +kernel
  have hmiddle : typedImport.Imports faultyFiles middleImport :=
    Frame.imports_first hother (by decide +kernel) (by decide +kernel) hopen hlines
  have hfaulty : middleImport.Imports faultyFiles faultyDefinition :=
    Frame.imports_first hother' (by decide +kernel) (by decide +kernel) hopen' hlines'
  have hfails : faultyDefinition.Fails faultyFiles :=
    Frame.fails_of_isOk (by decide +kernel)
  exact .inside hmiddle (.inside hfaulty
    (.here hfails fun g hg => absurd hg (Frame.not_imports hnone g)))

/-- The statement at the prompt fails. -/
theorem exists_add_eq_error : ∃ e s, typedImport.run faultyFiles = (.error e, s) ∧
    typedImport.session.add faultyFiles "#import \"a.lc\"" 2 = (.error e, s) := by
  obtain ⟨e, s, hrun⟩ := breaks_typedImport.fails
  have hpath : typedImport.session.path = Session.commandLineName := by decide +kernel
  refine ⟨e, s, hrun, ?_⟩
  rw [Session.add_eq, hpath]
  exact hrun

/-- **A file that is listed from an error before is shown out of order.** -/
theorem exists_origin_out_of_order : faultyFiles.IsRooted ∧
    (bareShell faultyFiles).IsOpened faultyFiles ∧ ∃ chain e s,
      ((bareShell faultyFiles).afterLines faultyFiles ["#import \"b.lc\""]).session.add faultyFiles
        "#import \"a.lc\"" 2 = (.error e, s) ∧
      typedImport.Breaks faultyFiles chain ∧
      s.reporter.traceback.active ≠ chain.map Frame.entry := by
  obtain ⟨e, s, hrun, hadd⟩ := exists_add_eq_error
  have hactive : (typedImport.run faultyFiles).2.reporter.traceback.active ≠
      [typedImport, middleImport, faultyDefinition].map Frame.entry := by decide +kernel
  rw [hrun] at hactive
  exact ⟨by decide +kernel, isOpened_bareShell faultyFiles, _, e, s, hadd, breaks_typedImport,
    hactive⟩

theorem origin_of_error_faulty : ∃ chain e s,
    ((bareShell faultyFiles).afterLines faultyFiles ["#import \"b.lc\""]).session.add faultyFiles
      "#import \"a.lc\"" 2 = (.error e, s) ∧
    typedImport.Breaks faultyFiles chain ∧
    s.reporter.traceback.active.Perm (chain.map Frame.entry) := by
  obtain ⟨e, s, -, hadd⟩ := exists_add_eq_error
  obtain ⟨chain, hchain, -, hperm, -⟩ := origin_of_error (by decide +kernel)
    (isOpened_bareShell faultyFiles) ["#import \"b.lc\""] (by decide) hadd
  exact ⟨chain, e, s, hadd, hchain, hperm⟩

end Shell

end LambdaTrace
