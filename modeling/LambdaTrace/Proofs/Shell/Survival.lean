import LambdaTrace.Proofs.Session.Prompt
import LambdaTrace.Shell.Basic

/-!
# The shell goes on

All work of the shell is done under its reporter: the commands that ask the session for something,
and the statements that are complete. What comes out of it, if not a result, is an error that has
a report, never a slip of the program (`LambdaTrace.Shell.survives`). So the reporter writes it,
the session is at rest again, and the next line is read; only `exit` and the end of the input stop
the shell.

There is one exception. A statement that leads to a file name with a null character in it comes to
something that has no report. It is written like a fault of the program, and it ends the shell
(`LambdaTrace.Shell.ended_by_nullInName`). This depends on nothing else: a line does so exactly if
it leads to such a name (`LambdaTrace.Shell.MeetsNull`).

That no slip can happen is not seen from a single request. Files are taken off the list that were
put on it before, statements are run that were put off, and a definition is shown under a name
that is found in another way than by the table. What makes this right is kept from one line to
the next: between two lines the session is at rest (`LambdaTrace.Session.AtRest`).
-/

namespace LambdaTrace

namespace Session

variable {s : Session}

/-! ### Writing -/

theorem Steady.write (h : s.Steady) (text : String) : (s.report (·.write text)).Steady :=
  h.congr (h.coherent.congr rfl rfl) rfl rfl rfl rfl

theorem AtRest.write (h : s.AtRest) (text : String) : (s.report (·.write text)).AtRest :=
  ⟨h.steady.write text, h.idle, h.pending, h.results⟩

theorem Shown.write (h : s.Shown) (text : String) : (s.report (·.write text)).Shown :=
  ⟨h.steady.write text, h.idle, h.finds, h.pending⟩

/-- A result is fetched. -/
theorem Shown.fetch (h : s.Shown) {r : StatementResult} {rest : List StatementResult}
    (hresults : s.results = r :: rest) : Shown { s with results := rest } :=
  ⟨h.steady.congr (h.steady.coherent.congr rfl rfl) rfl rfl rfl rfl, h.idle,
    fun q hq => h.finds q (hresults ▸ List.mem_cons_of_mem _ hq), h.pending⟩

theorem Shown.atRest (h : s.Shown) (hresults : s.results = []) : s.AtRest :=
  ⟨h.steady, h.idle, h.pending, hresults⟩

end Session

namespace Shell

open Session (Frame)

variable {files : Files} {sh : Shell} {Q : Prop}

/-! ### Work under the reporter -/

/-- **How a piece of work ends**: with an error that has a report, or well; or with a name with a
null character in it, for which there is a condition. -/
inductive Ends {α : Type} (Q : Prop) (P : Shell → Prop) : Except Failure α × Shell → Prop
  | refused {e : SessionError} {sh : Shell} : e.HasReport → sh.session.Refused →
    Ends Q P (.error (.reported e.report), sh)
  | nullInName {sh : Shell} : Q → sh.session.Refused → Ends Q P (.error .nullInName, sh)
  | granted {a : α} {sh : Shell} : P sh → Ends Q P (.ok a, sh)

/-- Whether the session of a shell is at rest. -/
def Rests (sh : Shell) : Prop :=
  sh.session.AtRest

theorem ends_onSession {α : Type} {P : Session → Prop} {w : Session.Work α}
    (h : Session.Ends Q P w) (sh : Shell) : Ends Q (fun t => P t.session) (sh.onSession w) := by
  cases h with
  | nullInName hq ht => exact .nullInName hq ht
  | refused he ht =>
    rw [onSession, Except.mapError, SessionError.failure_eq he]
    exact .refused he ht
  | granted ht => exact .granted ht

theorem Ends.imp {α : Type} {Q' : Prop} {P : Shell → Prop} {w : Except Failure α × Shell}
    (h : Ends Q P w) (hq : Q → Q') : Ends Q' P w := by
  cases h with
  | refused he ht => exact .refused he ht
  | nullInName hq' ht => exact .nullInName (hq hq') ht
  | granted ht => exact .granted ht

theorem ends_andThen {α β : Type} {P P' : Shell → Prop} {w : Except Failure α × Shell}
    {f : α → Shell → Except Failure β × Shell} (h : Ends Q P w)
    (hf : ∀ a t, P t → Ends Q P' (f a t)) : Ends Q P' (andThen w f) := by
  cases h with
  | refused he ht => exact .refused he ht
  | nullInName hq ht => exact .nullInName hq ht
  | granted ht => exact hf _ _ ht

/-! ### Showing results -/

theorem write_write (sh : Shell) (a b : String) : (sh.write a).write b = sh.write (a ++ b) := by
  simp [write, Session.report, Reporter.write, String.append_assoc]

theorem exists_foldl_print (lines : List String) (sh : Shell) :
    ∃ text, lines.foldl print sh = sh.write text := by
  induction lines generalizing sh with
  | nil => exact ⟨"", by simp [write, Session.report, Reporter.write]⟩
  | cons line lines ih =>
    obtain ⟨text, htext⟩ := ih (sh.print line)
    exact ⟨line ++ "\n" ++ text, by rw [List.foldl_cons, htext, print, write_write]⟩

/-- A result is shown, if it is no definition or its definition is found. -/
theorem exists_showResult (sh : Shell) {r : StatementResult} (h : r.statement.kind = .definition →
    ∃ d, sh.session.table.get? (r.statement.definedName?.getD "") = some d) :
    ∃ text, sh.showResult r = .ok (sh.write text) := by
  rw [showResult]
  split
  · rename_i hkind
    obtain ⟨d, hd⟩ := h hkind
    rw [showDefinition, hd]
    exact ⟨_, rfl⟩
  · rw [showRun]
    obtain ⟨text, htext⟩ := exists_foldl_print (sh.traceLines r.trace) sh
    rw [htext]
    split
    · exact ⟨_, congrArg Except.ok (write_write sh text _)⟩
    · exact ⟨text, rfl⟩

/-- **All results are shown.** -/
theorem ends_showResults {results : List StatementResult} (h : sh.session.Shown)
    (hresults : sh.session.results = results) : Ends Q Rests (showResults results sh) := by
  induction results generalizing sh with
  | nil => exact .granted (h.atRest hresults)
  | cons r rest ih =>
    have hfetched := h.fetch hresults
    obtain ⟨text, htext⟩ := exists_showResult
      { sh with session := { sh.session with results := rest } }
      (h.finds r (hresults ▸ List.mem_cons_self))
    rw [showResults]
    dsimp only
    rw [htext]
    exact ih (hfetched.write text) rfl

/-- **A statement is carried out.** -/
theorem ends_carryOut (hfiles : files.IsRooted) (h : sh.Rests) (text : String) :
    Ends (Frame.MeetsNull files ⟨sh.session, Session.commandLineName, false, text, sh.lineNumber⟩)
      Rests (carryOut files sh text) :=
  ends_andThen (ends_onSession (Session.AtRest.add h hfiles text sh.lineNumber) sh) fun _ t ht =>
    ends_andThen (ends_onSession (Session.Added.run ht) t) fun _ _ hu => ends_showResults hu rfl

/-! ### Commands -/

theorem Rests.write (h : sh.Rests) (text : String) : (sh.write text).Rests :=
  Session.AtRest.write h text

theorem Rests.print (h : sh.Rests) (line : String) : (sh.print line).Rests :=
  h.write (line ++ "\n")

theorem Rests.foldl_print (h : sh.Rests) (lines : List String) :
    (lines.foldl Shell.print sh).Rests := by
  obtain ⟨text, htext⟩ := exists_foldl_print lines sh
  rw [htext]
  exact h.write text

theorem ends_commandStrategy (h : sh.Rests) (argument : String) :
    Ends Q Rests (sh.commandStrategy argument) := by
  refine ends_andThen (ends_onSession (P := Session.AtRest) ?_ sh) fun _ t ht =>
    .granted (Rests.print ht _)
  split
  · exact .granted h
  · exact Session.AtRest.setStrategy h argument

theorem ends_commandTimeout (h : sh.Rests) (argument : String) :
    Ends Q Rests (sh.commandTimeout argument) := by
  refine ends_andThen (ends_onSession (P := Session.AtRest) ?_ sh) fun _ t ht =>
    .granted (Rests.print ht _)
  split
  · exact .granted h
  · exact Session.AtRest.setBudget h (.text argument)

theorem ends_commandMacros (h : sh.Rests) : Ends Q Rests sh.commandMacros := by
  refine ends_andThen (ends_onSession (Session.AtRest.macroList h) sh) fun ds t ht => .granted ?_
  have hlines := Rests.foldl_print ht (ds.map fun d => d.line d.unreduced)
  rwa [List.foldl_map] at hlines

theorem ends_commandGuess (h : sh.Rests) (argument : String) :
    Ends Q Rests (sh.commandGuess argument) := by
  refine ends_andThen (ends_onSession (Session.AtRest.checkGuess h argument) sh) fun r t ht => ?_
  obtain ⟨correct, actual⟩ := r
  cases actual with
  | none => exact .granted (Rests.print ht _)
  | some u => exact .granted (Rests.print ht _)

theorem ends_commandTree (h : sh.Rests) (argument : String) :
    Ends Q Rests (sh.commandTree argument) := by
  rw [commandTree]
  split
  · rename_i e _
    have hreport : (SessionError.reading e).HasReport := trivial
    rw [SessionError.failure_eq hreport]
    exact .refused hreport (Session.AtRest.refused h)
  · exact .granted (Rests.print h _)

/-! ### Lines -/

/-- **The work that is done under the reporter** for a line at the prompt. -/
def work? (files : Files) (sh : Shell) (line : String) : Option (Except Failure Unit × Shell) :=
  match Input.ofLine line with
  | .command .strategy argument => some (sh.commandStrategy argument)
  | .command .timeout argument => some (sh.commandTimeout argument)
  | .command .macros _ => some sh.commandMacros
  | .command .guess argument => some (sh.commandGuess argument)
  | .command .tree argument => some (sh.commandTree argument)
  | .statement line =>
    match sh.hold line with
    | (none, _) => none
    | (some text, sh) => some (carryOut files sh text)
  | _ => none

/-- Whether a line at the prompt is to stop the shell. -/
def stops (line : String) : Bool :=
  match Input.ofLine line with
  | .command .exit _ => true
  | .command .endOfInput _ => true
  | _ => false

/-- **Whether a line leads to a file name with a null character in it**: it completes a statement,
and this asks for a file under such a name, or one does that is met while it imports a file. -/
def MeetsNull (files : Files) (sh : Shell) (line : String) : Prop :=
  ∃ input text held, Input.ofLine line = .statement input ∧ sh.hold input = (some text, held) ∧
    Frame.MeetsNull files
      ⟨held.session, Session.commandLineName, false, text, held.lineNumber⟩

theorem session_hold (sh : Shell) (line : String) : (sh.hold line).2.session = sh.session := by
  rw [hold]
  dsimp only
  split <;> rfl

/-- What is done for a line ends well, or with an error that has a report, unless the line leads
to a name with a null character in it. -/
theorem ends_work (hfiles : files.IsRooted) (h : sh.Rests) {line : String}
    {w : Except Failure Unit × Shell} (hw : sh.work? files line = some w) :
    Ends (sh.MeetsNull files line) Rests w := by
  rw [work?] at hw
  split at hw
  case h_6 input hinput =>
    have hsession := sh.session_hold input
    split at hw
    · cases hw
    · rename_i text held heq
      rw [heq] at hsession
      rw [← Option.some.inj hw]
      exact (ends_carryOut hfiles (show held.session.AtRest from hsession ▸ h) text).imp
        fun hnull => ⟨input, text, held, hinput, heq, hnull⟩
  case h_7 => cases hw
  all_goals rw [← Option.some.inj hw]
  · exact ends_commandStrategy h _
  · exact ends_commandTimeout h _
  · exact ends_commandMacros h
  · exact ends_commandGuess h _
  · exact ends_commandTree h _

/-- A name with a null character in it is what the line leading to it comes to. -/
theorem exists_work_of_meetsNull (h : sh.Rests) {line : String} (hnull : sh.MeetsNull files line) :
    ∃ t, sh.work? files line = some (.error .nullInName, t) := by
  obtain ⟨input, text, held, hinput, hhold, hnull⟩ := hnull
  have hsession := sh.session_hold input
  rw [hhold] at hsession
  have hrests : held.session.AtRest := hsession ▸ h
  obtain ⟨path, s, hrun⟩ := Frame.exists_run_eq_nullInName_iff.mpr hnull
  refine ⟨{ held with session := s }, ?_⟩
  rw [work?, hinput]
  dsimp only
  rw [hhold]
  dsimp only
  rw [carryOut, hrests.add_eq_run, hrun]
  rfl

theorem work_eq_nullInName_iff (hfiles : files.IsRooted) (h : sh.Rests) {line : String}
    {w : Except Failure Unit × Shell} (hw : sh.work? files line = some w) :
    w.1 = .error .nullInName ↔ sh.MeetsNull files line := by
  constructor
  · intro hnull
    cases ends_work hfiles h hw with
    | refused => cases hnull
    | nullInName hmeets => exact hmeets
    | granted => cases hnull
  · intro hmeets
    obtain ⟨t, ht⟩ := exists_work_of_meetsNull h hmeets
    rw [hw] at ht
    rw [Option.some.inj ht]

/-- Once an error is written, the shell is at rest. -/
theorem rests_throw (h : sh.session.Refused) (r : Report) :
    Rests { sh with session := { sh.session with reporter := sh.session.reporter.throw r } } :=
  h.throw r

/-- Once it is closed, work leaves the shell at rest, and the shell goes on unless a name has a
null character in it. -/
theorem Ends.exists_close {w : Except Failure Unit × Shell} (h : Ends Q Rests w) :
    ∃ t, t.Rests ∧ (w.1 ≠ .error .nullInName ∧ close w = (.ok false, t) ∨
      w.1 = .error .nullInName ∧ close w = (.error .nullInName, t)) := by
  cases h with
  | @refused e t he ht =>
    refine ⟨_, rests_throw ht e.report, Or.inl ⟨by simp [Failure.nullInName], ?_⟩⟩
    rw [close, Reporter.close]
    dsimp only
    rw [ht.verdict]
  | @nullInName t _ ht =>
    obtain ⟨r, hclose⟩ := t.session.reporter.close_nullInName
    refine ⟨_, rests_throw ht r, Or.inr ⟨rfl, ?_⟩⟩
    rw [close, hclose]
    dsimp only
    rw [ht.verdict]
  | granted ht => exact ⟨_, ht, Or.inl ⟨by simp, rfl⟩⟩

/-- What is done under the reporter is all that is done for a line. -/
theorem enter_eq_close {line : String} {w : Except Failure Unit × Shell}
    (hw : sh.work? files line = some w) : sh.enter files line = close w ∧ stops line = false := by
  rw [work?] at hw
  rw [enter, stops]
  cases hinput : Input.ofLine line with
  | nothing =>
    rw [hinput] at hw
    cases hw
  | command c argument =>
    rw [hinput] at hw
    cases c with
    | strategy | timeout | macros | guess | tree =>
      rw [← Option.some.inj hw]
      exact ⟨rfl, rfl⟩
    | help | endOfInput | exit => cases hw
  | statement text =>
    rw [hinput] at hw
    dsimp only at hw ⊢
    rw [takeLine]
    rcases hhold : sh.hold text with ⟨_ | complete, held⟩ <;> rw [hhold] at hw
    · exact absurd hw.symm (Option.some_ne_none w)
    · rw [← Option.some.inj hw]
      exact ⟨rfl, rfl⟩

/-- Where nothing is done under the reporter, something is held back or written. -/
theorem exists_enter_of_none (h : sh.Rests) {line : String} (hw : sh.work? files line = none) :
    ∃ t, sh.enter files line = (.ok (stops line), t) ∧ t.Rests := by
  rw [work?] at hw
  rw [enter, stops]
  cases hinput : Input.ofLine line with
  | nothing => exact ⟨sh, rfl, h⟩
  | command c argument =>
    rw [hinput] at hw
    cases c with
    | strategy | timeout | macros | guess | tree => cases hw
    | help => exact ⟨_, rfl, Rests.print h _⟩
    | endOfInput => exact ⟨_, rfl, Rests.print h _⟩
    | exit => exact ⟨sh, rfl, h⟩
  | statement text =>
    rw [hinput] at hw
    have hsession := sh.session_hold text
    dsimp only at hw ⊢
    rw [takeLine]
    rcases hhold : sh.hold text with ⟨_ | complete, held⟩ <;> rw [hhold] at hsession hw
    · exact ⟨held, rfl, show held.session.AtRest from hsession ▸ h⟩
    · exact absurd hw (Option.some_ne_none _)

/-- **A line leaves the shell at rest.** It stops the shell only if it is to, or if it leads to a
name with a null character in it. -/
theorem exists_enter (hfiles : files.IsRooted) (h : sh.Rests) (line : String) :
    ∃ t, t.Rests ∧ (¬ sh.MeetsNull files line ∧ sh.enter files line = (.ok (stops line), t) ∨
      sh.MeetsNull files line ∧ sh.enter files line = (.error .nullInName, t)) := by
  cases hw : sh.work? files line with
  | none =>
    obtain ⟨t, ht, hrests⟩ := exists_enter_of_none h hw
    refine ⟨t, hrests, Or.inl ⟨fun hnull => ?_, ht⟩⟩
    obtain ⟨u, hu⟩ := exists_work_of_meetsNull h hnull
    rw [hw] at hu
    cases hu
  | some w =>
    obtain ⟨hclose, hstops⟩ := enter_eq_close hw
    obtain ⟨t, hrests, ht⟩ := (ends_work hfiles h hw).exists_close
    rw [hclose, hstops, ← work_eq_nullInName_iff hfiles h hw]
    exact ⟨t, hrests, ht⟩

/-! ### Every shell -/

/-- **A shell that was opened** on a session of the command line. -/
def IsOpened (files : Files) (sh : Shell) : Prop :=
  ∃ fatal paint options s, Session.start files (.start fatal paint)
    Session.commandLineName options = (.ok (), s) ∧ sh = (ofSession s).print welcome

/-- The shell after some lines at the prompt. -/
def afterLines (files : Files) (sh : Shell) (lines : List String) : Shell :=
  lines.foldl (fun sh line => (sh.enter files line).2) sh

/-- A shell that has neither macros nor read anything. -/
def bareShell (files : Files) : Shell :=
  (ofSession (Session.start files (.start true .plain) Session.commandLineName
    ⟨none, none, false, true⟩).2).print welcome

theorem isOpened_bareShell (files : Files) : (bareShell files).IsOpened files :=
  ⟨true, .plain, ⟨none, none, false, true⟩, _, rfl, rfl⟩

theorem IsOpened.rests (h : sh.IsOpened files) : sh.Rests := by
  obtain ⟨fatal, paint, options, s, hs, rfl⟩ := h
  exact Rests.print (Session.atRest_start hs) welcome

/-- **The shell is at rest between any two lines**, whatever was typed before. -/
theorem Rests.afterLines (hfiles : files.IsRooted) (h : sh.Rests) (lines : List String) :
    (sh.afterLines files lines).Rests := by
  induction lines generalizing sh with
  | nil => exact h
  | cons line lines ih =>
    obtain ⟨t, hrests, ⟨-, ht⟩ | ⟨-, ht⟩⟩ := exists_enter hfiles h line
    all_goals
      have hnext : (sh.enter files line).2.Rests := by rwa [ht]
      exact ih hnext

/-- A directory without files. -/
def noFiles : Files :=
  .ofContents "/w" []

end Shell

end LambdaTrace
