import LambdaTrace.Proofs.Shell.Survival
import LambdaTrace.Proofs.Text.Grouping

/-!
# Typed lines and lines of a file

A file and the shell see the same statements. A file is read as a whole, its lines being grouped
into statements as they come; the shell holds back what is not complete, and cleans it again with
the next line. What is held back is the text that is open while the lines are grouped
(`LambdaTrace.Shell.exists_collects_enter`), so the statements that the shell adds to its session
are those of a file with the same lines, up to one that is still open at the end
(`LambdaTrace.Shell.passed_eq_statements`).
-/

namespace LambdaTrace

/-! ### The lines of a file -/

/-- Whether a text stands on one line. -/
def IsOneLine (s : List Char) : Prop :=
  ∀ c ∈ s, c ≠ '\n' ∧ c ≠ '\r'

instance (s : List Char) : Decidable (IsOneLine s) :=
  decidable_of_iff (s.all (fun c => c != '\n' && c != '\r') = true) (by simp [IsOneLine])

theorem splitLines_append {s : List Char} (hs : IsOneLine s) (line rest : List Char) :
    splitLines line (s ++ '\n' :: rest) = (line.reverse ++ s) :: splitLines [] rest := by
  induction s generalizing line with
  | nil => rw [List.nil_append, splitLines, List.append_nil]
  | cons c s ih =>
    obtain ⟨hfeed, hreturn⟩ := hs c List.mem_cons_self
    have hstep : splitLines line (c :: (s ++ '\n' :: rest)) =
        splitLines (c :: line) (s ++ '\n' :: rest) := by
      rw [splitLines] <;> simp_all
    rw [List.cons_append, hstep, ih fun d hd => hs d (List.mem_cons_of_mem _ hd),
      List.reverse_cons, List.append_assoc, List.singleton_append]

/-- **Lines can be put into a file.** -/
theorem exists_linesOf_eq {lines : List String} (h : ∀ line ∈ lines, IsOneLine line.toList) :
    ∃ contents, linesOf contents = lines := by
  refine ⟨String.ofList (lines.flatMap fun line => line.toList ++ ['\n']), ?_⟩
  rw [linesOf, String.toList_ofList]
  induction lines with
  | nil => rfl
  | cons line lines ih =>
    rw [List.flatMap_cons, List.append_assoc, List.singleton_append,
      splitLines_append (h line List.mem_cons_self), List.reverse_nil, List.nil_append,
      List.map_cons, String.ofList_toList, ih fun l hl => h l (List.mem_cons_of_mem _ hl)]

namespace Shell

variable {files : Files} {sh : Shell} {held line : String}

/-! ### Work leaves what is held back -/

theorem held_andThen {α β : Type} {w : Except Failure α × Shell}
    {f : α → Shell → Except Failure β × Shell} (hw : w.2.held = held)
    (hf : ∀ a t, t.held = held → (f a t).2.held = held) : (andThen w f).2.held = held := by
  obtain ⟨e | a, t⟩ := w
  · exact hw
  · exact hf a t hw

theorem held_showResult {r : StatementResult} {t : Shell} (h : sh.showResult r = .ok t) :
    t.held = sh.held := by
  rw [showResult] at h
  split at h
  · rw [showDefinition] at h
    split at h
    · cases h
      rfl
    · cases h
  · cases h
    rw [showRun]
    obtain ⟨text, htext⟩ := exists_foldl_print (sh.traceLines r.trace) sh
    rw [htext]
    split <;> rfl

theorem held_showResults (results : List StatementResult) (sh : Shell) :
    (showResults results sh).2.held = sh.held := by
  induction results generalizing sh with
  | nil => rfl
  | cons r rest ih =>
    rw [showResults]
    dsimp only
    split
    · rfl
    · rename_i t ht
      rw [ih t, held_showResult ht]

theorem held_onSession {α : Type} (sh : Shell) (w : Session.Work α) :
    (sh.onSession w).2.held = sh.held :=
  rfl

theorem held_carryOut (files : Files) (sh : Shell) (text : String) :
    (carryOut files sh text).2.held = sh.held := by
  rw [carryOut]
  refine held_andThen (held_onSession sh _) fun _ t ht => ?_
  refine held_andThen ((held_onSession t _).trans ht) fun _ u hu => ?_
  exact (held_showResults _ u).trans hu

theorem held_close (w : Except Failure Unit × Shell) : (close w).2.held = w.2.held := by
  obtain ⟨e | a, t⟩ := w
  · rw [close]
    dsimp only
    split <;> rfl
  · rfl

/-! ### Lines of statements -/

/-- **Whether a line is one of a statement**: it is one line, and what is typed so is neither a
question nor a command. -/
structure IsStatementLine (line : String) : Prop where
  oneLine : IsOneLine line.toList
  noQuestion : (stripChars line.toList).head? ≠ some '?'
  noCommand : Command.ofName?
    (String.ofList ((stripChars line.toList).takeWhile Input.isNameChar)) = none

instance (line : String) : Decidable (IsStatementLine line) :=
  decidable_of_iff
    (IsOneLine line.toList ∧ (stripChars line.toList).head? ≠ some '?' ∧ Command.ofName?
      (String.ofList ((stripChars line.toList).takeWhile Input.isNameChar)) = none)
    ⟨fun h => ⟨h.1, h.2.1, h.2.2⟩, fun h => ⟨h.oneLine, h.noQuestion, h.noCommand⟩⟩

/-- A line of a statement is taken as one, without the blanks at its ends, if it is not blank. -/
theorem IsStatementLine.ofLine_eq (h : IsStatementLine line) : Input.ofLine line =
    if (strip line).isEmpty then .nothing else .statement (strip line) := by
  obtain ⟨-, hquestion, hcommand⟩ := h
  rw [Input.ofLine, strip]
  split
  · rename_i heq
    rw [heq]
    rfl
  · rename_i heq
    rw [heq] at hquestion
    exact absurd rfl hquestion
  · rename_i heq
    rw [heq]
    simp
  · rename_i hempty _ _
    rw [Input.ofStripped, hcommand]
    have hne : ¬ stripChars line.toList = [] := hempty
    simp [hne]

/-- The statement that is complete with a line, and so is added to the session. -/
def completed? (sh : Shell) (line : String) : Option String :=
  match Input.ofLine line with
  | .statement input => (sh.hold input).1
  | _ => none

/-- **The statements that are added** while lines are typed one after the other. -/
def passed (files : Files) (sh : Shell) : List String → List String
  | [] => []
  | line :: lines =>
    (sh.completed? line).toList ++ passed files (sh.enter files line).2 lines

/-- What is held back is cleaned again with the next line. -/
theorem hold_strip (hclean : Grouping.IsClean sh.held) (line : String) :
    (sh.hold (strip line)).1 = (Grouping.taken sh.held line).1 ∧
      (sh.hold (strip line)).2.held = (Grouping.taken sh.held line).2 := by
  rw [hold, Grouping.clean_join_strip hclean, Grouping.taken, Grouping.ended]
  dsimp only
  split
  · exact ⟨rfl, rfl⟩
  · exact ⟨rfl, rfl⟩

theorem held_takeLine (files : Files) (sh : Shell) (input : String) :
    (sh.takeLine files input).2.held = (sh.hold input).2.held := by
  rw [takeLine]
  split
  · rename_i heq
    rw [heq]
  · rename_i heq
    rw [heq, held_close, held_carryOut]

/-- A blank line is passed over. -/
theorem enter_of_blank (h : IsStatementLine line) (hblank : strip line = "") (files : Files)
    (sh : Shell) : sh.completed? line = none ∧ sh.enter files line = (.ok false, sh) := by
  have hinput : Input.ofLine line = .nothing := by
    rw [h.ofLine_eq, hblank]
    rfl
  rw [completed?, enter, hinput]
  exact ⟨rfl, rfl⟩

/-- Another line is held back, or completes a statement. -/
theorem enter_of_ne_blank (h : IsStatementLine line) (hne : strip line ≠ "") (files : Files)
    (sh : Shell) : sh.completed? line = (sh.hold (strip line)).1 ∧
      sh.enter files line = sh.takeLine files (strip line) := by
  have hinput : Input.ofLine line = .statement (strip line) := by
    rw [h.ofLine_eq, if_neg (by simpa using hne)]
  rw [completed?, enter, hinput]
  exact ⟨rfl, rfl⟩

/-- **What a line does to the session**: if it completes a statement, this is added, run and
shown, and else nothing is done. -/
theorem enter_eq_of_completed? (h : IsStatementLine line) (files : Files) (sh : Shell) :
    (sh.completed? line = none → (sh.enter files line).1 = .ok false ∧
      (sh.enter files line).2.session = sh.session) ∧
    ∀ text, sh.completed? line = some text → ∃ t : Shell, t.session = sh.session ∧
      sh.enter files line = close (carryOut files t text) := by
  by_cases hblank : strip line = ""
  · obtain ⟨hnone, henter⟩ := enter_of_blank h hblank files sh
    rw [hnone, henter]
    exact ⟨fun _ => ⟨rfl, rfl⟩, by simp⟩
  · obtain ⟨hcompleted, henter⟩ := enter_of_ne_blank h hblank files sh
    have hsession := session_hold sh (strip line)
    rw [hcompleted, henter, takeLine]
    split
    · rename_i t heq
      rw [heq] at hsession ⊢
      exact ⟨fun _ => ⟨rfl, hsession⟩, by simp⟩
    · rename_i text t heq
      rw [heq] at hsession ⊢
      refine ⟨by simp, fun text' htext' => ?_⟩
      rw [← Option.some.inj htext']
      exact ⟨t, hsession, rfl⟩

/-! ### Lines in turn -/

open Grouping (Collects)

/-- **A typed line and a line of a file.** What the shell holds back is the text that is open in
the file. -/
theorem exists_collects_enter {done : List (String × Int)} {p : Grouping.Progress}
    (h : Collects done p sh.held) (hline : IsStatementLine line) (files : Files) (number : Int) :
    ∃ done', done'.map (·.1) = done.map (·.1) ++ (sh.completed? line).toList ∧
      Collects done' (Grouping.add p line number).2 (sh.enter files line).2.held := by
  obtain ⟨done', htexts, hdone'⟩ := h.exists_add line number
  refine ⟨done', ?_⟩
  by_cases hblank : strip line = ""
  · rw [h.taken_of_blank hblank] at htexts hdone'
    obtain ⟨hnone, henter⟩ := enter_of_blank hline hblank files sh
    rw [hnone, henter]
    exact ⟨htexts, hdone'⟩
  · obtain ⟨hcompleted, henter⟩ := enter_of_ne_blank hline hblank files sh
    obtain ⟨htext, hheld⟩ := hold_strip h.isClean line
    rw [hcompleted, henter, held_takeLine, htext, hheld]
    exact ⟨htexts, hdone'⟩

theorem exists_collects_passed {done : List (String × Int)} {p : Grouping.Progress}
    (h : Collects done p sh.held) {lines : List String}
    (hlines : ∀ line ∈ lines, IsStatementLine line) (files : Files) (number : Int) :
    ∃ done' held, done'.map (·.1) = done.map (·.1) ++ sh.passed files lines ∧
      Collects done' (Grouping.addAll p number lines) held := by
  induction lines generalizing done p sh number with
  | nil => exact ⟨done, sh.held, by simp [passed], h⟩
  | cons line lines ih =>
    obtain ⟨done', htexts, h'⟩ :=
      exists_collects_enter h (hlines line List.mem_cons_self) files number
    obtain ⟨all, held, hall, hcollects⟩ :=
      ih h' (fun l hl => hlines l (List.mem_cons_of_mem _ hl)) (number + 1)
    exact ⟨all, held, by rw [hall, htexts, passed, List.append_assoc], hcollects⟩

/-- **A file and the shell see the same statements.** There is a file with the given lines, and
the statements that are added while the lines are typed are those of a file with these lines, up
to one that is still open at its end. -/
theorem passed_eq_statements {lines : List String}
    (hlines : ∀ line ∈ lines, IsStatementLine line) :
    (∃ contents, linesOf contents = lines) ∧
    (∀ contents, linesOf contents = lines → ∀ (files : Files) (sh : Shell), sh.held = "" →
      let texts := (Grouping.statements (linesOf contents)).map (·.1)
      sh.passed files lines =
        if texts.getLast?.any Grouping.goesOn then texts.dropLast else texts) ∧
    ∀ line ∈ lines, ∀ (files : Files) (sh : Shell),
      (sh.completed? line = none → (sh.enter files line).1 = .ok false ∧
        (sh.enter files line).2.session = sh.session) ∧
      ∀ text, sh.completed? line = some text → ∃ t : Shell, t.session = sh.session ∧
        sh.enter files line = close (carryOut files t text) := by
  refine ⟨exists_linesOf_eq fun line hline => (hlines line hline).oneLine,
    fun contents hcontents files sh hheld => ?_,
    fun line hline files sh => enter_eq_of_completed? (hlines line hline) files sh⟩
  have hnone : Grouping.AreComplete [] := by simp [Grouping.AreComplete]
  have hstart : Collects [] ⟨[], false⟩ sh.held := hheld ▸ .closed hnone
  obtain ⟨done, held, htexts, hcollects⟩ := exists_collects_passed hstart hlines files 1
  rw [hcontents]
  exact htexts.symm.trans hcollects.texts_eq

theorem passed_eq_statements_openAtEnd :
    (∀ line ∈ ["A := (λx. ;; a comment", "", " x)", "A (y"], IsStatementLine line) ∧
    passed noFiles (bareShell noFiles) ["A := (λx. ;; a comment", "", " x)", "A (y"] =
      ["A := (λx. x)"] := by
  have hlines : ∀ line ∈ ["A := (λx. ;; a comment", "", " x)", "A (y"], IsStatementLine line := by
    decide +kernel
  obtain ⟨⟨contents, hcontents⟩, hpassed, -⟩ := passed_eq_statements hlines
  refine ⟨hlines, ?_⟩
  rw [hpassed contents hcontents noFiles (bareShell noFiles) rfl, hcontents]
  decide +kernel

end Shell

end LambdaTrace
