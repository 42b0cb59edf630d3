import LambdaTrace.Proofs.Macros.Header
import LambdaTrace.Shell.Basic

/-!
# A definition is shown under its own name

The table returns the name of a definition that it adds, as it was read in front of the sign of a
definition. The shell gets the same name from the statement alone
(`LambdaTrace.Statement.definedName?_eq`), whatever table the definition was added to, so what it
shows is the macro that was added, with the term of the line as its source.
-/

namespace LambdaTrace

variable {t t' : MacroTable} {n source line : String} {trace : Trace} {statement : Statement}

/-- **The name of a statement is the one that the table returns**, whatever macros there are. -/
theorem MacroTable.definedName?_of_define (hdef : t.define source = (t', .ok (n, trace)))
    (kind : StatementKind) (line : String) :
    (Statement.mk kind source line).definedName? = some n := by
  obtain ⟨start, added, hheader, hcompile, -⟩ := define_eq_ok_iff.mp hdef
  obtain ⟨u, hread, -⟩ := compile_eq_ok_iff.mp hcompile
  exact Statement.definedName?_eq hheader hread kind line

/-- **Whether a macro is what a text defines**: it has the name, and the term that follows the sign
of a definition there, as the table reads it. -/
def MacroTable.IsFrom (t : MacroTable) (source : String) (d : Definition) : Prop :=
  ∃ start u, readHeader source = .ok (d.name, start) ∧ t.read .normal source start = .ok u ∧
    d.source = u.pretty

theorem MacroTable.IsMade.exists_isFrom (h : t.IsMade)
    (hdef : t.define source = (t', .ok (n, trace))) :
    ∃ d, t'.get? n = some d ∧ d.name = n ∧ t.IsFrom source d := by
  obtain ⟨u, hu⟩ := defines_of_define h.legible hdef
  obtain ⟨start, hheader, hread⟩ := hu.read
  obtain ⟨d, hd, hsource⟩ : ∃ d, t'.get? n = some d ∧ d.source = u.pretty := by
    simpa [source?] using hu.source_self
  have hname := name_of_get? hd
  exact ⟨d, hd, hname, start, u, hname ▸ hheader, hread, hsource⟩

namespace Shell

variable {sh : Shell} {d : Definition}

/-- A definition is shown by the macro of its name. -/
theorem showDefinition_eq (hname : statement.definedName? = some n)
    (hd : sh.session.table.get? n = some d) :
    sh.showDefinition statement = .ok (sh.print (d.line (d.expansionFor sh.session.strategy))) := by
  rw [showDefinition, hname, Option.getD_some, hd]

/-- **A definition that the table accepts is carried out**: it is added, nothing is run, and the
macro of its name is shown. -/
theorem exists_carryOut_eq (files : Files) (hinfer : Statement.infer line = .ok statement)
    (hkind : statement.kind = .definition)
    (hdef : sh.session.table.define statement.text = (t', .ok (n, trace)))
    (hpending : sh.session.pending = []) (hresults : sh.session.results = [])
    (hname : statement.definedName? = some n) (hd : t'.get? n = some d) :
    ∃ shown, sh.carryOut files line = (.ok (), shown) ∧ shown.session.table = t' ∧
      shown.session.reporter.output = sh.session.reporter.output ++
        (d.line (d.expansionFor sh.session.strategy) ++ "\n") := by
  obtain ⟨added, hadd, htable, hadded, hnone, hstrategy, houtput⟩ :
      ∃ s, sh.session.add files line sh.lineNumber = (.ok (), s) ∧ s.table = t' ∧
        s.results = [⟨statement, trace, none⟩] ∧ s.pending = [] ∧
        s.strategy = sh.session.strategy ∧ s.reporter.output = sh.session.reporter.output := by
    rw [Session.add, Session.addWith, hinfer]
    dsimp only
    rw [Session.performWith, hkind]
    dsimp only
    rw [Session.addDefinition, Session.define]
    dsimp only [Session.report]
    rw [hdef]
    exact ⟨_, rfl, rfl, congrArg (· ++ [_]) hresults, hpending, rfl, rfl⟩
  have hrun : added.run = (.ok (), added) := by
    rw [Session.run, hnone]
    rfl
  let fetched : Shell := { sh with session := { added with results := [] } }
  have hshow : fetched.showDefinition statement =
      .ok (fetched.print (d.line (d.expansionFor added.strategy))) :=
    showDefinition_eq hname (htable ▸ hd)
  refine ⟨fetched.print (d.line (d.expansionFor added.strategy)), ?_, htable, ?_⟩
  · rw [carryOut, hadd]
    dsimp only [onSession, andThen, Except.mapError]
    rw [hrun]
    dsimp only [Except.mapError]
    rw [hadded, showResults]
    dsimp only
    rw [showResult, hkind]
    dsimp only
    rw [hshow]
    rfl
  · change added.reporter.output ++ _ = _
    rw [houtput, hstrategy]

/-- **The name of a statement is the name of the macro that it defines.** Where the text of a
definition is accepted, by whatever table, what stands before the sign of a definition is the name
that the table returns. Where the table is as it was made, that is the name of the macro that the
text defines, and the shell shows this macro when it carries the line out. -/
theorem definition_shown (hinfer : Statement.infer line = .ok statement)
    (hkind : statement.kind = .definition)
    (hdef : t.define statement.text = (t', .ok (n, trace))) :
    statement.definedName? = some n ∧
    (t.IsMade → ∃ d, t'.get? n = some d ∧ d.name = n ∧ t.IsFrom statement.text d ∧
      ∀ (files : Files) (sh : Shell), sh.session.table = t → sh.session.pending = [] →
        sh.session.results = [] →
        ∃ shown, sh.carryOut files line = (.ok (), shown) ∧ shown.session.table = t' ∧
          shown.session.reporter.output = sh.session.reporter.output ++
            (d.line (d.expansionFor sh.session.strategy) ++ "\n")) := by
  have hname : statement.definedName? = some n :=
    MacroTable.definedName?_of_define hdef statement.kind statement.line
  refine ⟨hname, fun hmade => ?_⟩
  obtain ⟨d, hd, hdname, hfrom⟩ := hmade.exists_isFrom hdef
  refine ⟨d, hd, hdname, hfrom, fun files sh htable hpending hresults => ?_⟩
  exact exists_carryOut_eq files hinfer hkind (htable ▸ hdef) hpending hresults hname hd

/-- A definition with the second sign, and blanks of several kinds. -/
def spacedDefinition : Statement :=
  ⟨.definition, "KK \t:=\nλx. λy. x", " \tKK \t:=\nλx. λy. x "⟩

theorem definition_shown_spacedDefinition : ∃ t' trace d,
    Statement.infer spacedDefinition.line = .ok spacedDefinition ∧
    spacedDefinition.definedName? = some "KK" ∧
    (MacroTable.empty 5).define spacedDefinition.text = (t', .ok ("KK", trace)) ∧
    t'.get? "KK" = some d := by
  have hinfer : Statement.infer spacedDefinition.line = .ok spacedDefinition := by decide +kernel
  have hname : ((MacroTable.empty 5).define spacedDefinition.text).2.toOption.map (·.1) =
      some "KK" := by
    decide +kernel
  rcases hdef : (MacroTable.empty 5).define spacedDefinition.text with ⟨t', e | ⟨n, trace⟩⟩
  · rw [hdef] at hname
    cases hname
  · rw [hdef] at hname
    cases hname
    obtain ⟨hsame, hshown⟩ := definition_shown hinfer rfl hdef
    obtain ⟨d, hd, -⟩ := hshown (MacroTable.settled_empty 5).isMade
    exact ⟨t', trace, d, hinfer, hsame, rfl, hd⟩

end Shell

end LambdaTrace
