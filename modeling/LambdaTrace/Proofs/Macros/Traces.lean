import LambdaTrace.Proofs.Macros.Header
import LambdaTrace.Proofs.Macros.Values
import LambdaTrace.Proofs.Session.Reachable

/-!
# What the references in a trace stand for

A reference that was read under a strategy stands for what its macro has for that strategy,
and a step passes references on as they are. But a reference also comes into a trace where a
macro is unfolded, and the term that comes out was made when the macro was defined: its full
value, and the term as it was written, come from the reading for normal order, whatever the
strategy is under which they are used. So the references that an entry of a trace shows stand
for what their macros have for the strategy of the trace or for normal order
(`LambdaTrace.MacroTable.Settled.carries_gives`), and the two may differ.

Traces are consistent with their strategy if and only if what the macros of the table expand to
under it is (`LambdaTrace.MacroTable.consistent_afterDefining`), as for normal order and for
applicative order, and where all macros have a full value. Elsewhere there are entries that
are not read back as they are (`LambdaTrace.MacroTable.exists_inconsistent_trace`).
-/

namespace LambdaTrace

namespace Term

/-! ### The references that a term shows -/

section References

variable {P : String → Term → Prop} {resolve : String → Option Term} {t : Term}

/-- Whether a property holds of every reference that a term shows; what references stand for
is not looked at. -/
def Shows (P : String → Term → Prop) : Term → Prop
  | .var _ => True
  | .app f a => f.Shows P ∧ a.Shows P
  | .abs _ b => b.Shows P
  | .ref n e => P n e

instance decidableShows (P : String → Term → Prop) [∀ n e, Decidable (P n e)] :
    ∀ t : Term, Decidable (t.Shows P)
  | .var _ => inferInstanceAs (Decidable True)
  | .app f a =>
    have := decidableShows P f
    have := decidableShows P a
    inferInstanceAs (Decidable (f.Shows P ∧ a.Shows P))
  | .abs _ b => decidableShows P b
  | .ref n e => inferInstanceAs (Decidable (P n e))

theorem compositional_shows (P : String → Term → Prop) : Compositional (Shows P) where
  var _ := trivial
  app := Iff.rfl
  abs := Iff.rfl

theorem Carries.shows (h : t.Carries P) : t.Shows P := by
  induction t with
  | var x => trivial
  | app f a ihf iha => exact ⟨ihf h.1, iha h.2⟩
  | abs x b ih => exact ih h
  | ref n e => exact h.1

/-- What is read shows references as they are resolved. -/
theorem Readable.shows (h : t.Readable resolve) : t.Shows fun n e => resolve n = some e := by
  induction t with
  | var x => trivial
  | app f a ihf iha => exact ⟨ihf h.1, iha h.2⟩
  | abs x b ih => exact ih h.2
  | ref n e => exact h.2

/-- **A term is resolved already** if its references stand for what their names are resolved
to. -/
theorem resolveBy_eq_iff (hknown : t.Known resolve) :
    t.resolveBy resolve = t ↔ t.Shows fun n e => resolve n = some e := by
  induction t with
  | var x => exact iff_of_true rfl trivial
  | app f a ihf iha =>
    obtain ⟨hf, ha⟩ := known_app.mp hknown
    rw [Term.resolveBy, app.injEq, ihf hf, iha ha, Shows]
  | abs x b ih => rw [Term.resolveBy, abs.injEq, eq_self, true_and, ih hknown, Shows]
  | ref n e =>
    obtain ⟨u, hu⟩ := Option.isSome_iff_exists.mp (known_ref.mp hknown)
    simp [Term.resolveBy, Shows, hu]

theorem Spelled.known {names : String → Prop} (h : t.Spelled names)
    (hresolve : ∀ n, names n → (resolve n).isSome = true) : t.Known resolve := by
  intro n hn
  refine (h.readable_resolveBy hresolve).known n ?_
  rwa [references_resolveBy]

end References

/-! ### Runs -/

namespace Compositional

variable {P : Term → Prop} {step : Term → Option Step} {t : Term}

/-- **A step keeps a compositional property** if and only if what it unfolds has it. -/
theorem next_iff (hP : Compositional P) {s : Step} (h : Admits t s) (ht : P t) :
    P s.next ↔ ∀ n e, s.event = .expansion n e → P e :=
  ⟨fun hs _ _ he => hP.at? hs (h.at?_next_of_expansion he), hP.next h ht⟩

/-- **All along a run** there is a compositional property if it is there at the start and what
the run unfolds has it. -/
theorem forall_mem_runFrom_iff (hP : Compositional P)
    (hadmits : ∀ t s, step t = some s → Admits t s) (ht : P t) (budget : Nat) (label : Label) :
    (∀ e ∈ runFrom step budget label t, P e.term) ↔
      ∀ e ∈ runFrom step budget label t, ∀ s n b, e.outcome = .stepped s →
        s.event = .expansion n b → P b := by
  induction budget generalizing t label with
  | zero =>
    rw [runFrom]
    split <;> simp [ht]
  | succ budget ih =>
    rw [runFrom]
    cases hs : step t with
    | none => simp [ht]
    | some s =>
      have hnext := hP.next_iff (hadmits t s hs) ht
      obtain ⟨o, rest, heq⟩ := exists_cons_runFrom step budget s.event.label s.next
      have hfirst : (∀ e ∈ runFrom step budget s.event.label s.next, P e.term) → P s.next :=
        fun h => h ⟨_, _, o⟩ (heq ▸ List.mem_cons_self)
      rw [List.forall_mem_cons, List.forall_mem_cons]
      constructor
      · rintro ⟨-, hrest⟩
        refine ⟨fun s' n b hs' hevent => ?_, (ih (hfirst hrest) _).mp hrest⟩
        obtain rfl : s = s' := Outcome.stepped.inj hs'
        exact hnext.mp (hfirst hrest) n b hevent
      · rintro ⟨hunfold, hrest⟩
        have hkept : P s.next := hnext.mpr fun n b => hunfold s n b rfl
        exact ⟨ht, (ih hkept _).mpr hrest⟩

end Compositional

end Term

namespace MacroTable

variable {t : MacroTable} {d : Definition} {strategy : Strategy} {u : Term}

/-! ### What macros stand for -/

/-- Whether a name stands for a term under a strategy. -/
def Gives (t : MacroTable) (strategy : Strategy) (n : String) (e : Term) : Prop :=
  t.resolve strategy n = some e

instance (t : MacroTable) (strategy : Strategy) (n : String) (e : Term) :
    Decidable (t.Gives strategy n e) :=
  inferInstanceAs (Decidable (t.resolve strategy n = some e))

theorem gives_of_get? {n : String} (hd : t.get? n = some d) :
    t.Gives strategy n (d.expansionFor strategy) := by
  rw [Gives, resolve, hd]
  rfl

/-- Where there is no full value, the other two are what runs from the other readings report. -/
theorem Makes.values_eq (h : t.Makes d) (hfull : d.full = none) :
    d.valueCbv =
        (Strategy.cbv.run t.budget (d.unreduced.resolveBy (t.resolve .cbv))).normalForm? ∧
      d.valueCbn =
        (Strategy.cbn.run t.budget (d.unreduced.resolveBy (t.resolve .cbn))).normalForm? := by
  have hrun : (Strategy.normal.run t.budget d.unreduced).normalForm? = none :=
    h.full_eq ▸ hfull
  have happ := h.appraise
  simp only [MacroTable.appraise, hrun] at happ
  exact ⟨(congrArg Definition.valueCbv happ).symm, (congrArg Definition.valueCbn happ).symm⟩

/-- **What a macro has for a strategy** is what it has for normal order, or the value that a run
found from the term as read under the strategy. -/
theorem Makes.expansionFor_cases (h : t.Makes d) (strategy : Strategy) :
    d.expansionFor strategy = d.expansionFor .normal ∨
      (strategy.run t.budget (d.unreduced.resolveBy (t.resolve strategy))).normalForm? =
        some (d.expansionFor strategy) := by
  cases hfull : d.full with
  | some v => exact Or.inl (by simp only [Definition.expansionFor, Definition.valueFor, hfull])
  | none =>
    obtain ⟨hcbv, hcbn⟩ := h.values_eq hfull
    simp only [Definition.expansionFor, Definition.valueFor, hfull]
    cases strategy with
    | cbv =>
      rw [← hcbv]
      cases d.valueCbv <;> simp
    | cbn =>
      rw [← hcbn]
      cases d.valueCbn <;> simp
    | normal => exact Or.inl rfl
    | applicative => exact Or.inl rfl

/-- Under two strategies every macro has what it has for normal order, and so it has under the
others if it has a full value. -/
theorem resolve_eq_normal (h : strategy = .normal ∨ strategy = .applicative ∨
    ∀ d ∈ t.definitions, d.full.isSome = true) : t.resolve strategy = t.resolve .normal := by
  funext n
  rw [resolve, resolve]
  cases hd : t.get? n with
  | none => rfl
  | some d =>
    refine congrArg some ?_
    rcases h with rfl | rfl | hfull
    · rfl
    · rfl
    · obtain ⟨v, hv⟩ := Option.isSome_iff_exists.mp (hfull d (mem_of_get? hd))
      simp only [Definition.expansionFor, Definition.valueFor, hv]

/-- **References stand for what their macros have for the strategy or for normal order**, at
any depth, in whatever a macro itself has for the strategy. -/
theorem Settled.carries_gives (h : t.Settled) (strategy : Strategy) (hd : d ∈ t.definitions) :
    (d.expansionFor strategy).Carries fun n e => t.Gives strategy n e ∨ t.Gives .normal n e := by
  refine h.definition_induction hd fun d hd ih => ?_
  have hmakes : t.Makes d := h.makes d hd
  rcases hmakes.expansionFor_cases strategy with hsame | hrun
  · rw [hsame]
    exact (h.carries_resolve hd).mono fun _ _ => Or.inr
  · -- the run that found the value starts with references as the strategy has them
    have hknown : d.unreduced.Known (t.resolve strategy) :=
      fun m hm => isSome_resolve_iff.mpr (hmakes.mem_names hm)
    refine inv_of_normalForm? (fun t s ht hs => ?_)
      (carries_resolveBy hknown fun m hm c hc => ⟨Or.inl (gives_of_get? hc), ih m hm c hc⟩) hrun
    exact (Term.hereditary_carries _).next (Term.admits_of_step hs) ht

/-- So they do in what is read under the strategy. -/
theorem Settled.carries_of_parse (h : t.Settled) {text : String}
    (hu : parse (t.resolve strategy) text = .ok u) :
    u.Carries fun n e => t.Gives strategy n e ∨ t.Gives .normal n e := by
  have hread : u.Readable (t.resolve strategy) := Term.readable_of_parse hu
  rw [← hread.resolveBy_eq]
  exact carries_resolveBy hread.known fun n _ c hc =>
    ⟨Or.inl (gives_of_get? hc), h.carries_gives strategy (mem_of_get? hc)⟩

/-! ### Names of macros -/

/-- A definition is for a name that can be read. -/
theorem isWord_of_readHeader {source n : String} {start : Nat}
    (h : readHeader source = .ok (n, start)) : IsWord isMacroChar n := by
  obtain ⟨b, w, b', r, -, ⟨hne, hw⟩, -, rfl, -⟩ := exists_of_readHeader h
  exact ⟨by simpa using hne, by simpa using hw⟩

/-- The names of a table are words, whatever is defined. -/
theorem isWord_of_mem_names (h : t.Settled) (hwords : ∀ n ∈ t.names, IsWord isMacroChar n)
    (sources : List String) : ∀ n ∈ (t.afterDefining sources).names, IsWord isMacroChar n := by
  induction sources generalizing t with
  | nil => exact hwords
  | cons source sources ih =>
    refine ih (h.define source).1 ?_
    change ∀ n ∈ (t.define source).1.names, IsWord isMacroChar n
    rcases h.legible.define_cases source with hsame | ⟨m, trace, u, hu⟩
    · rw [hsame]
      exact hwords
    · intro n hn
      obtain ⟨start, hheader, -⟩ := hu.read
      rcases (hu.mem_names n).mp hn with hn | rfl
      · exact hwords n hn
      · exact isWord_of_readHeader hheader

/-! ### Traces -/

/-- **What a run shows of its macros.** Every reference, at any depth, stands for what its macro
has for the strategy or for normal order. All references that are shown stand for the former if
and only if those do that the run unfolds. What is printed of an entry is read as the entry but
for what references stand for, which is the same if and only if the entry shows them as the
strategy has them. And the run from an entry is the rest of the run. -/
structure Traced (t : MacroTable) (strategy : Strategy) (steps : Nat) (u : Term) : Prop where
  carries : ∀ e ∈ strategy.run steps u,
    e.term.Carries fun n b => t.Gives strategy n b ∨ t.Gives .normal n b
  shows_iff : (∀ e ∈ strategy.run steps u, e.term.Shows (t.Gives strategy)) ↔
    ∀ e ∈ strategy.run steps u, ∀ s n b, e.outcome = .stepped s →
      s.event = .expansion n b → b.Shows (t.Gives strategy)
  reads : ∀ e ∈ strategy.run steps u,
    parse (t.resolve strategy) e.term.pretty = .ok (e.term.resolveBy (t.resolve strategy))
  reads_iff : ∀ e ∈ strategy.run steps u,
    parse (t.resolve strategy) e.term.pretty = .ok e.term ↔ e.term.Shows (t.Gives strategy)
  rest : ∀ i e, (strategy.run steps u)[i]? = some e →
    strategy.run (steps - i) e.term =
      ⟨.start, e.term, e.outcome⟩ :: (strategy.run steps u).drop (i + 1)

/-- **Whether traces are consistent with a strategy**: in the runs of what is read under it, all
references that are shown stand for what the table has for it. -/
def Consistent (t : MacroTable) (strategy : Strategy) : Prop :=
  ∀ text u, parse (t.resolve strategy) text = .ok u → ∀ steps, ∀ e ∈ strategy.run steps u,
    e.term.Shows (t.Gives strategy)

theorem Settled.traced (h : t.Settled) {text : String}
    (hu : parse (t.resolve strategy) text = .ok u) (steps : Nat) : t.Traced strategy steps u := by
  have hshows : u.Shows (t.Gives strategy) := (Term.readable_of_parse hu).shows
  have hspelled : ∀ e ∈ strategy.run steps u, e.term.Spelled (· ∈ t.names) :=
    forall_mem_runFrom (fun v s hv (hs : strategy.step v = some s) =>
      hv.next (Term.admits_of_step hs)) (h.isMade.spelled_of_parse hu) steps .start
  have hresolve : ∀ n, n ∈ t.names → (t.resolve strategy n).isSome = true :=
    fun n hn => isSome_resolve_iff.mpr hn
  refine ⟨?_, ?_, fun e he => (hspelled e he).parse_pretty hresolve, fun e he => ?_, ?_⟩
  · exact forall_mem_runFrom (fun v s hv (hs : strategy.step v = some s) =>
      (Term.hereditary_carries _).next (Term.admits_of_step hs) hv) (h.carries_of_parse hu)
      steps .start
  · exact (Term.compositional_shows _).forall_mem_runFrom_iff
      (fun _ _ => Term.admits_of_step) hshows steps .start
  · rw [(hspelled e he).parse_pretty hresolve, Except.ok.injEq,
      Term.resolveBy_eq_iff ((hspelled e he).known hresolve)]
    rfl
  · exact fun i e hi => runFrom_of_getElem? hi .start

/-- **Traces are consistent with a strategy** if and only if what macros stand for under it shows
references as they are resolved under it. -/
theorem Settled.consistent_iff (h : t.Settled)
    (hwords : ∀ n ∈ t.names, IsWord isMacroChar n) (strategy : Strategy) :
    t.Consistent strategy ↔
      ∀ d ∈ t.definitions, (d.expansionFor strategy).Shows (t.Gives strategy) := by
  constructor
  · intro hall d hd
    -- the macro is unfolded at the head of an application to a variable
    have hgives : t.Gives strategy d.name (d.expansionFor strategy) :=
      gives_of_get? (get?_name h.nodup hd)
    let u : Term := .app (.ref d.name (d.expansionFor strategy)) (.var "x")
    have hread : u.Readable (t.resolve strategy) :=
      ⟨⟨hwords d.name (mem_names_of_mem hd), hgives⟩, Or.inr (by decide)⟩
    have hstep : strategy.step u =
        some ((Step.expand d.name (d.expansionFor strategy)).inFn (.var "x")) := by
      cases strategy <;> rfl
    have hu : parse (t.resolve strategy) u.pretty = .ok u := Term.parse_pretty_of_readable hread
    have hunfolds := (h.traced hu 1).shows_iff.mp (hall u.pretty u hu 1)
    rw [Strategy.run, runFrom, hstep] at hunfolds
    exact (List.forall_mem_cons.mp hunfolds).1 _ _ _ rfl rfl
  · intro hall text u hu steps
    refine forall_mem_runFrom (fun v s hv (hs : strategy.step v = some s) => ?_)
      (Term.readable_of_parse hu).shows steps .start
    have hP := Term.compositional_shows (t.Gives strategy)
    have hadmits := Term.admits_of_step hs
    refine hP.next hadmits hv fun n b he => ?_
    -- the reference that is unfolded was shown
    have hgives : t.Gives strategy n b := hP.at? hv (hadmits.at?_of_expansion he)
    obtain ⟨d, hd, rfl⟩ := Option.map_eq_some_iff.mp hgives
    exact hall d (mem_of_get? hd)

/-- **How consistent traces are.** In every table that is reached by definitions and under every
strategy, of every text that is read and for every number of steps: what a run shows of its
macros is the strategy's or normal order's, and its entries are read back as they are where it is
the strategy's. All traces are consistent with the strategy if and only if what the macros stand
for under it is, which is the case for normal order and applicative order, and where all macros
have a full value. -/
theorem consistent_afterDefining (budget : Nat) (sources : List String) (strategy : Strategy) :
    let t := (empty budget).afterDefining sources
    (∀ text u, parse (t.resolve strategy) text = .ok u →
        ∀ steps, t.Traced strategy steps u) ∧
      (t.Consistent strategy ↔
        ∀ d ∈ t.definitions, (d.expansionFor strategy).Shows (t.Gives strategy)) ∧
      (strategy = .normal ∨ strategy = .applicative ∨
        (∀ d ∈ t.definitions, d.full.isSome = true) → t.Consistent strategy) := by
  intro t
  have h : t.Settled := settled_afterDefining budget sources
  have hwords : ∀ n ∈ t.names, IsWord isMacroChar n :=
    isWord_of_mem_names (settled_empty budget) (fun n hn => absurd hn List.not_mem_nil) sources
  have hiff := h.consistent_iff hwords strategy
  refine ⟨fun text u hu steps => h.traced hu steps, hiff, fun hsame => hiff.mpr fun d hd => ?_⟩
  -- under such a strategy everything is as it is for normal order
  have hresolve : t.resolve strategy = t.resolve .normal := resolve_eq_normal hsame
  have hexpansion : d.expansionFor strategy = d.expansionFor .normal := by
    have hat := congrFun hresolve d.name
    rw [resolve, resolve, get?_name h.nodup hd] at hat
    exact Option.some.inj hat
  have hgives : t.Gives strategy = t.Gives .normal := by
    funext m e
    rw [Gives, Gives, hresolve]
  rw [hexpansion, hgives]
  exact (h.carries_resolve hd).shows

/-- A macro with a value for call by value and for call by name, but no full value, and a macro
with a full value that returns it. -/
def returningMacros : List String :=
  ["W := (λx. x) λx. x λz. (λy. y y) λy. y y", "N := λy. W"]

/-- The value of the first macro. -/
def returnedValue : Term :=
  let twice : Term := .abs "y" (.app (.var "y") (.var "y"))
  .abs "x" (.app (.var "x") (.abs "z" (.app twice twice)))

/-- The first macro as it was written. -/
def returnedWritten : Term :=
  .app (.abs "x" (.var "x")) returnedValue

/-- A term that has the first macro returned and applied. -/
def returningTerm : Term :=
  .app (.app (.ref "N" (.abs "y" (.ref "W" returnedWritten))) (.var "a")) (.abs "u" (.var "a"))

/-- Under call by value there is something to say of each run with these macros, and under normal
order all of them are consistent. -/
theorem consistent_afterDefining_returningMacros :
    let t := (empty 32).afterDefining returningMacros
    parse (t.resolve .cbv) "N a λu. a" = .ok returningTerm ∧
      (Strategy.cbv.run 8 returningTerm).length = 7 ∧ t.Traced .cbv 8 returningTerm ∧
      t.Consistent .normal := by
  intro t
  obtain ⟨htraced, -, -⟩ := consistent_afterDefining 32 returningMacros .cbv
  obtain ⟨-, -, hconsistent⟩ := consistent_afterDefining 32 returningMacros .normal
  have hu : parse (t.resolve .cbv) "N a λu. a" = .ok returningTerm := by decide +kernel
  exact ⟨hu, by decide +kernel, htraced _ _ hu 8, hconsistent (.inl rfl)⟩

/-- **A trace that is not consistent with its strategy.** What comes out of the unfolded macro is
a reference to the other one as it was written, though that has a value for call by value. So
the entry is read back as another term than it is, and the run from there is another one than
the rest of this run. -/
theorem exists_inconsistent_trace :
    let t := (empty 32).afterDefining returningMacros
    parse (t.resolve .cbv) "N a λu. a" = .ok returningTerm ∧
      ∃ e v, (Strategy.cbv.run 32 returningTerm)[2]? = some e ∧ ¬e.term.Shows (t.Gives .cbv) ∧
        parse (t.resolve .cbv) e.term.pretty = .ok v ∧ v ≠ e.term ∧
        (Strategy.cbv.run 30 v).map (·.term.pretty) ≠
          ((Strategy.cbv.run 32 returningTerm).drop 2).map (·.term.pretty) := by
  intro t
  let result : Term := .abs "u" (.var "a")
  refine ⟨by decide +kernel, ⟨.arrow, .app (.ref "W" returnedWritten) result,
    .stepped ((Step.expand "W" returnedWritten).inFn result)⟩,
    .app (.ref "W" returnedValue) result, ?_⟩
  decide +kernel

end MacroTable

end LambdaTrace
