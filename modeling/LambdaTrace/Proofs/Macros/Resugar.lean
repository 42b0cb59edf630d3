import LambdaTrace.Proofs.Macros.History
import LambdaTrace.Proofs.Nameless.Alpha

/-!
# Naming results

A closed subterm that is equivalent to the value of a macro is replaced by a reference to the
macro. The reference expands to that very value, since a macro that has a value under a
strategy expands to it there; and a closed term has one nameless form, whatever stands around
it. So the term means what it did, in every context
(`LambdaTrace.Term.resugared_resugarWith`). What it looks like has changed if and only if
something was replaced, as no reference ever is.
-/

namespace LambdaTrace

/-- Whether the value of a candidate is the one that its macro has under a strategy. -/
def Candidate.IsValue (c : Candidate) (strategy : Strategy) : Prop :=
  c.definition.valueFor strategy = some c.value

namespace Term

variable {cs : List Candidate} {strategy : Strategy} {t : Term} {c : Candidate}

theorem same_self (t : Term) : t.same t = true := by
  induction t with
  | app f a ihf iha => rw [same, ihf, iha, Bool.and_self]
  | abs x b ih => simp [same, ih]
  | _ => simp [same]

/-- **What a term with names in it has to do with the term**: the same nameless form and the
same free variables, and it is the term itself unless something was changed that shows. -/
structure Resugared (t : Term) (r : Term × Bool) : Prop where
  namelessIn : ∀ scope, r.1.unfold.namelessIn scope = t.unfold.namelessIn scope
  freeVars : r.1.freeVars = t.freeVars
  changed : r.2 = !r.1.same t
  unchanged : r.2 = false → r.1 = t

theorem resugared_self (t : Term) : t.Resugared (t, false) where
  namelessIn _ := rfl
  freeVars := rfl
  changed := by rw [same_self, Bool.not_true]
  unchanged _ := rfl

/-! ### One replacement -/

/-- A candidate for a term is equivalent to it, and the term is closed and no reference. -/
theorem of_forTerm? (h : Candidate.forTerm? cs t = some c) :
    c ∈ cs ∧ t.isRef = false ∧ t.isClosed = true ∧ t.alphaEquivalent c.value = true := by
  rw [Candidate.forTerm?] at h
  split at h
  · cases h
  · rename_i hskip
    have hterm : t.isRef = false ∧ t.isClosed = true := by simpa using hskip
    have halpha := List.find?_some h
    exact ⟨List.mem_of_find?_eq_some h, hterm.1, hterm.2, halpha⟩

/-- **A replaced subterm** means in every context what it did. -/
theorem resugared_reference (hcs : ∀ c ∈ cs, c.IsValue strategy)
    (h : Candidate.forTerm? cs t = some c) : t.Resugared (c.reference strategy, true) := by
  obtain ⟨hc, href, hclosed, halpha⟩ := of_forTerm? h
  obtain ⟨⟨ht, hv⟩, hnameless⟩ := alphaEquivalent_iff.mp halpha
  have hexpansion : c.definition.expansionFor strategy = c.value := by
    rw [Definition.expansionFor, hcs c hc, Option.getD_some]
  refine ⟨fun scope => ?_, ?_, ?_, fun hfalse => by cases hfalse⟩
  · have hunfold : (c.reference strategy).unfold = c.value.unfold := by
      rw [Candidate.reference, unfold, hexpansion]
    calc (c.reference strategy).unfold.namelessIn scope
        = c.value.unfold.nameless := by rw [hunfold, namelessIn_of_isClosed hv]
      _ = t.unfold.namelessIn scope := by rw [← hnameless, namelessIn_of_isClosed ht]
  · exact (List.isEmpty_iff.mp hclosed).symm
  · -- nothing looks like a reference that is none
    cases t with
    | ref n t => cases href
    | _ => rfl

/-! ### All replacements -/

/-- The parts of an application are named separately. -/
theorem Resugared.app {f a : Term} {rf ra : Term × Bool} (hf : f.Resugared rf)
    (ha : a.Resugared ra) : (app f a).Resugared (.app rf.1 ra.1, rf.2 || ra.2) where
  namelessIn scope := by
    rw [unfold, unfold, Term.namelessIn, Term.namelessIn, hf.namelessIn, ha.namelessIn]
  freeVars := by rw [Term.freeVars, Term.freeVars, hf.freeVars, ha.freeVars]
  changed := by rw [same, hf.changed, ha.changed, Bool.not_and]
  unchanged h := by
    obtain ⟨hf', ha'⟩ := Bool.or_eq_false_iff.mp h
    rw [hf.unchanged hf', ha.unchanged ha']

theorem Resugared.abs {b : Term} {rb : Term × Bool} (hb : b.Resugared rb) (x : String) :
    (abs x b).Resugared (.abs x rb.1, rb.2) where
  namelessIn scope := by rw [unfold, unfold, Term.namelessIn, Term.namelessIn, hb.namelessIn]
  freeVars := by rw [Term.freeVars, Term.freeVars, hb.freeVars]
  changed := by rw [same, hb.changed, beq_self_eq_true, Bool.true_and]
  unchanged h := by rw [hb.unchanged h]

/-- **Naming keeps the meaning of a term.** -/
theorem resugared_resugarWith (hcs : ∀ c ∈ cs, c.IsValue strategy) (t : Term) :
    t.Resugared (t.resugarWith cs strategy) := by
  induction t with
  | var x =>
    rw [resugarWith]
    split
    · exact resugared_reference hcs ‹_›
    · exact resugared_self _
  | app f a ihf iha =>
    rw [resugarWith]
    split
    · exact resugared_reference hcs ‹_›
    · exact ihf.app iha
  | abs x b ih =>
    rw [resugarWith]
    split
    · exact resugared_reference hcs ‹_›
    · exact ih.abs x
  | ref n t => exact resugared_self _

end Term

namespace MacroTable

variable {t : MacroTable} {strategy : Strategy} {cs : List Candidate}

theorem candidates_eq_ok_iff : t.candidates strategy = .ok cs ↔ ∃ ds, t.dependencyOrder = .ok ds ∧
    (ds.filterMap fun d => (d.valueFor strategy).map (Candidate.mk d)) = cs := by
  rw [candidates]
  cases t.dependencyOrder with
  | error cycle => simp [Except.map]
  | ok ds => simp [Except.map]

/-- The candidates of a table come with the values of its macros. -/
theorem isValue_of_mem_candidates (h : t.candidates strategy = .ok cs) :
    ∀ c ∈ cs, c.IsValue strategy := by
  intro c hc
  obtain ⟨ds, -, rfl⟩ := candidates_eq_ok_iff.mp h
  obtain ⟨d, -, hd⟩ := List.mem_filterMap.mp hc
  obtain ⟨v, hv, rfl⟩ := Option.map_eq_some_iff.mp hd
  exact hv

/-- **Naming preserves the meaning of every term**, in every table that can be reached and under
every strategy. It succeeds, and what it returns is the same term up to the names of bound
variables once both are unfolded, with the same free variables. It says that nothing was changed
exactly if it returns the term itself, and that something was exactly if the two do not look the
same. -/
theorem resugar_afterAll (budget : Nat) (requests : List Request) (strategy : Strategy)
    (term : Term) :
    ∃ u changed, ((empty budget).afterAll requests).resugar strategy term = .ok (u, changed) ∧
      u.unfold.nameless = term.unfold.nameless ∧ u.freeVars = term.freeVars ∧
      (changed = false ↔ u = term) ∧ (changed = true ↔ u.same term = false) := by
  obtain ⟨r, hr⟩ := (intact_afterAll budget requests).resugar strategy term
  have hresugared : term.Resugared r := by
    rw [resugar] at hr
    cases hcs : ((empty budget).afterAll requests).candidates strategy with
    | error cycle =>
      rw [hcs] at hr
      cases hr
    | ok cs =>
      rw [hcs] at hr
      cases hr
      exact Term.resugared_resugarWith (isValue_of_mem_candidates hcs) term
  obtain ⟨u, changed⟩ := r
  have hchanged : changed = !u.same term := hresugared.changed
  refine ⟨u, changed, hr, hresugared.namelessIn [], hresugared.freeVars,
    ⟨hresugared.unchanged, ?_⟩, ?_⟩
  · rintro rfl
    rw [hchanged, Term.same_self, Bool.not_true]
  · rw [hchanged, Bool.not_eq_true']

end MacroTable

end LambdaTrace
