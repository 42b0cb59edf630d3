import LambdaTrace.Proofs.Macros.Lookup
import LambdaTrace.Proofs.Reading.Resolution
import LambdaTrace.Proofs.Reduction.Runs

/-!
# Compiling a definition

A definition is read up to three times, once for each strategy that a value is sought
under. The three readings are one term with its references resolved in three ways, so
what is made of a text depends on its first reading alone, and on what the table has
under the names in it (`LambdaTrace.MacroTable.appraise`,
`LambdaTrace.MacroTable.appraise_congr`). Compiling fails only if the first reading
does or is not closed (`LambdaTrace.MacroTable.compile_eq_ok_iff`).

A definition is *made* by a table if compiling its own source text there yields it again
(`LambdaTrace.MacroTable.Makes`). That is the case for what has just been compiled from a
printed text, and it stays so as long as nothing changes under the names it refers to.
-/

namespace LambdaTrace

namespace Definition

variable {d : Definition}

/-- The terms that a definition holds: the one that was written, and the values that
were found. -/
def terms (d : Definition) : List Term :=
  d.unreduced :: (d.full.toList ++ d.valueCbn.toList ++ d.valueCbv.toList)

/-- The first of the values that were found: the normal form, or else the value for call
by name, or else the one for call by value. -/
def value? (d : Definition) : Option Term :=
  d.full <|> d.valueCbn <|> d.valueCbv

theorem value?_eq_none_iff :
    d.value? = none ↔ d.full = none ∧ d.valueCbn = none ∧ d.valueCbv = none := by
  rw [value?]
  cases d.full <;> cases d.valueCbn <;> simp

/-- In normal order nothing but the full value is used, if there is one. -/
theorem expansionFor_normal (d : Definition) :
    d.expansionFor .normal = d.full.getD d.unreduced := by
  simp only [expansionFor, valueFor]
  cases d.full <;> rfl

/-- What references expand to is one of the terms. -/
theorem expansionFor_mem_terms (d : Definition) (strategy : Strategy) :
    d.expansionFor strategy ∈ d.terms := by
  unfold expansionFor valueFor terms
  cases d.full with
  | some t => simp
  | none =>
    cases strategy with
    | cbv => cases d.valueCbv <;> simp
    | cbn => cases d.valueCbn <;> simp
    | _ => simp

end Definition

namespace MacroTable

variable {t t' : MacroTable} {d : Definition} {u : Term} {name source : String} {start : Nat}

/-! ### The search for values -/

/-- The search for the values of a closed term: what a run finds in normal order, or else
by name and by value, with the references resolved for either. -/
def appraise (t : MacroTable) (name : String) (u : Term) : Trace × Definition :=
  let full := Strategy.normal.run t.budget u
  let byName := Strategy.cbn.run t.budget (u.resolveBy (t.resolve .cbn))
  let byValue := Strategy.cbv.run t.budget (u.resolveBy (t.resolve .cbv))
  match full.normalForm? with
  | some value => (full, ⟨name, none, none, some value, u, t.budget⟩)
  | none =>
    (if byName.normalForm?.isSome then byName
      else if byValue.normalForm?.isSome then byValue else full,
      ⟨name, byValue.normalForm?, byName.normalForm?, none, u, t.budget⟩)

@[simp] theorem name_appraise (t : MacroTable) (name : String) (u : Term) :
    (t.appraise name u).2.name = name := by
  rw [appraise]
  split <;> rfl

@[simp] theorem unreduced_appraise (t : MacroTable) (name : String) (u : Term) :
    (t.appraise name u).2.unreduced = u := by
  rw [appraise]
  split <;> rfl

/-- The full value is what the run in normal order reports. -/
theorem full_appraise (t : MacroTable) (name : String) (u : Term) :
    (t.appraise name u).2.full = (Strategy.normal.run t.budget u).normalForm? := by
  simp only [appraise]
  cases (Strategy.normal.run t.budget u).normalForm? <;> rfl

/-- What the search finds depends on the budget, and on what the table has under the names
in the term. -/
theorem appraise_congr (hbudget : t'.budget = t.budget)
    (hget : ∀ n ∈ u.references, t'.get? n = t.get? n) (name : String) :
    t'.appraise name u = t.appraise name u := by
  have hresolve : ∀ strategy : Strategy,
      u.resolveBy (t'.resolve strategy) = u.resolveBy (t.resolve strategy) := by
    intro strategy
    refine Term.resolveBy_congr fun n hn => ?_
    rw [resolve, resolve, hget n hn]
  rw [appraise, appraise, hbudget, hresolve, hresolve]

/-- **The returned run is the one that found the value**, and if none was found it spent
its budget. -/
theorem value?_appraise (t : MacroTable) (name : String) (u : Term) :
    (t.appraise name u).2.value? = (t.appraise name u).1.normalForm? ∧
      ((t.appraise name u).2.value? = none → (t.appraise name u).1.timedOut = true) := by
  simp only [appraise, Definition.value?]
  cases hfull : (Strategy.normal.run t.budget u).normalForm? with
  | some v => exact ⟨by simp [hfull], by simp⟩
  | none =>
    cases hname : (Strategy.cbn.run t.budget (u.resolveBy (t.resolve .cbn))).normalForm? with
    | some v => exact ⟨by simp [hname], by simp⟩
    | none =>
      cases hvalue : (Strategy.cbv.run t.budget (u.resolveBy (t.resolve .cbv))).normalForm? with
      | some v => exact ⟨by simp [hvalue], by simp⟩
      | none => exact ⟨by simp [hfull], fun _ => by simpa using timedOut_of_normalForm? hfull⟩

/-- **Each value is a normal form** that a run from the term reported under a strategy, with
the references resolved for it. -/
theorem exists_run_of_mem_terms {v : Term} (h : v ∈ (t.appraise name u).2.terms) :
    v = u ∨ ∃ strategy w, (w = u ∨ w = u.resolveBy (t.resolve strategy)) ∧
      (strategy.run t.budget w).normalForm? = some v := by
  rw [Definition.terms, unreduced_appraise] at h
  refine (List.mem_cons.mp h).imp_right fun h => ?_
  simp only [appraise] at h
  split at h
  · rename_i value hfull
    have hv : v = value := by simpa using h
    exact ⟨.normal, u, Or.inl rfl, hv ▸ hfull⟩
  · simp only [Option.toList_none, List.nil_append, List.mem_append, Option.mem_toList] at h
    rcases h with h | h
    · exact ⟨.cbn, _, Or.inr rfl, h⟩
    · exact ⟨.cbv, _, Or.inr rfl, h⟩

/-! ### Compiling -/

/-- The other readings of a text are those of its first one. -/
theorem read_resolveBy (h : t.read .normal source start = .ok u) (strategy : Strategy) :
    t.read strategy source start = .ok (u.resolveBy (t.resolve strategy)) := by
  refine Term.parseFrom_resolveBy h fun n hn => ?_
  have hn' := (Term.readable_of_parseFrom h).known n hn
  rw [isSome_resolve_iff] at hn' ⊢
  exact hn'

/-- The returned run is one of a reading of the text. -/
theorem exists_read_appraise (h : t.read .normal source start = .ok u) (name : String) :
    ∃ strategy w, t.read strategy source start = .ok w ∧
      (t.appraise name u).1 = strategy.run t.budget w := by
  rw [appraise]
  split
  · exact ⟨.normal, u, h, rfl⟩
  · dsimp only
    split
    · exact ⟨.cbn, _, read_resolveBy h .cbn, rfl⟩
    · split
      · exact ⟨.cbv, _, read_resolveBy h .cbv, rfl⟩
      · exact ⟨.normal, u, h, rfl⟩

theorem evaluate_eq (h : t.read .normal source start = .ok u) (name : String) :
    t.evaluate name u source start = .ok (t.appraise name u) := by
  simp only [evaluate, appraise, read_resolveBy h, pure, Except.pure, bind, Except.bind]
  cases (Strategy.normal.run t.budget u).normalForm? with
  | some value => rfl
  | none =>
    -- the value for call by name comes first, whichever was sought first
    cases (Strategy.cbn.run t.budget (u.resolveBy (t.resolve .cbn))).normalForm? with
    | some v => rfl
    | none =>
      cases (Strategy.cbv.run t.budget (u.resolveBy (t.resolve .cbv))).normalForm? <;> rfl

/-- **Compiling succeeds** if the text is read as a closed term, and then puts what the
search finds for that term into the table. A place in front of the text is its beginning. -/
theorem compile_place_eq_ok_iff {place : Int} {trace : Trace} :
    t.compile name source place = .ok (trace, t') ↔
      ∃ u, t.read .normal source place.toNat = .ok u ∧ u.isClosed = true ∧
        trace = (t.appraise name u).1 ∧ t' = t.put (t.appraise name u).2 := by
  constructor
  · intro h
    rw [compile] at h
    cases hread : t.read .normal source place.toNat with
    | error e => simp [hread, bind, Except.bind] at h
    | ok u =>
      by_cases hclosed : u.isClosed = true
      · simp only [hread, hclosed, evaluate_eq hread, bind, Except.bind, pure, Except.pure] at h
        cases h
        exact ⟨u, rfl, hclosed, rfl, rfl⟩
      · simp [hread, hclosed, bind, Except.bind, throw, throwThe, MonadExceptOf.throw] at h
  · rintro ⟨u, hread, hclosed, rfl, rfl⟩
    simp only [compile, hread, hclosed, evaluate_eq hread, bind, Except.bind, pure, Except.pure]
    rfl

theorem compile_eq_ok_iff {trace : Trace} :
    t.compile name source (start : Int) = .ok (trace, t') ↔
      ∃ u, t.read .normal source start = .ok u ∧ u.isClosed = true ∧
        trace = (t.appraise name u).1 ∧ t' = t.put (t.appraise name u).2 := by
  rw [compile_place_eq_ok_iff, Int.toNat_natCast]

/-! ### Definitions that are made again -/

/-- **Whether a table makes a definition**: its source text is read there as the term that
it holds, which is closed, and the search finds the values that it holds. -/
structure Makes (t : MacroTable) (d : Definition) : Prop where
  read : t.read .normal d.source 0 = .ok d.unreduced
  closed : d.unreduced.isClosed = true
  appraise : (t.appraise d.name d.unreduced).2 = d

namespace Makes

theorem readable (h : t.Makes d) : d.unreduced.Readable (t.resolve .normal) :=
  Term.readable_of_parseFrom h.read

/-- What the definition depends on is in the table. -/
theorem mem_names (h : t.Makes d) {n : String} (hn : n ∈ d.dependsOn) : n ∈ t.names :=
  isSome_resolve_iff.mp (h.readable.known n hn)

end Makes

/-- **What is compiled from a printed text is made again** by any table with the same
macros under the names in it. -/
theorem makes_appraise (hread : ∃ resolve, u.Readable resolve) (hclosed : u.isClosed = true)
    (hknown : ∀ n ∈ u.references, n ∈ t.names) (hbudget : t'.budget = t.budget)
    (hget : ∀ n ∈ u.references, t'.get? n = t.get? n) (name : String) :
    t'.Makes (t.appraise name (u.resolveBy (t.resolve .normal))).2 := by
  obtain ⟨resolve, hu⟩ := hread
  have hsame : u.resolveBy (t.resolve .normal) = u.resolveBy (t'.resolve .normal) :=
    Term.resolveBy_congr fun n hn => by rw [MacroTable.resolve, MacroTable.resolve, hget n hn]
  have hknown' : u.Known (t'.resolve .normal) := by
    intro n hn
    rw [isSome_resolve_iff, ← isSome_get?_iff, hget n hn, isSome_get?_iff]
    exact hknown n hn
  refine ⟨?_, by simpa using hclosed, ?_⟩
  · rw [Definition.source, unreduced_appraise, Term.pretty_resolveBy, hsame]
    exact Term.parse_pretty_resolveBy hu hknown'
  · rw [name_appraise, unreduced_appraise]
    exact congrArg Prod.snd (appraise_congr hbudget (by simpa using hget) name)

/-- A definition that is made is made by any table with the same macros under the names it
depends on. -/
theorem Makes.congr (h : t.Makes d) (hbudget : t'.budget = t.budget)
    (hget : ∀ n ∈ d.dependsOn, t'.get? n = t.get? n) : t'.Makes d := by
  have hmakes := makes_appraise ⟨_, h.readable⟩ h.closed (fun n => h.mem_names) hbudget hget d.name
  rwa [h.readable.resolveBy_eq, h.appraise] at hmakes

end MacroTable

end LambdaTrace
