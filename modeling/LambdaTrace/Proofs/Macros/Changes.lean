import LambdaTrace.Proofs.Macros.History

/-!
# What a definition changes

A definition is made from the expansions of the macros it refers to, which are copies, and
they in turn were made from others. As every table that definitions lead to is settled, no
copy is ever older than what it was copied from, and the way by which a table was reached does
not show: what is found under a name is told by the source texts of that name and of all names
it depends on (`LambdaTrace.MacroTable.values_afterDefining`).

A definition that is refused changes nothing. One that is added changes the source text of its
own name only, and what it says about the run that found its value is true of the value that
is kept (`LambdaTrace.MacroTable.define_afterDefining`).
-/

namespace LambdaTrace

namespace MacroTable

variable {t t' : MacroTable} {source n m : String} {trace : Trace}

/-! ### Values and source texts -/

/-- Whether it is added or refused, a definition changes nothing under the names that do not
depend on the one it is for. -/
theorem Settled.get?_define (h : t.Settled) {start : Nat}
    (hheader : readHeader source = .ok (n, start))
    (hm : ¬Relation.ReflTransGen t.DependsOn m n ∨
      ¬Relation.ReflTransGen (t.define source).1.DependsOn m n) :
    (t.define source).1.get? m = t.get? m := by
  rcases h.legible.define_cases source with hsame | ⟨n', trace, u, hu⟩
  · rw [hsame]
  · obtain ⟨start', hheader', -⟩ := hu.read
    obtain ⟨rfl, -⟩ := Prod.mk.inj (Except.ok.inj (hheader.symm.trans hheader'))
    exact hu.get?_of_not_dependsOn h hm

/-- **What is kept under a name depends on source texts only**: its own and those of the names
it depends on, whatever else was defined before, between or after them. So a definition changes
nothing under the names that do not depend on its own, and at any depth every reference stands
for what the table has under its name at present. -/
theorem values_afterDefining (budget : Nat) (sources sources' : List String) :
    let t := (empty budget).afterDefining sources
    let t' := (empty budget).afterDefining sources'
    (∀ n, (∀ m, Relation.ReflTransGen t.DependsOn n m → t'.source? m = t.source? m) →
        t'.get? n = t.get? n) ∧
      (∀ source n start, readHeader source = .ok (n, start) →
        ∀ m, ¬Relation.ReflTransGen t.DependsOn m n ∨
            ¬Relation.ReflTransGen (t.define source).1.DependsOn m n →
          (t.define source).1.get? m = t.get? m) ∧
      ∀ d ∈ t.definitions, ∀ v ∈ d.terms, v.Carries t.Current := by
  obtain ⟨h, hbudget⟩ := (settled_empty budget).afterDefining sources
  obtain ⟨h', hbudget'⟩ := (settled_empty budget).afterDefining sources'
  refine ⟨fun n hsource => ?_, fun source n start hheader m hm => ?_, fun d hd v hv => ?_⟩
  · exact h.get?_eq h' (hbudget'.trans hbudget.symm) hsource
  · exact h.get?_define hheader hm
  · exact (h.sound_of_mem_terms d hd v hv).carries

/-- A macro is the same after two histories in which the macros that it depends on were
redefined and refused, and it is not touched when one that it does not refer to changes. -/
theorem values_afterDefining_twoHistories :
    let t := (empty 8).afterDefining ["I := λx. x", "K := λx. λy. x", "A := I I"]
    let t' := (empty 8).afterDefining ["I := λx. λy. x", "A := I I", "I := λx. A", "I := λz. z",
      "I := λx. x"]
    t'.get? "A" = t.get? "A" ∧ (t.define "K := A I").1.get? "A" = t.get? "A" := by
  obtain ⟨hvalues, hdefine, -⟩ := values_afterDefining 8
    ["I := λx. x", "K := λx. λy. x", "A := I I"]
    ["I := λx. λy. x", "A := I I", "I := λx. A", "I := λz. z", "I := λx. x"]
  -- the macro and the one that it refers to depend on nothing else
  have hclosed : ∀ m, Relation.ReflTransGen ((empty 8).afterDefining
      ["I := λx. x", "K := λx. λy. x", "A := I I"]).DependsOn "A" m → m ∈ ["A", "I"] :=
    fun m hm => mem_of_reflTransGen (by decide +kernel) (by decide) hm
  refine ⟨hvalues "A" fun m hm => ?_, hdefine "K := A I" "K" 4 (by decide +kernel) "A" ?_⟩
  · have hall : ∀ m ∈ ["A", "I"], ((empty 8).afterDefining ["I := λx. λy. x", "A := I I",
        "I := λx. A", "I := λz. z", "I := λx. x"]).source? m =
        ((empty 8).afterDefining ["I := λx. x", "K := λx. λy. x", "A := I I"]).source? m := by
      decide +kernel
    exact hall m (hclosed m hm)
  · exact Or.inl fun hAK => absurd (hclosed "K" hAK) (by decide)

/-! ### All or nothing -/

/-- **A definition that was added**, as seen from outside: the names there are and their source
texts, the term that was read from the given text, the returned run, which is a run of it, and
the values that belong to that run. -/
structure Added (t : MacroTable) (source n : String) (trace : Trace) (t' : MacroTable) :
    Prop where
  nodup : t'.names.Nodup
  mem_names : ∀ m, m ∈ t'.names ↔ m ∈ t.names ∨ m = n
  source_of_ne : ∀ m, m ≠ n → t'.source? m = t.source? m
  kept : ∃ start d, readHeader source = .ok (n, start) ∧
    t.read .normal source start = .ok d.unreduced ∧ t'.get? n = some d ∧
    (∃ strategy w, t.read strategy source start = .ok w ∧ trace = strategy.run t.budget w) ∧
    ((∃ v, d.value? = some v ∧ trace.normalForm? = some v) ∨
      d.full = none ∧ d.valueCbn = none ∧ d.valueCbv = none ∧ trace.timedOut = true)

theorem Defines.added {u : Term} (h : t.Defines source n trace t' u) (ht : t.Settled) :
    t.Added source n trace t' := by
  obtain ⟨start, hheader, hread⟩ := h.read
  obtain ⟨hvalue, htimedOut⟩ := value?_appraise t n u
  refine ⟨h.settled.nodup, h.mem_names, h.source_of_ne, start, (t.appraise n u).2, hheader, ?_,
    h.get?_self ht, ?_, ?_⟩
  · rw [unreduced_appraise]
    exact hread
  · rw [h.trace_eq]
    exact exists_read_appraise hread n
  · rw [h.trace_eq]
    cases hv : (t.appraise n u).2.value? with
    | some v => exact Or.inl ⟨v, rfl, hvalue.symm.trans hv⟩
    | none =>
      obtain ⟨hfull, hcbn, hcbv⟩ := Definition.value?_eq_none_iff.mp hv
      exact Or.inr ⟨hfull, hcbn, hcbv, htimedOut hv⟩

/-- **A definition is added as a whole or not at all.** If it is refused, the table is what it
was. It is added if and only if its text is a header followed by a closed term, which can be
read with the macros there are and refers to none that depends on the defined name. -/
theorem define_afterDefining (budget : Nat) (sources : List String) (source : String) :
    let t := (empty budget).afterDefining sources
    (∀ t' e, t.define source = (t', .error e) → t' = t) ∧
      (∀ t' n trace, t.define source = (t', .ok (n, trace)) → t.Added source n trace t') ∧
      ((∃ t' r, t.define source = (t', .ok r)) ↔
        ∃ n start u, readHeader source = .ok (n, start) ∧ t.read .normal source start = .ok u ∧
          u.isClosed = true ∧ ∀ m ∈ u.references, ¬Relation.ReflTransGen t.DependsOn m n) := by
  have h := settled_afterDefining budget sources
  refine ⟨fun t' e hdef => define_of_error hdef, fun t' n trace hdef => ?_, exists_define_iff h⟩
  obtain ⟨u, hu⟩ := defines_of_define h.legible hdef
  exact hu.added h

/-- A definition that closes a circle is refused, and one of the same name that closes none is
added. -/
theorem define_afterDefining_circle :
    let t := (empty 8).afterDefining ["A := λx. x", "B := A A"]
    (∃ t' e, t.define "A := B" = (t', .error e) ∧ t' = t) ∧
      ∃ t' trace, t.define "A := λx. λy. x" = (t', .ok ("A", trace)) ∧
        t.Added "A := λx. λy. x" "A" trace t' := by
  intro t
  constructor
  · obtain ⟨hrefused, -, -⟩ := define_afterDefining 8 ["A := λx. x", "B := A A"] "A := B"
    have hfails : (t.define "A := B").2.isOk = false := by decide +kernel
    rcases hdef : t.define "A := B" with ⟨t', e | r⟩
    · exact ⟨t', e, rfl, hrefused t' e hdef⟩
    · rw [hdef] at hfails
      cases hfails
  · obtain ⟨-, hadded, -⟩ := define_afterDefining 8 ["A := λx. x", "B := A A"] "A := λx. λy. x"
    have hname : (t.define "A := λx. λy. x").2.toOption.map Prod.fst = some "A" := by
      decide +kernel
    rcases hdef : t.define "A := λx. λy. x" with ⟨t', e | ⟨n, trace⟩⟩
    · rw [hdef] at hname
      cases hname
    · rw [hdef] at hname
      obtain rfl := Option.some.inj hname
      exact ⟨t', trace, rfl, hadded t' "A" trace hdef⟩

end MacroTable

end LambdaTrace
