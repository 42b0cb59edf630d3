import LambdaTrace.Proofs.Macros.Define
import LambdaTrace.Proofs.Macros.Terms
import LambdaTrace.Session.Basic

/-!
# The tables that can be reached

A table is asked to define a macro, to make itself anew, and to give later searches another
budget. The first can be refused. Whatever is asked of a table, in whatever order, it is left
settled but for its budget, which may have changed since its definitions were made
(`LambdaTrace.MacroTable.IsMade`). A definition or a table made anew is made under the budget
of that time, so right afterwards the table is settled, and with one budget throughout it is
settled always (`LambdaTrace.MacroTable.settled_afterDefining`).

What that is worth to those who work with a table is told by two theorems.

| property | theorem |
|---|---|
| all terms are closed, in order, and nothing fails | `LambdaTrace.MacroTable.intact_afterAll` |
| making the table anew twice is making it anew once | `LambdaTrace.MacroTable.fixed_afterAll` |
-/

namespace LambdaTrace

namespace MacroTable

variable {t t' : MacroTable} {budget : Nat}

/-! ### Requests -/

/-- What can be asked of a table. -/
inductive Request where
  | define (source : String)
  | recompile
  | setBudget (budget : Nat)

/-- The table after a request, be it granted or refused. -/
def after (t : MacroTable) : Request → MacroTable
  | .define source => (t.define source).1
  | .recompile => t.recompile.1
  | .setBudget budget => { t with budget }

/-- The table after some requests, one after the other. -/
def afterAll (t : MacroTable) (requests : List Request) : MacroTable :=
  requests.foldl after t

/-- The table after some definitions, added or refused. -/
def afterDefining (t : MacroTable) (sources : List String) : MacroTable :=
  t.afterAll (sources.map .define)

/-! ### What a request leaves -/

/-- The table without macros is settled. -/
theorem settled_empty (budget : Nat) : (empty budget).Settled where
  nodup := List.nodup_nil
  makes d hd := absurd hd List.not_mem_nil
  order := by
    change Dependencies.order [] = .ok []
    decide +kernel

/-- **Whether the definitions are as they were made**, under a budget that need not be the
one the table has now. -/
def IsMade (t : MacroTable) : Prop :=
  ∃ budget, ({ t with budget } : MacroTable).Settled

theorem Settled.isMade (h : t.Settled) : t.IsMade :=
  ⟨t.budget, h⟩

theorem IsMade.legible (h : t.IsMade) : t.Legible := by
  obtain ⟨budget, h'⟩ := h
  exact ⟨h'.legible.nodup, h'.legible.legible, h'.legible.known⟩

/-- The definitions are listed in the order of dependency. -/
theorem IsMade.dependencyOrder_eq (h : t.IsMade) : t.dependencyOrder = .ok t.definitions := by
  obtain ⟨budget, h'⟩ := h
  exact h'.dependencyOrder_eq

/-- An added definition leaves a settled table. -/
theorem IsMade.settled_define (h : t.IsMade) {source : String} {r : String × Trace}
    (hdef : t.define source = (t', .ok r)) : t'.Settled := by
  obtain ⟨u, hu⟩ := defines_of_define h.legible hdef
  exact hu.settled

/-- Made anew, a table is settled and has the source texts from before. -/
theorem IsMade.exists_recompile (h : t.IsMade) : ∃ t', t.recompile = (t', none) ∧
    t'.Settled ∧ t'.budget = t.budget ∧ ∀ n, t'.source? n = t.source? n := by
  obtain ⟨l, horder⟩ : ∃ l, t.dependencies.order = .ok l := by
    obtain ⟨budget, h'⟩ := h
    exact ⟨t.names, h'.order⟩
  obtain ⟨t', hrec, hsettled, hbudget, -, hsource⟩ := exists_settled_of_order h.legible horder
  exact ⟨t', hrec, hsettled, hbudget, hsource⟩

/-- **Every request keeps the definitions as they were made**, or makes them anew. -/
theorem IsMade.after (h : t.IsMade) (request : Request) : (t.after request).IsMade := by
  cases request with
  | define source =>
    rw [MacroTable.after]
    rcases h.legible.define_cases source with hsame | ⟨n, trace, u, hu⟩
    · rwa [hsame]
    · exact hu.settled.isMade
  | recompile =>
    obtain ⟨t', hrec, hsettled, -⟩ := h.exists_recompile
    rw [MacroTable.after, hrec]
    exact hsettled.isMade
  | setBudget budget => exact h

theorem IsMade.afterAll (h : t.IsMade) (requests : List Request) :
    (t.afterAll requests).IsMade := by
  induction requests generalizing t with
  | nil => exact h
  | cons request requests ih => exact ih (h.after request)

/-- A definition, added or refused, leaves a settled table settled under its budget. -/
theorem Settled.define (h : t.Settled) (source : String) :
    (t.define source).1.Settled ∧ (t.define source).1.budget = t.budget := by
  rcases h.legible.define_cases source with hsame | ⟨n, trace, u, hu⟩
  · rw [hsame]
    exact ⟨h, rfl⟩
  · exact ⟨hu.settled, hu.budget⟩

theorem Settled.afterDefining (h : t.Settled) (sources : List String) :
    (t.afterDefining sources).Settled ∧ (t.afterDefining sources).budget = t.budget := by
  induction sources generalizing t with
  | nil => exact ⟨h, rfl⟩
  | cons source sources ih =>
    obtain ⟨hdefine, hbudget⟩ := h.define source
    obtain ⟨hall, hbudget'⟩ := ih hdefine
    exact ⟨hall, hbudget'.trans hbudget⟩

/-- **Under one budget** a table is settled at any time. -/
theorem settled_afterDefining (budget : Nat) (sources : List String) :
    ((empty budget).afterDefining sources).Settled :=
  ((settled_empty budget).afterDefining sources).1

/-! ### Intact tables -/

/-- **An intact table**: closed terms with references to its own macros, each macro after all
that it depends on, and nothing that could fail when the table is put in order, made anew,
listed in a session, or used to name results. -/
structure Intact (t : MacroTable) : Prop where
  nodup : t.names.Nodup
  closed : ∀ d ∈ t.definitions, ∀ v ∈ d.terms, v.isClosed = true ∧ v.refsClosed = true
  known : ∀ d ∈ t.definitions, ∀ v ∈ d.terms, v.Carries fun n _ => n ∈ t.names
  acyclic : t.Acyclic
  sorted : ∀ pre d post, t.definitions = pre ++ d :: post →
    ∀ n ∈ d.dependsOn, ∃ e ∈ pre, e.name = n
  dependencyOrder : ∃ ds, t.dependencyOrder = .ok ds
  recompile : ∃ t', t.recompile = (t', none)
  macroList : ∀ s : Session, s.table = t → ∃ ds s', s.macroList = (.ok ds, s')
  resugar : ∀ strategy term, ∃ r, t.resugar strategy term = .ok r

/-- The macros of a settled table are listed as they are. -/
theorem Settled.macroList_eq (h : t.Settled) {s : Session} (hs : s.table = t) :
    s.macroList = (.ok t.definitions, s) := by
  subst hs
  simp only [Session.macroList, h.recompile_eq, h.dependencyOrder_eq]

/-- A table that was made is settled once its macros are listed. -/
theorem IsMade.exists_macroList (h : t.IsMade) {s : Session} (hs : s.table = t) :
    ∃ s', s'.table.Settled ∧ s.macroList = (.ok s'.table.definitions, s') := by
  obtain ⟨t', hrec, hsettled, -⟩ := h.exists_recompile
  refine ⟨{ s with table := t' }, hsettled, ?_⟩
  simp only [Session.macroList, hs, hrec, hsettled.dependencyOrder_eq]

theorem IsMade.intact (h : t.IsMade) : t.Intact := by
  have horder := h.dependencyOrder_eq
  obtain ⟨budget, h'⟩ := h
  have hsound : ∀ d ∈ t.definitions, ∀ v ∈ d.terms, v.Sound t.Current := h'.sound_of_mem_terms
  refine ⟨h'.nodup, ?_, ?_, h'.acyclic, ?_, ⟨_, horder⟩, ?_, ?_, ?_⟩
  · exact fun d hd v hv => ⟨(hsound d hd v hv).closed, (hsound d hd v hv).refsClosed⟩
  · exact fun d hd v hv => (hsound d hd v hv).carries.mono fun n e he => he.mem_names
  · intro pre d post hsplit n hn
    exact List.mem_map.mp (h'.legible.mem_of_sorted (fun _ => id) h'.sorted hsplit hn)
  · obtain ⟨t', hrec, -⟩ := IsMade.exists_recompile ⟨budget, h'⟩
    exact ⟨t', hrec⟩
  · intro s hs
    obtain ⟨s', -, hlist⟩ := IsMade.exists_macroList ⟨budget, h'⟩ hs
    exact ⟨_, s', hlist⟩
  · intro strategy term
    rw [MacroTable.resugar, candidates, horder]
    exact ⟨_, rfl⟩

/-- **Every table that can be reached is intact**, whatever was asked of it before. -/
theorem intact_afterAll (budget : Nat) (requests : List Request) :
    ((empty budget).afterAll requests).Intact :=
  ((settled_empty budget).isMade.afterAll requests).intact

/-- Two of these definitions are refused, and the names are in the order of dependency. -/
example : ((empty 8).afterAll [.define "A := λx. x", .define "B := λx. A x", .define "A := B",
    .setBudget 4, .define "B := λx. y", .define "B := λx. λy. x", .define "A := B"]).names =
    ["B", "A"] := by
  decide +kernel

/-! ### Making a table anew twice -/

/-- **A fixed table** is not changed by being made anew or listed, not even in its order, and
each of its definitions is what its source text is compiled to. -/
structure Fixed (t : MacroTable) : Prop where
  recompile : t.recompile = (t, none)
  compile : ∀ d ∈ t.definitions, ∃ trace, t.compile d.name d.source 0 = .ok (trace, t)
  macroList : ∀ s : Session, s.table = t → s.macroList = (.ok t.definitions, s)

theorem Settled.fixed (h : t.Settled) : t.Fixed where
  recompile := h.recompile_eq
  compile _ hd := h.compile_eq hd
  macroList _ hs := h.macroList_eq hs

/-- **Made anew, a table is fixed**, with the budget and the source texts from before, and it is
fixed after a definition that was added. Listing the macros twice lists the same. -/
theorem fixed_afterAll (budget : Nat) (requests : List Request) :
    let t := (empty budget).afterAll requests
    (∀ source t' r, t.define source = (t', .ok r) → t'.Fixed) ∧
      (∃ t', t.recompile = (t', none) ∧ t'.Fixed ∧ t'.budget = t.budget ∧
        ∀ n, t'.source? n = t.source? n) ∧
        ∀ s : Session, s.table = t →
          ∃ ds s', s.macroList = (.ok ds, s') ∧ s'.macroList = (.ok ds, s') := by
  have hmade : ((empty budget).afterAll requests).IsMade :=
    (settled_empty budget).isMade.afterAll requests
  refine ⟨fun source t' r hdef => (hmade.settled_define hdef).fixed, ?_, fun s hs => ?_⟩
  · obtain ⟨t', hrec, hsettled, hsame⟩ := hmade.exists_recompile
    exact ⟨t', hrec, hsettled.fixed, hsame⟩
  · obtain ⟨s', hsettled, hlist⟩ := hmade.exists_macroList hs
    exact ⟨_, s', hlist, hsettled.macroList_eq rfl⟩

/-- A redefinition that reverses the order of dependency leaves a table that is fixed. -/
theorem fixed_afterAll_reversed :
    let t := (empty 8).afterAll [.define "A := λx. x", .define "B := λx. A x", .setBudget 4,
      .define "B := λx. λy. x"]
    (∃ t' r, t.define "A := B B" = (t', .ok r) ∧ t'.names = ["B", "A"] ∧ t'.Fixed) ∧
      ∃ s ds s', Session.table s = t ∧ s.macroList = (.ok ds, s') ∧
        s'.macroList = (.ok ds, s') := by
  obtain ⟨hdefine, -, hlist⟩ := fixed_afterAll 8 [.define "A := λx. x", .define "B := λx. A x",
    .setBudget 4, .define "B := λx. λy. x"]
  intro t
  constructor
  · have hnames : (t.define "A := B B").1.names = ["B", "A"] := by decide +kernel
    have hok : (t.define "A := B B").2.isOk = true := by decide +kernel
    rcases hdef : t.define "A := B B" with ⟨t', e | r⟩
    · rw [hdef] at hok
      cases hok
    · rw [hdef] at hnames
      exact ⟨t', r, rfl, hnames, hdefine _ t' r hdef⟩
  · obtain ⟨ds, s', hs⟩ := hlist { (default : Session) with table := t } rfl
    exact ⟨_, ds, s', rfl, hs⟩

end MacroTable

end LambdaTrace
