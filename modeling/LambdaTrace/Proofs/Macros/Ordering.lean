import LambdaTrace.Proofs.Macros.History
import LambdaTrace.Term.Path

/-!
# Putting a table in order

Tables that are made by definitions alone are in order all along; but a definition can also be
compiled into a table without making the rest anew, and then the table can come to be in any
order, hold definitions that refer to each other in a circle, or refer to macros by expansions
that are out of date (`LambdaTrace.MacroTable.Change`). What remains is that no name is defined
twice (`LambdaTrace.MacroTable.nodup_names_afterChanges`).

That is all that is needed to put a table in order. Either there is an order of its definitions
in which each stands after those that it depends on, and then one is found; or some definitions
refer to each other in a circle, and then one circle is reported
(`LambdaTrace.MacroTable.ordered_or_circular`). Macros that are not in the table are not looked
at.
-/

namespace LambdaTrace

/-- **A term refers to a macro** if a reference to it stands somewhere in the term. -/
theorem Term.mem_references_iff {t : Term} {n : String} :
    n ∈ t.references ↔ ∃ path e, t.at? path = some (.ref n e) := by
  induction t with
  | var x =>
    refine iff_of_false List.not_mem_nil ?_
    rintro ⟨_ | ⟨_ | _ | _, path⟩, e, he⟩ <;> cases he
  | app f a ihf iha =>
    rw [mem_references_app, ihf, iha]
    constructor
    · rintro (⟨path, e, he⟩ | ⟨path, e, he⟩)
      · exact ⟨.left :: path, e, he⟩
      · exact ⟨.right :: path, e, he⟩
    · rintro ⟨_ | ⟨_ | _ | _, path⟩, e, he⟩
      · cases he
      · exact Or.inl ⟨path, e, he⟩
      · exact Or.inr ⟨path, e, he⟩
      · cases he
  | abs x b ih =>
    rw [references, ih]
    constructor
    · rintro ⟨path, e, he⟩
      exact ⟨.body :: path, e, he⟩
    · rintro ⟨_ | ⟨_ | _ | _, path⟩, e, he⟩
      · cases he
      · cases he
      · cases he
      · exact ⟨path, e, he⟩
  | ref m t =>
    rw [references, List.mem_singleton]
    constructor
    · rintro rfl
      exact ⟨[], t, rfl⟩
    · rintro ⟨_ | ⟨_ | _ | _, path⟩, e, he⟩ <;> cases he
      rfl

namespace MacroTable

variable {t t' : MacroTable}

/-! ### Tables in which no name is defined twice -/

/-- What a table can go through: a request, or a definition that is compiled into it while the
rest stays as it is. -/
inductive Change where
  | request (request : Request)
  | compile (name source : String) (start : Int)

/-- The table after a change, be it granted or refused. -/
def afterChange (t : MacroTable) : Change → MacroTable
  | .request request => t.after request
  | .compile name source start =>
    match t.compile name source start with
    | .ok (_, compiled) => compiled
    | .error _ => t

/-- The table after some changes, one after the other. -/
def afterChanges (t : MacroTable) (changes : List Change) : MacroTable :=
  changes.foldl afterChange t

/-- What is compiled is put into the table. -/
theorem exists_put_of_compile {name source : String} {start : Int} {trace : Trace}
    (h : t.compile name source start = .ok (trace, t')) : ∃ d, t' = t.put d := by
  obtain ⟨u, -, -, -, hput⟩ := compile_place_eq_ok_iff.mp h
  exact ⟨_, hput⟩

theorem nodup_names_compileAll (h : t.names.Nodup) (ds : List Definition) :
    (t.compileAll ds).1.names.Nodup := by
  induction ds generalizing t with
  | nil => exact h
  | cons d ds ih =>
    rw [compileAll]
    split
    · exact h
    · rename_i hcompile
      obtain ⟨e, rfl⟩ := exists_put_of_compile hcompile
      exact ih (nodup_names_put h)

theorem nodup_names_recompile (h : t.names.Nodup) : t.recompile.1.names.Nodup := by
  rw [recompile]
  split
  · exact h
  · exact nodup_names_compileAll (t := t.emptied) List.nodup_nil _

theorem nodup_names_define (h : t.names.Nodup) (source : String) :
    (t.define source).1.names.Nodup := by
  cases hdef : t.define source with
  | mk t' r =>
    cases r with
    | error e => rwa [define_of_error hdef]
    | ok r =>
      obtain ⟨start, added, -, hcompile, hrec⟩ := define_eq_ok_iff.mp hdef
      obtain ⟨d, rfl⟩ := exists_put_of_compile hcompile
      have hanew := nodup_names_recompile (nodup_names_put (d := d) h)
      rwa [hrec] at hanew

/-- **No name is defined twice**, whatever a table has gone through. -/
theorem nodup_names_afterChanges (h : t.names.Nodup) (changes : List Change) :
    (t.afterChanges changes).names.Nodup := by
  induction changes generalizing t with
  | nil => exact h
  | cons change changes ih =>
    refine ih ?_
    rcases change with ⟨source | _ | budget⟩ | ⟨name, source, start⟩
    · exact nodup_names_define h source
    · exact nodup_names_recompile h
    · exact h
    · rw [afterChange]
      split
      · rename_i hcompile
        obtain ⟨d, rfl⟩ := exists_put_of_compile hcompile
        exact nodup_names_put h
      · exact h

/-! ### Orders and circles -/

/-- **An order of the definitions of a table**: all of them, each after the definitions of the
table that it depends on. -/
structure IsOrder (t : MacroTable) (ds : List Definition) : Prop where
  perm : ds.Perm t.definitions
  after : ∀ pre d post, ds = pre ++ d :: post →
    ∀ n ∈ d.dependsOn, n ∈ t.names → n ∈ pre.map (·.name)

/-- **A circle of definitions**: names of which each depends on the one before it, from a name
back to itself and with no other name twice. -/
def IsCircle (t : MacroTable) (circle : List String) : Prop :=
  ∃ n rest, circle = n :: (rest ++ [n]) ∧ (n :: rest).Nodup ∧
    circle.IsChain fun a b => t.DependsOn b a

/-- What is returned is an order. -/
theorem isOrder_of_dependencyOrder (h : t.names.Nodup) {ds : List Definition}
    (hds : t.dependencyOrder = .ok ds) : t.IsOrder ds := by
  have hg := proper_dependencies h
  obtain ⟨l, hl, rfl⟩ : ∃ l, t.dependencies.order = .ok l ∧ l.filterMap t.get? = ds := by
    rw [dependencyOrder] at hds
    cases ho : t.dependencies.order with
    | ok l => exact ⟨l, rfl, by simpa [ho, Except.map] using hds⟩
    | error c => simp [ho, Except.map] at hds
  have hmem : ∀ n, n ∈ l ↔ n ∈ t.names := by
    intro n
    rw [Dependencies.mem_order hg hl, defined_dependencies]
  have hnames : (l.filterMap t.get?).map (·.name) = l :=
    map_name_filterMap_get? fun n hn => (hmem n).mp hn
  have hperm : (l.filterMap t.get?).Perm t.definitions := by
    rw [← filterMap_get?_names h]
    exact ((List.perm_ext_iff_of_nodup (Dependencies.nodup_order hg hl) h).mpr hmem).filterMap _
  refine ⟨hperm, fun pre d post hsplit n hn hknown => ?_⟩
  have hd : d ∈ t.definitions := hperm.subset (by simp [hsplit])
  have hl' : l = pre.map (·.name) ++ d.name :: post.map (·.name) := by
    rw [← hnames, hsplit, List.map_append, List.map_cons]
  exact Dependencies.sorted_order hg hl _ d.name _ hl' n
    (dependsOn_dependencies_iff.mpr ⟨⟨d, get?_name h hd, hn⟩, hknown⟩)

/-- What is reported is a circle. -/
theorem isCircle_of_dependencyOrder (h : t.names.Nodup) {circle : List String}
    (hc : t.dependencyOrder = .error circle) : t.IsCircle circle := by
  have horder : t.dependencies.order = .error circle := by
    rw [dependencyOrder] at hc
    cases ho : t.dependencies.order with
    | ok l => simp [ho, Except.map] at hc
    | error c => simpa [ho, Except.map] using hc
  obtain ⟨n, rest, heq, hnodup, hchain⟩ := Dependencies.isCycle_of_findCycle
    (proper_dependencies h) (Dependencies.order_eq_error_iff.mp horder)
  exact ⟨n, rest, heq, hnodup, hchain.imp fun a b hab => (dependsOn_dependencies_iff.mp hab).1⟩

/-- There is an order unless a macro depends on itself within the table. -/
theorem exists_dependencyOrder_error_iff (h : t.names.Nodup) :
    (∃ circle, t.dependencyOrder = .error circle) ↔
      ∃ n, Relation.TransGen (fun m n => t.DependsOn m n ∧ n ∈ t.names) n n := by
  have hg := proper_dependencies h
  have hrel : t.dependencies.DependsOn = fun m n => t.DependsOn m n ∧ n ∈ t.names := by
    funext m n
    exact propext dependsOn_dependencies_iff
  have hfind : (∃ circle, t.dependencyOrder = .error circle) ↔
      t.dependencies.findCycle ≠ none := by
    rw [Option.ne_none_iff_exists']
    refine exists_congr fun circle => ?_
    rw [← Dependencies.order_eq_error_iff, dependencyOrder]
    cases t.dependencies.order <;> simp [Except.map]
  rw [hfind, Ne, Dependencies.findCycle_eq_none_iff hg, Dependencies.Acyclic, hrel]
  simp only [not_forall, not_not]

/-- **A table is put in order, or has a circle and one is told.** Whatever a table has gone
through, no name is defined twice; and of any such table an order is returned, or else a circle
that the message shows, the latter exactly if a macro depends on itself within the table. A macro
depends on those that its term as written refers to. -/
theorem ordered_or_circular :
    (∀ budget changes, ((empty budget).afterChanges changes).names.Nodup) ∧
    ∀ t : MacroTable, t.names.Nodup →
      ((∃ ds, t.dependencyOrder = .ok ds ∧ t.IsOrder ds) ∨
        ∃ circle, t.dependencyOrder = .error circle ∧ t.IsCircle circle ∧
          (TableError.circular circle).report.message =
            "cannot define circularly dependent macro: " ++ " -> ".intercalate circle) ∧
      ((∃ circle, t.dependencyOrder = .error circle) ↔
        ∃ n, Relation.TransGen (fun m n => t.DependsOn m n ∧ n ∈ t.names) n n) ∧
      ∀ m n, t.DependsOn m n ↔
        ∃ d path e, t.get? m = some d ∧ d.unreduced.at? path = some (.ref n e) := by
  refine ⟨fun budget => nodup_names_afterChanges List.nodup_nil, fun t h => ⟨?_, ?_, ?_⟩⟩
  · cases horder : t.dependencyOrder with
    | ok ds => exact Or.inl ⟨ds, rfl, isOrder_of_dependencyOrder h horder⟩
    | error circle => exact Or.inr ⟨circle, rfl, isCircle_of_dependencyOrder h horder, rfl⟩
  · exact exists_dependencyOrder_error_iff h
  · intro m n
    simp only [DependsOn, Definition.dependsOn, Term.mem_references_iff]
    constructor
    · rintro ⟨d, hd, path, e, he⟩
      exact ⟨d, path, e, hd, he⟩
    · rintro ⟨d, path, e, hd, he⟩
      exact ⟨d, hd, path, e, he⟩

/-- Two definitions compiled one after the other, the first of which is then compiled again with
a reference to the second: these are put in the other order if the second does not refer to the
first, and are a circle if it does. -/
theorem ordered_or_circular_compiledAgain :
    let ordered := (empty 8).afterChanges
      [.compile "A" "λx. x" 0, .compile "B" "λx. x" 0, .compile "A" "B" 0]
    let circular := (empty 8).afterChanges
      [.compile "A" "λx. x" 0, .compile "B" "A" 0, .compile "A" "B" 0]
    (∃ ds, ordered.dependencyOrder = .ok ds ∧ ordered.IsOrder ds ∧
      ordered.names = ["A", "B"] ∧ ds.map Definition.name = ["B", "A"]) ∧
    circular.dependencyOrder = .error ["A", "B", "A"] ∧ circular.IsCircle ["A", "B", "A"] := by
  intro ordered circular
  obtain ⟨hnodup, htables⟩ := ordered_or_circular
  constructor
  · obtain ⟨⟨ds, hds, horder⟩ | ⟨circle, hc, -⟩, -⟩ := htables ordered (hnodup 8 _)
    · have hnames : ordered.dependencyOrder.toOption.map (List.map Definition.name) =
          some ["B", "A"] := by decide +kernel
      rw [hds] at hnames
      exact ⟨ds, hds, horder, by decide +kernel, Option.some.inj hnames⟩
    · have hok : ordered.dependencyOrder.isOk = true := by decide +kernel
      rw [hc] at hok
      cases hok
  · have hc : circular.dependencyOrder = .error ["A", "B", "A"] := by decide +kernel
    obtain ⟨⟨ds, hds, -⟩ | ⟨circle, hc', hcircle, -⟩, -⟩ := htables circular (hnodup 8 _)
    · rw [hc] at hds
      cases hds
    · rw [hc] at hc'
      cases hc'
      exact ⟨hc, hcircle⟩

end MacroTable

end LambdaTrace
