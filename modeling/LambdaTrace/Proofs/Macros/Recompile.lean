import LambdaTrace.Proofs.Macros.Compile

/-!
# Making a table anew

A table is *settled* if it makes each of its definitions and has them in their own order
of dependency (`LambdaTrace.MacroTable.Settled`). Two facts say what that is worth.

* Making a table anew ends with a settled one, from any table whose definitions are legible
  and refer to each other without a cycle, and keeps all source texts
  (`LambdaTrace.MacroTable.exists_settled_of_order`). The definitions are compiled in the
  order of dependency, so each finds what it refers to made already.
* A settled table is determined by its source texts: what it has under a name depends on
  the texts of that name and of the names it depends on, and on the budget
  (`LambdaTrace.MacroTable.Settled.get?_eq`).

Together they give that a settled table is made anew without a change
(`LambdaTrace.MacroTable.Settled.recompile_eq`).
-/

namespace LambdaTrace

namespace MacroTable

variable {t t' : MacroTable} {d e : Definition} {ds : List Definition} {m n : String}

/-! ### Legible and settled tables -/

/-- What of a definition does not depend on the rest of the table: its name, its source
text, and the names it depends on. -/
def face (d : Definition) : String × String × List String :=
  (d.name, d.source, d.dependsOn)

/-- Whether a definition can be compiled again, given the macros that it refers to. -/
def IsLegible (d : Definition) : Prop :=
  (∃ resolve, d.unreduced.Readable resolve) ∧ d.unreduced.isClosed = true

/-- **A legible table**: no name twice, and definitions that can be compiled again, each of
which refers to names of the table only. -/
structure Legible (t : MacroTable) : Prop where
  nodup : t.names.Nodup
  legible : ∀ d ∈ t.definitions, IsLegible d
  known : ∀ d ∈ t.definitions, ∀ n ∈ d.dependsOn, n ∈ t.names

/-- **A settled table**: no name twice, each definition as the table makes it, and all of
them in the order of dependency. -/
structure Settled (t : MacroTable) : Prop where
  nodup : t.names.Nodup
  makes : ∀ d ∈ t.definitions, t.Makes d
  order : t.dependencies.order = .ok t.names

theorem Makes.isLegible (h : t.Makes d) : IsLegible d :=
  ⟨⟨_, h.readable⟩, h.closed⟩

theorem Settled.legible (h : t.Settled) : t.Legible where
  nodup := h.nodup
  legible d hd := (h.makes d hd).isLegible
  known d hd _ hn := (h.makes d hd).mem_names hn

/-- The macros of a legible table depend on nothing outside it. -/
theorem Legible.dependsOn_iff (h : t.Legible) :
    t.dependencies.DependsOn m n ↔ t.DependsOn m n := by
  rw [dependsOn_dependencies_iff]
  refine and_iff_left_of_imp ?_
  rintro ⟨d, hd, hn⟩
  exact h.known d (mem_of_get? hd) n hn

/-- **A legible table can be put in order** unless a macro depends on itself. -/
theorem Legible.exists_order_iff (h : t.Legible) :
    (∃ l, t.dependencies.order = .ok l) ↔ t.Acyclic := by
  have hsame : t.dependencies.DependsOn = t.DependsOn := by
    funext m n
    exact propext h.dependsOn_iff
  simp only [Dependencies.order_eq_ok_iff (proper_dependencies h.nodup), exists_and_left,
    exists_eq, and_true, Dependencies.Acyclic, hsame, Acyclic]

/-! ### One definition after the other -/

/-- The next definition is compiled at the end of the table, and the ones before it are made
as they were. -/
theorem compile_next (hmakes : ∀ d ∈ t.definitions, t.Makes d) (hlegible : IsLegible d)
    (hname : d.name ∉ t.names) (hknown : ∀ n ∈ d.dependsOn, n ∈ t.names) :
    ∃ trace e, t.compile d.name d.source 0 = .ok (trace, t.put e) ∧ face e = face d ∧
      ∀ c ∈ (t.put e).definitions, (t.put e).Makes c := by
  obtain ⟨⟨resolve, hread⟩, hclosed⟩ := hlegible
  have hu : d.unreduced.Known (t.resolve .normal) :=
    fun n hn => isSome_resolve_iff.mpr (hknown n hn)
  obtain ⟨trace, e, heq⟩ : ∃ trace e,
      t.appraise d.name (d.unreduced.resolveBy (t.resolve .normal)) = (trace, e) := ⟨_, _, rfl⟩
  have hcompile : t.compile d.name d.source (0 : Nat) = .ok (trace, t.put e) :=
    compile_eq_ok_iff.mpr ⟨_, Term.parse_pretty_resolveBy hread hu, by simpa using hclosed,
      by rw [heq], by rw [heq]⟩
  have hname' : e.name = d.name := by
    have happ := name_appraise t d.name (d.unreduced.resolveBy (t.resolve .normal))
    rwa [heq] at happ
  have hunreduced : e.unreduced = d.unreduced.resolveBy (t.resolve .normal) := by
    have happ := unreduced_appraise t d.name (d.unreduced.resolveBy (t.resolve .normal))
    rwa [heq] at happ
  -- what is put in is found under no name that is referred to
  have hget : ∀ n ∈ t.names, (t.put e).get? n = t.get? n := by
    intro n hn
    rw [get?_put, hname', if_neg]
    exact fun hnd => hname (hnd ▸ hn)
  refine ⟨trace, e, hcompile, ?_, fun c hc => ?_⟩
  · simp [face, Definition.source, Definition.dependsOn, hname', hunreduced]
  · have hbudget : (t.put e).budget = t.budget := rfl
    rcases mem_of_mem_put hc with rfl | hc
    · have hmakes := makes_appraise ⟨resolve, hread⟩ hclosed hknown hbudget
        (fun n hn => hget n (hknown n hn)) d.name
      rwa [heq] at hmakes
    · exact (hmakes c hc).congr hbudget fun n hn => hget n ((hmakes c hc).mem_names hn)

/-- **Compiling definitions in an order of dependency** succeeds, and yields definitions that
are made by the table as it is then. -/
theorem compileAll_of_sorted (hmakes : ∀ d ∈ t.definitions, t.Makes d)
    (hlegible : ∀ d ∈ ds, IsLegible d) (hnodup : (t.names ++ ds.map (·.name)).Nodup)
    (hsorted : ∀ pre d post, ds = pre ++ d :: post →
      ∀ n ∈ d.dependsOn, n ∈ t.names ++ pre.map (·.name)) :
    ∃ t', t.compileAll ds = (t', none) ∧ t'.budget = t.budget ∧
      t'.definitions.map face = t.definitions.map face ++ ds.map face ∧
      ∀ d ∈ t'.definitions, t'.Makes d := by
  induction ds generalizing t with
  | nil => exact ⟨t, rfl, rfl, by simp, hmakes⟩
  | cons d ds ih =>
    have hname : d.name ∉ t.names := fun hmem =>
      (List.nodup_append'.mp hnodup).2.2 hmem List.mem_cons_self
    obtain ⟨trace, e, hcompile, hface, hput⟩ := compile_next hmakes
      (hlegible d List.mem_cons_self) hname (by simpa using hsorted [] d ds rfl)
    have hen : e.name = d.name := congrArg Prod.fst hface
    have hdefs : (t.put e).definitions = t.definitions ++ [e] := definitions_put (hen ▸ hname)
    have hnames : (t.put e).names = t.names ++ [d.name] := by
      rw [names, hdefs, List.map_append, List.map_singleton, hen, names]
    obtain ⟨t', hall, hbudget, hfaces, hmakes'⟩ := ih hput
      (fun c hc => hlegible c (List.mem_cons_of_mem d hc)) (by simpa [hnames] using hnodup)
      fun pre c post heq n hn => by
        have hmem := hsorted (d :: pre) c post (by rw [heq, List.cons_append]) n hn
        simpa [hnames] using hmem
    refine ⟨t', ?_, hbudget, ?_, hmakes'⟩
    · rw [compileAll, hcompile]
      exact hall
    · rw [hfaces, hdefs, List.map_append, List.map_singleton, hface, List.append_assoc]
      rfl

/-! ### In the order of dependency -/

namespace Legible

/-- Among definitions of the table whose names are sorted, each stands after the ones it
depends on. -/
theorem mem_of_sorted (h : t.Legible) (hds : ∀ d ∈ ds, d ∈ t.definitions)
    (hsorted : t.dependencies.Sorted (ds.map (·.name))) {pre post : List Definition}
    (hsplit : ds = pre ++ d :: post) (hn : n ∈ d.dependsOn) : n ∈ pre.map (·.name) := by
  have hd : d ∈ t.definitions := hds d (by simp [hsplit])
  have hdep : t.dependencies.DependsOn d.name n :=
    h.dependsOn_iff.mpr ⟨d, get?_name h.nodup hd, hn⟩
  exact hsorted _ d.name (post.map (·.name)) (by simp [hsplit]) n hdep

variable {l : List String}

theorem mem_order (h : t.Legible) (horder : t.dependencies.order = .ok l) :
    n ∈ l ↔ n ∈ t.names := by
  rw [Dependencies.mem_order (proper_dependencies h.nodup) horder, defined_dependencies]

theorem map_name_order (h : t.Legible) (horder : t.dependencies.order = .ok l) :
    (l.filterMap t.get?).map (·.name) = l :=
  map_name_filterMap_get? fun _ hn => (h.mem_order horder).mp hn

theorem find?_order (h : t.Legible) (horder : t.dependencies.order = .ok l) (n : String) :
    (l.filterMap t.get?).find? (·.name == n) = t.get? n := by
  rw [find?_filterMap_get?]
  split
  · rfl
  · rename_i hn
    exact (get?_eq_none_iff.mpr fun hmem => hn ((h.mem_order horder).mpr hmem)).symm

end Legible

/-! ### The whole table -/

theorem map_face_get? (t : MacroTable) (n : String) :
    (t.get? n).map face = (t.definitions.map face).find? (·.1 == n) := by
  rw [get?, List.find?_map]
  rfl

theorem names_eq_map_face (t : MacroTable) : t.names = (t.definitions.map face).map Prod.fst := by
  rw [names, List.map_map]
  rfl

theorem source?_eq_of_face (hface : (t'.get? n).map face = (t.get? n).map face) :
    t'.source? n = t.source? n := by
  have hmap : ∀ o : Option Definition, o.map (·.source) = (o.map face).map (·.2.1) := by
    intro o
    cases o <;> rfl
  rw [source?, source?, hmap, hmap, hface]

/-- What a name depends on within the table is told by its face and by which names there
are. -/
theorem dependenciesOf_eq_of_face (hface : (t'.get? n).map face = (t.get? n).map face)
    (hnames : ∀ m, m ∈ t'.names ↔ m ∈ t.names) :
    t'.dependencies.dependenciesOf n = t.dependencies.dependenciesOf n := by
  have hcontains : t'.names.contains = t.names.contains := by
    funext m
    rw [Bool.eq_iff_iff, List.contains_iff_mem, List.contains_iff_mem, hnames]
  have hdeps : ∀ t : MacroTable, t.dependencies.dependenciesOf n =
      ((t.get? n).map fun d => d.dependsOn.filter t.names.contains).getD [] :=
    fun t => t.dependenciesOf_dependencies n
  have hmap : ∀ (p : String → Bool) (o : Option Definition),
      (o.map fun d => d.dependsOn.filter p) = (o.map face).map fun f => f.2.2.filter p := by
    intro p o
    cases o <;> rfl
  rw [hdeps, hdeps, hmap, hmap, hface, hcontains]

/-- **Making a legible table anew** succeeds if its definitions can be put in order, and ends
with a settled table of the same source texts. -/
theorem exists_settled_of_order (h : t.Legible) {l : List String}
    (horder : t.dependencies.order = .ok l) :
    ∃ t', t.recompile = (t', none) ∧ t'.Settled ∧ t'.budget = t.budget ∧ t'.names = l ∧
      ∀ n, t'.source? n = t.source? n := by
  have hproper := proper_dependencies h.nodup
  have hlnodup := Dependencies.nodup_order hproper horder
  have hdsnames := h.map_name_order horder
  have hdsmem : ∀ d ∈ l.filterMap t.get?, d ∈ t.definitions := by
    intro d hd
    obtain ⟨n, -, hn⟩ := List.mem_filterMap.mp hd
    exact mem_of_get? hn
  have hsorted : ∀ pre d post, l.filterMap t.get? = pre ++ d :: post →
      ∀ n ∈ d.dependsOn, n ∈ t.emptied.names ++ pre.map (·.name) := by
    have hl : t.dependencies.Sorted ((l.filterMap t.get?).map (·.name)) := by
      rw [hdsnames]
      exact Dependencies.sorted_order hproper horder
    exact fun pre d post hsplit n hn => h.mem_of_sorted hdsmem hl hsplit hn
  obtain ⟨t', hall, hbudget, hfaces, hmakes⟩ := compileAll_of_sorted (t := t.emptied)
    (by simp [emptied]) (fun d hd => h.legible d (hdsmem d hd))
    (by simpa [emptied, names, hdsnames] using hlnodup) hsorted
  have hfaces' : t'.definitions.map face = (l.filterMap t.get?).map face := by
    simpa [emptied] using hfaces
  -- the new table has the faces of the old one, in the new order
  have hnames : t'.names = l := by
    rw [names_eq_map_face, hfaces', List.map_map]
    exact hdsnames
  have hface : ∀ n, (t'.get? n).map face = (t.get? n).map face := by
    intro n
    rw [map_face_get?, hfaces', ← h.find?_order horder, List.find?_map]
    rfl
  have hmem : ∀ m, m ∈ t'.names ↔ m ∈ t.names := by
    intro m
    rw [hnames, h.mem_order horder]
  have hnodup : t'.names.Nodup := hnames ▸ hlnodup
  refine ⟨t', ?_, ⟨hnodup, hmakes, ?_⟩, hbudget, hnames, fun n => source?_eq_of_face (hface n)⟩
  · rw [recompile, dependencyOrder, horder]
    exact hall
  · rw [hnames]
    exact Dependencies.order_eq_of_defined hproper horder (proper_dependencies hnodup)
      (fun n => dependenciesOf_eq_of_face (hface n) hmem) (by rw [defined_dependencies, hnames])

/-! ### Settled tables -/

/-- A definition that is made is determined by its name and its source text. -/
theorem Makes.eq (hd : t.Makes d) (he : t.Makes e) (hname : d.name = e.name)
    (hsource : d.source = e.source) : d = e := by
  have hread : d.unreduced = e.unreduced := by
    have hok := hd.read
    rw [hsource, he.read] at hok
    exact (Except.ok.inj hok).symm
  rw [← hd.appraise, ← he.appraise, hname, hread]

namespace Settled

theorem sorted (h : t.Settled) : t.dependencies.Sorted t.names :=
  Dependencies.sorted_order (proper_dependencies h.nodup) h.order

/-- **Induction along dependency**: what holds of a name as soon as it holds of all names
that it depends on, holds of every name. -/
theorem induction (h : t.Settled) {P : String → Prop}
    (step : ∀ n, (∀ m, t.DependsOn n m → P m) → P n) (n : String) : P n := by
  -- what a name depends on has a smaller place in the order
  induction hk : t.names.idxOf n using Nat.strong_induction_on generalizing n with
  | _ k ih =>
    refine step n fun m hnm => ih _ ?_ m rfl
    have hn : n ∈ t.names := by
      obtain ⟨d, hd, -⟩ := hnm
      exact isSome_get?_iff.mp (Option.isSome_of_eq_some hd)
    exact hk ▸ h.sorted.idxOf_lt hn (h.legible.dependsOn_iff.mpr hnm)

/-- So does what holds of a definition as soon as it holds of those that it depends on. -/
@[elab_as_elim]
theorem definition_induction (h : t.Settled) {motive : Definition → Prop}
    (mem : d ∈ t.definitions) (step : ∀ d ∈ t.definitions,
      (∀ m ∈ d.dependsOn, ∀ c, t.get? m = some c → motive c) → motive d) : motive d := by
  have hall : ∀ n d, t.get? n = some d → motive d := by
    intro n
    induction n using h.induction with
    | step n ih =>
      exact fun d hd => step d (mem_of_get? hd) fun m hm c hc => ih m ⟨d, hd, hm⟩ c hc
  exact hall d.name d (get?_name h.nodup mem)

theorem acyclic (h : t.Settled) : t.Acyclic :=
  h.legible.exists_order_iff.mp ⟨_, h.order⟩

/-- **What a settled table has under a name is determined by the source texts** of that name
and of all names it depends on, directly or through others. -/
theorem get?_eq (h : t.Settled) (h' : t'.Settled) (hbudget : t'.budget = t.budget)
    (hsource : ∀ m, Relation.ReflTransGen t.DependsOn n m → t'.source? m = t.source? m) :
    t'.get? n = t.get? n := by
  induction n using h.induction with
  | step n ih =>
    have hn : t'.source? n = t.source? n := hsource n .refl
    cases hd : t.get? n with
    | none => simpa [source?, hd] using hn
    | some d =>
      obtain ⟨e, he, heq⟩ : ∃ e, t'.get? n = some e ∧ e.source = d.source := by
        simpa [source?, hd] using hn
      -- the other table has the same macros under the names that the definition refers to
      have hdeps : ∀ m ∈ d.dependsOn, t'.get? m = t.get? m := fun m hm =>
        ih m ⟨d, hd, hm⟩ fun k hk => hsource k (.head ⟨d, hd, hm⟩ hk)
      have hmakes : t'.Makes d := (h.makes d (mem_of_get? hd)).congr hbudget hdeps
      have hname : e.name = d.name := (name_of_get? he).trans (name_of_get? hd).symm
      rw [he, (h'.makes e (mem_of_get? he)).eq hmakes hname heq]

theorem dependencyOrder_eq (h : t.Settled) : t.dependencyOrder = .ok t.definitions := by
  rw [dependencyOrder, h.order]
  exact congrArg Except.ok (filterMap_get?_names h.nodup)

/-- **Making a settled table anew changes nothing**, not even the order. -/
theorem recompile_eq (h : t.Settled) : t.recompile = (t, none) := by
  obtain ⟨t', hrec, h', hbudget, hnames, hsource⟩ :=
    exists_settled_of_order h.legible h.order
  have heq : t' = t :=
    eq_of_get? h.nodup hbudget hnames fun n => h.get?_eq h' hbudget fun m _ => hsource m
  rw [hrec, heq]

/-- Nor does compiling one of its definitions again. -/
theorem compile_eq (h : t.Settled) (hd : d ∈ t.definitions) :
    ∃ trace, t.compile d.name d.source 0 = .ok (trace, t) := by
  have hmakes := h.makes d hd
  have hcompile : t.compile d.name d.source (0 : Nat) =
      .ok ((t.appraise d.name d.unreduced).1, t.put (t.appraise d.name d.unreduced).2) :=
    compile_eq_ok_iff.mpr ⟨_, hmakes.read, hmakes.closed, rfl, rfl⟩
  rw [hmakes.appraise, put_of_mem h.nodup hd] at hcompile
  exact ⟨_, hcompile⟩

end Settled

end MacroTable

end LambdaTrace
