import LambdaTrace.Macros.Table
import LambdaTrace.Proofs.Dependency.Queue

/-!
# Looking up definitions

A table in which no name is defined twice is a map with an order: it is determined by
its names and by what is found under each of them
(`LambdaTrace.MacroTable.definitions_eq`). Putting a definition into it changes what is
found under one name only, and keeps the order of the names.

What a table depends on internally is read off what is found under its names
(`LambdaTrace.MacroTable.dependenciesOf_dependencies`).
-/

namespace LambdaTrace

namespace MacroTable

variable {t t' : MacroTable} {d e : Definition} {m n : String}

/-! ### What is found -/

/-- The source text of a name. -/
def source? (t : MacroTable) (n : String) : Option String :=
  (t.get? n).map (·.source)

/-- **Direct dependency** of a macro of the table on a name. -/
def DependsOn (t : MacroTable) (m n : String) : Prop :=
  ∃ d, t.get? m = some d ∧ n ∈ d.dependsOn

/-- No macro depends on itself, directly or through others. -/
def Acyclic (t : MacroTable) : Prop :=
  ∀ n, ¬Relation.TransGen t.DependsOn n n

theorem name_of_get? (h : t.get? n = some d) : d.name = n := by
  simpa using List.find?_some h

theorem mem_of_get? (h : t.get? n = some d) : d ∈ t.definitions :=
  List.mem_of_find?_eq_some h

theorem mem_names_of_mem (h : d ∈ t.definitions) : d.name ∈ t.names :=
  List.mem_map_of_mem h

theorem isSome_get?_iff : (t.get? n).isSome = true ↔ n ∈ t.names := by
  simp [get?, names, List.find?_isSome]

theorem exists_of_mem_names (h : n ∈ t.names) : ∃ d, t.get? n = some d :=
  Option.isSome_iff_exists.mp (isSome_get?_iff.mpr h)

theorem get?_eq_none_iff : t.get? n = none ↔ n ∉ t.names := by
  rw [← isSome_get?_iff, Bool.not_eq_true, Option.isSome_eq_false_iff, Option.isNone_iff_eq_none]

theorem isSome_resolve_iff {strategy : Strategy} :
    (t.resolve strategy n).isSome = true ↔ n ∈ t.names := by
  rw [resolve, Option.isSome_map, isSome_get?_iff]

theorem get?_eq_some_iff (h : t.names.Nodup) :
    t.get? n = some d ↔ d ∈ t.definitions ∧ d.name = n := by
  refine ⟨fun hd => ⟨mem_of_get? hd, name_of_get? hd⟩, ?_⟩
  rintro ⟨hd, rfl⟩
  obtain ⟨e, he⟩ := exists_of_mem_names (mem_names_of_mem hd)
  have heq : e = d := List.inj_on_of_nodup_map h (mem_of_get? he) hd (name_of_get? he)
  rw [he, heq]

/-- A definition of the table is found under its name. -/
theorem get?_name (h : t.names.Nodup) (hd : d ∈ t.definitions) : t.get? d.name = some d :=
  (get?_eq_some_iff h).mpr ⟨hd, rfl⟩

/-- Names that refer to nothing but each other depend on nothing else. -/
theorem mem_of_reflTransGen {l : List String}
    (hl : ∀ m ∈ l, ∀ d ∈ t.get? m, ∀ k ∈ d.dependsOn, k ∈ l) (hm : m ∈ l)
    (h : Relation.ReflTransGen t.DependsOn m n) : n ∈ l := by
  induction h with
  | refl => exact hm
  | tail _ hkn ih =>
    obtain ⟨d, hd, hn⟩ := hkn
    exact hl _ ih d hd _ hn

/-- The definitions that are found under certain names. -/
theorem find?_filterMap_get? (l : List String) (n : String) :
    (l.filterMap t.get?).find? (·.name == n) = if n ∈ l then t.get? n else none := by
  induction l with
  | nil => rfl
  | cons m l ih =>
    cases hm : t.get? m with
    | none =>
      rw [List.filterMap_cons_none hm, ih]
      by_cases hnm : n = m
      · simp [hnm, hm]
      · simp [hnm]
    | some d =>
      rw [List.filterMap_cons_some hm, List.find?_cons, name_of_get? hm, ih]
      by_cases hmn : m = n
      · simp [← hmn, hm]
      · simp [beq_false_of_ne hmn, Ne.symm hmn]

theorem map_name_filterMap_get? {l : List String} (h : ∀ n ∈ l, n ∈ t.names) :
    (l.filterMap t.get?).map (·.name) = l := by
  induction l with
  | nil => rfl
  | cons m l ih =>
    obtain ⟨d, hd⟩ := exists_of_mem_names (h m List.mem_cons_self)
    rw [List.filterMap_cons_some hd, List.map_cons, name_of_get? hd,
      ih fun n hn => h n (List.mem_cons_of_mem m hn)]

/-- The definitions are what is found under the names, in their order. -/
theorem filterMap_get?_names (h : t.names.Nodup) : t.names.filterMap t.get? = t.definitions := by
  have hfound : ∀ d ∈ t.definitions, t.get? d.name = some d := fun d hd => get?_name h hd
  rw [names, List.filterMap_map]
  refine (List.filterMap_congr (g := some) hfound).trans ?_
  simp

/-- **A table is determined** by its names and by what is found under them. -/
theorem definitions_eq (h : t.names.Nodup) (hnames : t'.names = t.names)
    (hget : ∀ n, t'.get? n = t.get? n) : t'.definitions = t.definitions := by
  rw [← filterMap_get?_names h, ← filterMap_get?_names (hnames ▸ h), hnames, funext hget]

/-- Two tables are the same if they look the same and have the same budget. -/
theorem eq_of_get? (h : t.names.Nodup) (hbudget : t'.budget = t.budget)
    (hnames : t'.names = t.names) (hget : ∀ n, t'.get? n = t.get? n) : t' = t := by
  have hdefs := definitions_eq h hnames hget
  cases t
  cases t'
  cases hbudget
  cases hdefs
  rfl

/-! ### Putting a definition in -/

theorem map_name_putInto (d : Definition) (ds : List Definition) :
    (putInto d ds).map (·.name) =
      if d.name ∈ ds.map (·.name) then ds.map (·.name) else ds.map (·.name) ++ [d.name] := by
  induction ds with
  | nil => rfl
  | cons e ds ih =>
    rw [putInto]
    by_cases hed : e.name = d.name
    · simp [hed]
    · rw [if_neg (by simpa using hed), List.map_cons, ih]
      by_cases hd : d.name ∈ ds.map (·.name) <;> simp [hd, Ne.symm hed]

theorem names_put (t : MacroTable) (d : Definition) :
    (t.put d).names = if d.name ∈ t.names then t.names else t.names ++ [d.name] :=
  map_name_putInto d t.definitions

theorem mem_names_put : n ∈ (t.put d).names ↔ n ∈ t.names ∨ n = d.name := by
  rw [names_put]
  split
  · rename_i h
    exact (or_iff_left_of_imp fun hn => hn ▸ h).symm
  · rw [List.mem_append, List.mem_singleton]

theorem nodup_names_put (h : t.names.Nodup) : (t.put d).names.Nodup := by
  rw [names_put]
  split
  · exact h
  · rename_i hd
    exact List.nodup_append'.mpr ⟨h, List.nodup_singleton _, by simpa using hd⟩

theorem mem_of_mem_putInto {ds : List Definition} (h : e ∈ putInto d ds) :
    e = d ∨ e ∈ ds := by
  induction ds with
  | nil => simpa [putInto] using h
  | cons c ds ih =>
    rw [putInto] at h
    split at h
    · exact (List.mem_cons.mp h).imp_right (List.mem_cons_of_mem c)
    · rcases List.mem_cons.mp h with rfl | h
      · exact Or.inr List.mem_cons_self
      · exact (ih h).imp_right (List.mem_cons_of_mem c)

theorem mem_of_mem_put (h : e ∈ (t.put d).definitions) : e = d ∨ e ∈ t.definitions :=
  mem_of_mem_putInto h

theorem find?_putInto (d : Definition) (ds : List Definition) (n : String) :
    (putInto d ds).find? (·.name == n) =
      if n = d.name then some d else ds.find? (·.name == n) := by
  induction ds with
  | nil =>
    by_cases h : n = d.name <;> simp [putInto, h, Ne.symm]
  | cons e ds ih =>
    rw [putInto]
    by_cases hed : e.name = d.name
    · rw [if_pos (by simpa using hed)]
      by_cases hn : n = d.name
      · simp [hn]
      · simp [hn, Ne.symm hn, hed]
    · rw [if_neg (by simpa using hed), List.find?_cons, ih]
      by_cases hen : e.name = n
      · simp [hen, hen ▸ hed]
      · simp [beq_false_of_ne hen]

/-- **Putting a definition in** changes what is found under its own name only. -/
theorem get?_put (t : MacroTable) (d : Definition) (n : String) :
    (t.put d).get? n = if n = d.name then some d else t.get? n :=
  find?_putInto d t.definitions n

/-- Putting in what is there already changes nothing. -/
theorem put_of_mem (h : t.names.Nodup) (hd : d ∈ t.definitions) : t.put d = t := by
  refine eq_of_get? h rfl ?_ fun n => ?_
  · rw [names_put, if_pos (mem_names_of_mem hd)]
  · rw [get?_put]
    split
    · rename_i hn
      exact ((get?_eq_some_iff h).mpr ⟨hd, hn.symm⟩).symm
    · rfl

/-- A definition of a new name is put at the end. -/
theorem definitions_put (h : d.name ∉ t.names) :
    (t.put d).definitions = t.definitions ++ [d] := by
  have hput : ∀ ds : List Definition, d.name ∉ ds.map (·.name) → putInto d ds = ds ++ [d] := by
    intro ds
    induction ds with
    | nil => exact fun _ => rfl
    | cons e ds ih =>
      intro hd
      rw [List.map_cons, List.mem_cons, not_or] at hd
      rw [putInto, if_neg (by simpa using Ne.symm hd.1), ih hd.2, List.cons_append]
  exact hput t.definitions h

/-! ### The dependencies of a table -/

theorem defined_dependencies (t : MacroTable) : t.dependencies.defined = t.names := by
  rw [dependencies, Dependencies.defined, List.map_map]
  rfl

/-- No name is defined twice, and what is not in the table is left out. -/
theorem proper_dependencies (h : t.names.Nodup) : t.dependencies.Proper where
  nodup := by rwa [defined_dependencies]
  closed p hp n hn := by
    obtain ⟨d, -, rfl⟩ := List.mem_map.mp hp
    rw [defined_dependencies]
    simpa using (List.mem_filter.mp hn).2

/-- **What a name depends on within the table.** -/
theorem dependenciesOf_dependencies (t : MacroTable) (n : String) :
    t.dependencies.dependenciesOf n =
      ((t.get? n).map fun d => d.dependsOn.filter t.names.contains).getD [] := by
  have hlookup : ∀ ds : List Definition,
      (ds.map fun d => (d.name, d.dependsOn.filter t.names.contains)).lookup n =
        (ds.find? (·.name == n)).map fun d => d.dependsOn.filter t.names.contains := by
    intro ds
    induction ds with
    | nil => rfl
    | cons d ds ih =>
      by_cases hd : d.name = n
      · simp [hd]
      · simp [List.lookup_cons, beq_false_of_ne hd, beq_false_of_ne (Ne.symm hd), ih]
  rw [Dependencies.dependenciesOf, dependencies, hlookup, get?]

theorem dependsOn_dependencies_iff :
    t.dependencies.DependsOn m n ↔ t.DependsOn m n ∧ n ∈ t.names := by
  rw [Dependencies.DependsOn, dependenciesOf_dependencies, DependsOn]
  cases t.get? m <;> simp

end MacroTable

end LambdaTrace
