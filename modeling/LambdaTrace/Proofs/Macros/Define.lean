import LambdaTrace.Proofs.Macros.Recompile

/-!
# Adding definitions

Adding a definition writes into the table before it is known whether the table can be made
anew. If it cannot, what was there before is brought back, so nothing is left of the attempt
(`LambdaTrace.MacroTable.define_of_error`). The only thing that can stand in the way once the
text has been compiled is a circle, and the only circle there can be goes through the defined
name; so it can be told from the text and the table before whether a definition will be added
(`LambdaTrace.MacroTable.exists_define_iff`).

A definition that is added is compiled twice: once from the given text, in the table as it
was, and once from its printed form, after everything it depends on has been made anew. The
run that is returned is the first one's and the values that are kept are the second one's.
They belong together because nothing that the definition depends on can have changed: it would
have to depend on the definition (`LambdaTrace.MacroTable.Defines.get?_self`).
-/

namespace LambdaTrace

namespace MacroTable

variable {t t' : MacroTable} {source n m : String} {trace : Trace} {u : Term} {e : TableError}

/-! ### Failure -/

theorem budget_compileAll (t : MacroTable) (ds : List Definition) :
    (t.compileAll ds).1.budget = t.budget := by
  induction ds generalizing t with
  | nil => rfl
  | cons d ds ih =>
    rw [compileAll]
    split
    · rfl
    · rename_i trace added hcompile
      obtain ⟨u, -, -, -, rfl⟩ := compile_eq_ok_iff.mp hcompile
      exact ih _

theorem budget_recompile (t : MacroTable) : t.recompile.1.budget = t.budget := by
  rw [recompile]
  split
  · rfl
  · exact budget_compileAll _ _

theorem budget_add (t : MacroTable) (source : String) : (t.add source).1.budget = t.budget := by
  rw [add]
  split
  · rfl
  · split
    · rfl
    · rename_i trace added hcompile
      have hbudget : added.recompile.1.budget = t.budget := by
        obtain ⟨u, -, -, -, rfl⟩ := compile_eq_ok_iff.mp hcompile
        exact budget_recompile _
      split
      · rename_i left e hrec
        rwa [hrec] at hbudget
      · rename_i anew hrec
        rwa [hrec] at hbudget

/-- **A definition that cannot be added leaves the table as it was.** -/
theorem define_of_error (h : t.define source = (t', .error e)) : t' = t := by
  rw [define] at h
  split at h
  · rename_i left e' hadd
    cases h
    have hbudget : left.budget = t.budget := by
      have hbudget := t.budget_add source
      rwa [hadd] at hbudget
    rw [hbudget]
  · cases h

/-! ### Success -/

/-- A definition is added if its text has a header, can be compiled, and the table can be
made anew with it. -/
theorem define_eq_ok_iff : t.define source = (t', .ok (n, trace)) ↔
    ∃ (start : Nat) (added : MacroTable), readHeader source = .ok (n, start) ∧
      t.compile n source start = .ok (trace, added) ∧ added.recompile = (t', none) := by
  constructor
  · intro h
    rw [define] at h
    split at h
    · cases h
    · rename_i anew r hadd
      cases h
      rw [add] at hadd
      split at hadd
      · cases hadd
      · rename_i name start hheader
        split at hadd
        · cases hadd
        · rename_i trace' added hcompile
          split at hadd
          · cases hadd
          · rename_i anew hrec
            cases hadd
            exact ⟨start, added, hheader, hcompile, hrec⟩
  · rintro ⟨start, added, hheader, hcompile, hrec⟩
    simp only [define, add, hheader, hcompile, hrec]

/-- Only a table that can be put in order is made anew. -/
theorem exists_order_of_recompile (h : t.recompile = (t', none)) :
    ∃ l, t.dependencies.order = .ok l := by
  cases horder : t.dependencies.order with
  | ok l => exact ⟨l, rfl⟩
  | error cycle =>
    rw [recompile, dependencyOrder, horder] at h
    cases h

/-- **What an added definition comes to**: its text is read as a closed term, the table is
settled, and it has the source texts from before and the one of the definition. -/
structure Defines (t : MacroTable) (source n : String) (trace : Trace) (t' : MacroTable)
    (u : Term) : Prop where
  read : ∃ start, readHeader source = .ok (n, start) ∧ t.read .normal source start = .ok u
  closed : u.isClosed = true
  trace_eq : trace = (t.appraise n u).1
  settled : t'.Settled
  budget : t'.budget = t.budget
  mem_names : ∀ m, m ∈ t'.names ↔ m ∈ t.names ∨ m = n
  source_of_ne : ∀ m, m ≠ n → t'.source? m = t.source? m
  source_self : t'.source? n = some u.pretty

/-- Compiling a definition leaves a table legible. -/
theorem Legible.put (h : t.Legible) {d : Definition} (hd : IsLegible d)
    (hknown : ∀ n ∈ d.dependsOn, n ∈ t.names) : (t.put d).Legible where
  nodup := nodup_names_put h.nodup
  legible e he := by
    rcases mem_of_mem_put he with rfl | he
    · exact hd
    · exact h.legible e he
  known e he n hn := by
    rw [mem_names_put]
    rcases mem_of_mem_put he with rfl | he
    · exact Or.inl (hknown n hn)
    · exact Or.inl (h.known e he n hn)

/-- What is read with a legible table leaves it legible. -/
theorem Legible.put_appraise (h : t.Legible) {source : String} {start : Nat}
    (hread : t.read .normal source start = .ok u) (hclosed : u.isClosed = true) (n : String) :
    (t.put (t.appraise n u).2).Legible := by
  have hreadable : u.Readable (t.resolve .normal) := Term.readable_of_parseFrom hread
  refine h.put ⟨⟨t.resolve .normal, ?_⟩, by simpa using hclosed⟩ fun m hm => ?_
  · rw [unreduced_appraise]
    exact hreadable
  · rw [Definition.dependsOn, unreduced_appraise] at hm
    exact isSome_resolve_iff.mp (hreadable.known m hm)

theorem defines_of_define (h : t.Legible) (hdef : t.define source = (t', .ok (n, trace))) :
    ∃ u, t.Defines source n trace t' u := by
  obtain ⟨start, added, hheader, hcompile, hrec⟩ := define_eq_ok_iff.mp hdef
  obtain ⟨u, hread, hclosed, htrace, rfl⟩ := compile_eq_ok_iff.mp hcompile
  have hlegible := h.put_appraise hread hclosed n
  obtain ⟨l, horder⟩ := exists_order_of_recompile hrec
  obtain ⟨t'', hrec', hsettled, hbudget, hnames, hsource⟩ := exists_settled_of_order hlegible horder
  obtain rfl : t'' = t' := congrArg Prod.fst (hrec'.symm.trans hrec)
  refine ⟨u, ⟨start, hheader, hread⟩, hclosed, htrace, hsettled, hbudget, fun m => ?_,
    fun m hm => ?_, ?_⟩
  · rw [hnames, hlegible.mem_order horder, mem_names_put, name_appraise]
  · rw [hsource, source?, get?_put, name_appraise, if_neg hm, source?]
  · rw [hsource, source?, get?_put, name_appraise, if_pos rfl, Option.map_some,
      Definition.source, unreduced_appraise]

/-- **A definition that is given to a legible table** is refused and changes nothing, or it
is added. -/
theorem Legible.define_cases (h : t.Legible) (source : String) : (t.define source).1 = t ∨
    ∃ n trace u, t.Defines source n trace (t.define source).1 u := by
  rcases hdef : t.define source with ⟨t', e | ⟨n, trace⟩⟩
  · exact Or.inl (define_of_error hdef)
  · obtain ⟨u, hu⟩ := defines_of_define h hdef
    exact Or.inr ⟨n, trace, u, hu⟩

/-! ### Circles -/

/-- With a definition compiled into the table, its name depends on what it refers to, and
other names depend on what they did. -/
theorem dependsOn_put_iff {a b : String} : (t.put (t.appraise n u).2).DependsOn a b ↔
    a = n ∧ b ∈ u.references ∨ a ≠ n ∧ t.DependsOn a b := by
  rw [DependsOn, DependsOn]
  simp only [get?_put, name_appraise]
  by_cases ha : a = n
  · simp [ha, Definition.dependsOn]
  · simp [ha]

/-- What a name depends on up to the defined one is not changed by the definition. -/
theorem reflTransGen_put_iff : Relation.ReflTransGen (t.put (t.appraise n u).2).DependsOn m n ↔
    Relation.ReflTransGen t.DependsOn m n := by
  constructor
  · intro h
    induction h using Relation.ReflTransGen.head_induction_on with
    | refl => exact .refl
    | @head a b hab _ ih =>
      by_cases ha : a = n
      · exact ha ▸ .refl
      · exact .head ((dependsOn_put_iff.mp hab).resolve_left fun hn => ha hn.1).2 ih
  · intro h
    induction h using Relation.ReflTransGen.head_induction_on with
    | refl => exact .refl
    | @head a b hab _ ih =>
      by_cases ha : a = n
      · exact ha ▸ .refl
      · exact .head (dependsOn_put_iff.mpr (Or.inr ⟨ha, hab⟩)) ih

/-- A chain of dependencies goes through the defined name or was there before. -/
theorem transGen_put {a b : String}
    (h : Relation.TransGen (t.put (t.appraise n u).2).DependsOn a b) :
    Relation.TransGen t.DependsOn a b ∨
      Relation.ReflTransGen (t.put (t.appraise n u).2).DependsOn a n ∧
        Relation.TransGen (t.put (t.appraise n u).2).DependsOn n b := by
  induction h with
  | @single b hab =>
    rcases dependsOn_put_iff.mp hab with ⟨rfl, -⟩ | ⟨-, hab'⟩
    · exact Or.inr ⟨.refl, .single hab⟩
    · exact Or.inl (.single hab')
  | @tail b c hab hbc ih =>
    rcases ih with hab' | ⟨han, hnb⟩
    · rcases dependsOn_put_iff.mp hbc with ⟨rfl, -⟩ | ⟨-, hbc'⟩
      · exact Or.inr ⟨hab.to_reflTransGen, .single hbc⟩
      · exact Or.inl (hab'.tail hbc')
    · exact Or.inr ⟨han, hnb.tail hbc⟩

/-- **A definition closes a circle** if and only if it refers to a name that depends on the
defined one already. -/
theorem acyclic_put_iff (hac : t.Acyclic) : (t.put (t.appraise n u).2).Acyclic ↔
    ∀ m ∈ u.references, ¬Relation.ReflTransGen t.DependsOn m n := by
  constructor
  · intro h m hm hmn
    exact h n (.head' (dependsOn_put_iff.mpr (Or.inl ⟨rfl, hm⟩)) (reflTransGen_put_iff.mpr hmn))
  · intro h
    have hn : ¬Relation.TransGen (t.put (t.appraise n u).2).DependsOn n n := by
      intro hnn
      obtain ⟨m, hnm, hmn⟩ := Relation.TransGen.head'_iff.mp hnn
      have hm := (dependsOn_put_iff.mp hnm).resolve_right fun hne => hne.1 rfl
      exact h m hm.2 (reflTransGen_put_iff.mp hmn)
    intro k hkk
    rcases transGen_put hkk with hkk' | ⟨hkn, hnk⟩
    · exact hac k hkk'
    · exact hn (hnk.trans_left hkn)

/-- **When a definition is added** to a settled table: if and only if its text is a header
followed by a closed term that refers to no name depending on the defined one. -/
theorem exists_define_iff (h : t.Settled) : (∃ t' r, t.define source = (t', .ok r)) ↔
    ∃ n start u, readHeader source = .ok (n, start) ∧ t.read .normal source start = .ok u ∧
      u.isClosed = true ∧ ∀ m ∈ u.references, ¬Relation.ReflTransGen t.DependsOn m n := by
  have hlegible := h.legible
  constructor
  · rintro ⟨t', ⟨n, trace⟩, hdef⟩
    obtain ⟨start, added, hheader, hcompile, hrec⟩ := define_eq_ok_iff.mp hdef
    obtain ⟨u, hread, hclosed, -, rfl⟩ := compile_eq_ok_iff.mp hcompile
    have hput := hlegible.put_appraise hread hclosed n
    have hac := hput.exists_order_iff.mp (exists_order_of_recompile hrec)
    exact ⟨n, start, u, hheader, hread, hclosed, (acyclic_put_iff h.acyclic).mp hac⟩
  · rintro ⟨n, start, u, hheader, hread, hclosed, hrefs⟩
    have hput := hlegible.put_appraise hread hclosed n
    obtain ⟨l, horder⟩ := hput.exists_order_iff.mpr ((acyclic_put_iff h.acyclic).mpr hrefs)
    obtain ⟨t', hrec, -⟩ := exists_settled_of_order hput horder
    have hcompile : t.compile n source start =
        .ok ((t.appraise n u).1, t.put (t.appraise n u).2) :=
      compile_eq_ok_iff.mpr ⟨u, hread, hclosed, rfl, rfl⟩
    exact ⟨t', (n, _), define_eq_ok_iff.mpr ⟨start, _, hheader, hcompile, hrec⟩⟩

namespace Defines

/-- **What does not depend on the definition stays as it was**, whether in the table before
or in the one after. -/
theorem get?_of_not_dependsOn (h : t.Defines source n trace t' u) (ht : t.Settled)
    (hm : ¬Relation.ReflTransGen t.DependsOn m n ∨ ¬Relation.ReflTransGen t'.DependsOn m n) :
    t'.get? m = t.get? m := by
  rcases hm with hm | hm
  · exact ht.get?_eq h.settled h.budget fun k hk =>
      h.source_of_ne k fun hkn => hm (hkn ▸ hk)
  · exact (h.settled.get?_eq ht h.budget.symm fun k hk =>
      (h.source_of_ne k fun hkn => hm (hkn ▸ hk)).symm).symm

/-- **The definition that is kept is the one that was compiled from the given text**, in the
table as it was. -/
theorem get?_self (h : t.Defines source n trace t' u) (ht : t.Settled) :
    t'.get? n = some (t.appraise n u).2 := by
  obtain ⟨start, -, hread⟩ := h.read
  have hreadable : u.Readable (t.resolve .normal) := Term.readable_of_parseFrom hread
  obtain ⟨d, hd, hsource⟩ : ∃ d, t'.get? n = some d ∧ d.source = u.pretty := by
    simpa [source?] using h.source_self
  have hmakes := h.settled.makes d (mem_of_get? hd)
  have hdeps : d.dependsOn = u.references :=
    hmakes.readable.references_eq_of_pretty hreadable hsource
  -- what the definition refers to would otherwise depend on itself
  have hget : ∀ m ∈ u.references, t'.get? m = t.get? m := by
    intro m hm
    refine h.get?_of_not_dependsOn ht (Or.inr fun hmn => h.settled.acyclic n ?_)
    exact .head' ⟨d, hd, hdeps ▸ hm⟩ hmn
  have hmakes' : t'.Makes (t.appraise n u).2 := by
    have hagain := makes_appraise ⟨_, hreadable⟩ h.closed
      (fun m hm => isSome_resolve_iff.mp (hreadable.known m hm)) h.budget hget n
    rwa [hreadable.resolveBy_eq] at hagain
  rw [hd, hmakes.eq hmakes' (by rw [name_of_get? hd, name_appraise])
    (by rw [hsource, Definition.source, unreduced_appraise])]

end Defines

end MacroTable

end LambdaTrace
