import LambdaTrace.Proofs.Dependency.Cycles

/-!
# The order of dependency

A name is put into the queue when the last of the names it depends on has left it, so
at any time the names that have been in the queue are the ones that depend on nothing
but what has left it (`LambdaTrace.Dependencies.Progress`). Taking a name off the
queue keeps that, and what has been in the queue stays where it is; so the order that
comes out is sorted (`LambdaTrace.Dependencies.sorted_order`). If there is no cycle it
also has all names, since of the names that are left out one would depend on no other
(`LambdaTrace.Dependencies.mem_order`).

**The order is its own order.** If the names had been defined in the order that comes
out, the same order would come out again (`LambdaTrace.Dependencies.order_eq_of_defined`).
The two walks are in the same state all along: the names that one name lets into the
queue stand side by side in the order that comes out, just as they were let in.
-/

namespace LambdaTrace

namespace Dependencies

variable {g : Dependencies} {names done queue : List String} {m n : String}

/-! ### What has been in the queue -/

/-- The dependents of a name that have nothing left to wait for, once certain names are
done. -/
def freed (g : Dependencies) (done : List String) (n : String) : List String :=
  (g.dependentsOf n).filter fun m => (g.dependenciesOf m).all done.contains

theorem Proper.mem_freed (hg : g.Proper) :
    m ∈ g.freed done n ↔ g.DependsOn m n ∧ ∀ k, g.DependsOn m k → k ∈ done := by
  simp [freed, hg.mem_dependentsOf, DependsOn]

/-- **The state of the queue**: no name twice, and as many names as depend on nothing
but what is done. -/
structure Progress (g : Dependencies) (done queue : List String) : Prop where
  nodup : (done ++ queue).Nodup
  mem_iff : ∀ m, m ∈ done ++ queue ↔ m ∈ g.defined ∧ ∀ k, g.DependsOn m k → k ∈ done
  sorted : g.Sorted done

namespace Progress

theorem start (hnames : names.Nodup) (hmem : ∀ m, m ∈ names ↔ m ∈ g.defined) :
    g.Progress [] (names.filter fun n => (g.dependenciesOf n).isEmpty) where
  nodup := by simpa using hnames.filter _
  mem_iff m := by
    simp [hmem, DependsOn, List.isEmpty_iff, List.eq_nil_iff_forall_not_mem]
  sorted := sorted_nil g

/-- The name in front is not done. -/
theorem head_notMem (h : g.Progress done (n :: queue)) : n ∉ done := by
  intro hmem
  exact (List.nodup_append'.mp h.nodup).2.2 hmem List.mem_cons_self

theorem head_mem_defined (h : g.Progress done (n :: queue)) : n ∈ g.defined :=
  ((h.mem_iff n).mp (by simp)).1

theorem dependsOn_head (h : g.Progress done (n :: queue)) {k : String} (hk : g.DependsOn n k) :
    k ∈ done :=
  ((h.mem_iff n).mp (by simp)).2 k hk

/-- **Taking a name off the queue** and letting in the ones it frees. -/
theorem step (hg : g.Proper) (h : g.Progress done (n :: queue)) :
    g.Progress (done ++ [n]) (queue ++ g.freed (done ++ [n]) n) := by
  -- a name that waited for this one was not in the queue
  have hnew : ∀ m, g.DependsOn m n → m ∉ done ++ n :: queue :=
    fun m hmn hm => h.head_notMem (((h.mem_iff m).mp hm).2 n hmn)
  have hsplit : (done ++ [n]) ++ (queue ++ g.freed (done ++ [n]) n) =
      (done ++ n :: queue) ++ g.freed (done ++ [n]) n := by simp
  refine ⟨?_, fun m => ?_, sorted_append_singleton.mpr ⟨h.sorted, fun k => h.dependsOn_head⟩⟩
  · rw [hsplit, List.nodup_append']
    refine ⟨h.nodup, ?_, fun m hm hfreed => hnew m (hg.mem_freed.mp hfreed).1 hm⟩
    rw [freed, hg.dependentsOf_eq]
    exact (hg.nodup.filter _).filter _
  · rw [hsplit, List.mem_append, hg.mem_freed, h.mem_iff]
    constructor
    · rintro (⟨hm, hdone⟩ | ⟨hmn, hdone⟩)
      · exact ⟨hm, fun k hk => List.mem_append_left _ (hdone k hk)⟩
      · exact ⟨Proper.mem_defined_left hmn, hdone⟩
    · rintro ⟨hm, hdone⟩
      by_cases hmn : g.DependsOn m n
      · exact Or.inr ⟨hmn, hdone⟩
      · refine Or.inl ⟨hm, fun k hk => ?_⟩
        have hkn : k ≠ n := fun heq => hmn (heq ▸ hk)
        simpa [hkn] using hdone k hk

end Progress

/-! ### Emptying the queue -/

/-- A name in the queue is taken off. -/
theorem drain_cons (hnames : ∀ m ∈ g.defined, m ∈ names) (h : g.Progress done (n :: queue)) :
    drain g names done (n :: queue) =
      drain g names (done ++ [n]) (queue ++ g.freed (done ++ [n]) n) := by
  rw [drain, dif_pos ⟨hnames n h.head_mem_defined, h.head_notMem⟩]
  rfl

/-- **Emptying the queue** adds to what is done or queued, and leaves no name behind
that depends on nothing else. -/
theorem drain_spec (hg : g.Proper) (hnames : ∀ m ∈ g.defined, m ∈ names)
    (h : g.Progress done queue) :
    g.Progress (drain g names done queue) [] ∧
      ∃ rest, drain g names done queue = done ++ queue ++ rest := by
  induction done, queue using drain.induct g names with
  | case1 done =>
    rw [drain]
    exact ⟨h, [], by simp⟩
  | case2 done n queue hn ready ih =>
    rw [drain_cons hnames h]
    obtain ⟨hfin, rest, hrest⟩ := ih (h.step hg)
    refine ⟨hfin, g.freed (done ++ [n]) n ++ rest, hrest.trans ?_⟩
    simp [ready, freed]
  | case3 done n queue hn ih =>
    exact absurd ⟨hnames n h.head_mem_defined, h.head_notMem⟩ hn

/-- If the names had been defined in the order that comes out, each name would let the
same names into the queue, in the same order. -/
theorem freed_eq_of_defined {g' : Dependencies} (hg : g.Proper) (hg' : g'.Proper)
    (hdeps : ∀ m, g'.dependenciesOf m = g.dependenciesOf m) {rest : List String}
    (h : g.Progress done (n :: queue))
    (hdef : g'.defined = done ++ [n] ++ (queue ++ g.freed (done ++ [n]) n) ++ rest) :
    g'.freed (done ++ [n]) n = g.freed (done ++ [n]) n := by
  have hrest : ∀ m ∈ rest, m ∉ done ++ [n] ++ (queue ++ g.freed (done ++ [n]) n) := by
    intro m hm hmem
    have hnodup := hg'.nodup
    rw [hdef, List.nodup_append'] at hnodup
    exact hnodup.2.2 hmem hm
  -- of all names, just the ones that are let in now wait for this name last
  let pred := fun m =>
    (g.dependenciesOf m).contains n && (g.dependenciesOf m).all (done ++ [n]).contains
  have hpred : ∀ m, pred m = true ↔
      g.DependsOn m n ∧ ∀ k, g.DependsOn m k → k ∈ done ++ [n] := by
    simp [pred, DependsOn]
  have hbefore : (done ++ n :: queue).filter pred = [] :=
    List.filter_eq_nil_iff.mpr fun m hm hcond =>
      h.head_notMem (((h.mem_iff m).mp hm).2 n ((hpred m).mp hcond).1)
  have hnow : (g.freed (done ++ [n]) n).filter pred = g.freed (done ++ [n]) n :=
    List.filter_eq_self.mpr fun m hm => (hpred m).mpr (hg.mem_freed.mp hm)
  have hlater : rest.filter pred = [] := by
    refine List.filter_eq_nil_iff.mpr fun m hm hcond => hrest m hm ?_
    obtain ⟨hmn, hdone⟩ := (hpred m).mp hcond
    exact ((h.step hg).mem_iff m).mpr ⟨Proper.mem_defined_left hmn, hdone⟩
  calc g'.freed (done ++ [n]) n
      = g'.defined.filter pred := by
        rw [freed, hg'.dependentsOf_eq, List.filter_filter]
        simp only [hdeps, Bool.and_comm, pred]
    _ = ((done ++ n :: queue) ++ (g.freed (done ++ [n]) n ++ rest)).filter pred := by
        simp [hdef]
    _ = g.freed (done ++ [n]) n := by
        rw [List.filter_append (done ++ n :: queue), List.filter_append _ rest, hbefore, hnow,
          hlater, List.nil_append, List.append_nil]

/-- **Emptying the queue again**, of the same dependencies in the order that came out. -/
theorem drain_eq_of_defined {g' : Dependencies} (hg : g.Proper) (hg' : g'.Proper)
    (hdeps : ∀ m, g'.dependenciesOf m = g.dependenciesOf m) {names' : List String}
    (hnames : ∀ m ∈ g.defined, m ∈ names) (hnames' : ∀ m ∈ g.defined, m ∈ names')
    (h : g.Progress done queue) (hdef : g'.defined = drain g names done queue) :
    drain g' names' done queue = drain g names done queue := by
  induction done, queue using drain.induct g names with
  | case1 done => rw [drain, drain]
  | case2 done n queue hn ready ih =>
    obtain ⟨-, rest, hrest⟩ := drain_spec hg hnames (h.step hg)
    rw [drain_cons hnames h] at hdef ⊢
    have hguard : n ∈ names' ∧ n ∉ done := ⟨hnames' n h.head_mem_defined, hn.2⟩
    have hfreed := freed_eq_of_defined hg hg' hdeps h (hdef.trans hrest)
    calc drain g' names' done (n :: queue)
        = drain g' names' (done ++ [n]) (queue ++ g'.freed (done ++ [n]) n) := by
          rw [drain, dif_pos hguard]
          rfl
      _ = drain g' names' (done ++ [n]) (queue ++ g.freed (done ++ [n]) n) := by rw [hfreed]
      _ = drain g names (done ++ [n]) (queue ++ g.freed (done ++ [n]) n) :=
          ih (h.step hg) hdef
  | case3 done n queue hn ih =>
    exact absurd ⟨hnames n h.head_mem_defined, h.head_notMem⟩ hn

/-! ### The order -/

/-- If no name depends on itself, all names are done in the end. -/
theorem mem_of_progress (hg : g.Proper) (hac : g.Acyclic) (h : g.Progress done []) :
    m ∈ done ↔ m ∈ g.defined := by
  have hiff : ∀ m, m ∈ done ↔ m ∈ g.defined ∧ ∀ k, g.DependsOn m k → k ∈ done := by
    simpa using h.mem_iff
  refine ⟨fun hm => ((hiff m).mp hm).1, fun hm => ?_⟩
  -- among finitely many names, dependency without a cycle is well-founded
  have : IsStrictOrder String fun k m => Relation.TransGen g.DependsOn m k :=
    { irrefl := hac, trans := fun _ _ _ hkm hmn => hmn.trans hkm }
  have hwf := (List.finite_toSet g.defined).wellFoundedOn
    (r := fun k m => Relation.TransGen g.DependsOn m k)
  refine hwf.induction (P := (· ∈ done)) hm fun m hm ih => (hiff m).mpr ⟨hm, fun k hk => ?_⟩
  exact ih k (hg.mem_defined_right hk) (.single hk)

/-- The queue at the start, when nothing is done. -/
theorem progress_start (hg : g.Proper) :
    g.Progress [] (g.names.filter fun n => (g.dependenciesOf n).isEmpty) :=
  .start g.nodup_names fun _ => hg.mem_names

/-- **There is an order unless there is a cycle**, and it is what comes out of the queue. -/
theorem order_eq_ok_iff (hg : g.Proper) {l : List String} : g.order = .ok l ↔
    g.Acyclic ∧
      l = g.drain g.names [] (g.names.filter fun n => (g.dependenciesOf n).isEmpty) := by
  rw [← findCycle_eq_none_iff hg, order]
  cases g.findCycle <;> simp [eq_comm]

/-- **A cycle is reported** if one is found. -/
theorem order_eq_error_iff {cycle : List String} :
    g.order = .error cycle ↔ g.findCycle = some cycle := by
  rw [order]
  cases g.findCycle <;> simp

section Order

variable {l : List String} (hg : g.Proper) (h : g.order = .ok l)
include hg h

theorem progress_order : g.Progress l [] := by
  obtain ⟨-, rfl⟩ := (order_eq_ok_iff hg).mp h
  exact (drain_spec hg (fun m hm => hg.mem_names.mpr hm) (progress_start hg)).1

/-- **The order has all names**, each once. -/
theorem mem_order : m ∈ l ↔ m ∈ g.defined :=
  mem_of_progress hg ((order_eq_ok_iff hg).mp h).1 (progress_order hg h)

theorem nodup_order : l.Nodup := by
  simpa using (progress_order hg h).nodup

/-- **In the order each name stands after everything it depends on.** -/
theorem sorted_order : g.Sorted l :=
  (progress_order hg h).sorted

/-- **The order is its own order.** -/
theorem order_eq_of_defined {g' : Dependencies} (hg' : g'.Proper)
    (hdeps : ∀ m, g'.dependenciesOf m = g.dependenciesOf m) (hdef : g'.defined = l) :
    g'.order = .ok l := by
  have hsame : g'.DependsOn = g.DependsOn := by
    funext m n
    rw [DependsOn, DependsOn, hdeps]
  have hsorted : g'.Sorted g'.defined := by
    rw [hdef, Sorted, hsame]
    exact sorted_order hg h
  have hmem : ∀ m, m ∈ l ↔ m ∈ g.defined := fun m => mem_order hg h
  obtain ⟨hac, hl⟩ := (order_eq_ok_iff hg).mp h
  -- the first names of the order are the ones that depend on nothing
  have hstart : (l.filter fun n => (g.dependenciesOf n).isEmpty) =
      g.names.filter fun n => (g.dependenciesOf n).isEmpty := by
    obtain ⟨-, rest, hrest⟩ := drain_spec hg (fun m hm => hg.mem_names.mpr hm) (progress_start hg)
    rw [List.nil_append, ← hl] at hrest
    have hrest' : rest.filter (fun n => (g.dependenciesOf n).isEmpty) = [] := by
      refine List.filter_eq_nil_iff.mpr fun m hm hempty => ?_
      have hmem : m ∈ g.names := hg.mem_names.mpr ((hmem m).mp (by simp [hrest, hm]))
      have hnodup := nodup_order hg h
      rw [hrest, List.nodup_append'] at hnodup
      exact hnodup.2.2 (List.mem_filter.mpr ⟨hmem, hempty⟩) hm
    rw [hrest, List.filter_append, hrest', List.filter_filter, List.append_nil]
    simp only [Bool.and_self]
  refine (order_eq_ok_iff hg').mpr ⟨hsorted.acyclic fun _ => id, ?_⟩
  rw [hsorted.names_eq hg', hdef]
  simp only [hdeps]
  rw [hstart, drain_eq_of_defined hg hg' hdeps (fun m hm => hg.mem_names.mpr hm)
    (fun m hm => (hmem m).mpr hm) (progress_start hg) (hdef.trans hl)]
  exact hl

end Order

end Dependencies

end LambdaTrace
