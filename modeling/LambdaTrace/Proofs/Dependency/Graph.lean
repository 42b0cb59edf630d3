import LambdaTrace.Macros.Order
import Mathlib

/-!
# Graphs of dependency

A graph of dependency lists names with what they depend on. In the graphs that come
from a table no name is defined twice, and nothing depends on a name that is not
defined (`LambdaTrace.Dependencies.Proper`); then looking from a name to its
dependents is looking back along the same relation
(`LambdaTrace.Dependencies.mem_dependentsOf`), and the names that are mentioned are
the defined ones.

A list of names is *sorted* if each of them stands after everything it depends on
(`LambdaTrace.Dependencies.Sorted`). If the names are defined in such an order, they
are mentioned in that order too, and there is no cycle
(`LambdaTrace.Dependencies.Sorted.acyclic`).
-/

namespace LambdaTrace

namespace Dependencies

variable {g : Dependencies} {l : List String} {m n : String}

/-! ### Proper graphs -/

/-- The names that are defined. -/
def defined (g : Dependencies) : List String :=
  g.map (·.1)

/-- **Direct dependency** of a name on another. -/
def DependsOn (g : Dependencies) (m n : String) : Prop :=
  n ∈ g.dependenciesOf m

/-- No name depends on itself, directly or through others. -/
def Acyclic (g : Dependencies) : Prop :=
  ∀ n, ¬Relation.TransGen g.DependsOn n n

/-- **A proper graph** defines no name twice, and all names that anything depends on. -/
structure Proper (g : Dependencies) : Prop where
  nodup : g.defined.Nodup
  closed : ∀ p ∈ g, ∀ n ∈ p.2, n ∈ g.defined

theorem dependenciesOf_of_mem (h : g.defined.Nodup) {deps : List String} (hm : (m, deps) ∈ g) :
    g.dependenciesOf m = deps := by
  induction g with
  | nil => cases hm
  | cons p g ih =>
    obtain ⟨hp, hg⟩ := List.nodup_cons.mp h
    rcases List.mem_cons.mp hm with rfl | hm
    · simp [dependenciesOf]
    · have hne : m ≠ p.1 := by
        intro heq
        exact hp (List.mem_map.mpr ⟨(m, deps), hm, heq⟩)
      rw [dependenciesOf, List.lookup_cons, beq_false_of_ne hne]
      exact ih hg hm

theorem mem_of_mem_dependenciesOf (h : n ∈ g.dependenciesOf m) :
    ∃ deps, (m, deps) ∈ g ∧ n ∈ deps := by
  induction g with
  | nil => cases h
  | cons p g ih =>
    rw [dependenciesOf, List.lookup_cons] at h
    by_cases hm : m = p.1
    · rw [beq_iff_eq.mpr hm] at h
      exact ⟨p.2, hm ▸ List.mem_cons_self, h⟩
    · rw [beq_false_of_ne hm] at h
      obtain ⟨deps, hmem, hn⟩ := ih h
      exact ⟨deps, List.mem_cons_of_mem p hmem, hn⟩

namespace Proper

/-- **The dependents** of a name, in the order of definition. -/
theorem dependentsOf_eq (hg : g.Proper) (n : String) :
    g.dependentsOf n = g.defined.filter fun m => (g.dependenciesOf m).contains n := by
  rw [dependentsOf, defined, List.filter_map]
  congr 1
  refine List.filter_congr fun p hp => ?_
  rw [Function.comp_apply, dependenciesOf_of_mem hg.nodup hp]

theorem mem_dependentsOf (hg : g.Proper) : m ∈ g.dependentsOf n ↔ g.DependsOn m n := by
  rw [hg.dependentsOf_eq, List.mem_filter, List.contains_iff_mem, DependsOn]
  refine and_iff_right_of_imp fun h => ?_
  obtain ⟨deps, hmem, -⟩ := mem_of_mem_dependenciesOf h
  exact List.mem_map_of_mem hmem

theorem mem_defined_left (h : g.DependsOn m n) : m ∈ g.defined := by
  obtain ⟨deps, hmem, -⟩ := mem_of_mem_dependenciesOf h
  exact List.mem_map_of_mem hmem

theorem mem_defined_right (hg : g.Proper) (h : g.DependsOn m n) : n ∈ g.defined := by
  obtain ⟨deps, hmem, hn⟩ := mem_of_mem_dependenciesOf h
  exact hg.closed _ hmem n hn

end Proper

/-! ### Mentioned names -/

theorem mem_mention {seen : List String} : n ∈ mention seen m ↔ n ∈ seen ∨ n = m := by
  rw [mention]
  split
  · rename_i h
    rw [List.contains_iff_mem] at h
    exact ⟨Or.inl, fun hn => hn.elim id fun hnm => hnm ▸ h⟩
  · rw [List.mem_append, List.mem_singleton]

theorem nodup_mention {seen : List String} (h : seen.Nodup) : (mention seen m).Nodup := by
  rw [mention]
  split
  · exact h
  · rename_i hm
    rw [List.contains_iff_mem] at hm
    exact List.nodup_append'.mpr ⟨h, List.nodup_singleton m, by simpa using hm⟩

theorem mem_foldl_mention {seen : List String} :
    n ∈ l.foldl mention seen ↔ n ∈ seen ∨ n ∈ l := by
  induction l generalizing seen with
  | nil => simp
  | cons m l ih => rw [List.foldl_cons, ih, mem_mention, List.mem_cons, or_assoc]

theorem nodup_foldl_mention {seen : List String} (h : seen.Nodup) :
    (l.foldl mention seen).Nodup := by
  induction l generalizing seen with
  | nil => exact h
  | cons m l ih => exact ih (nodup_mention h)

/-- What has been mentioned is not mentioned again. -/
theorem foldl_mention_of_subset {seen : List String} (h : ∀ n ∈ l, n ∈ seen) :
    l.foldl mention seen = seen := by
  induction l with
  | nil => rfl
  | cons m l ih =>
    have hm : mention seen m = seen := if_pos (List.contains_iff_mem.mpr (h m List.mem_cons_self))
    rw [List.foldl_cons, hm, ih fun n hn => h n (List.mem_cons_of_mem m hn)]

theorem mem_names : n ∈ g.names ↔ n ∈ g.defined ∨ ∃ p ∈ g, n ∈ p.2 := by
  have h : ∀ (g : Dependencies) (seen : List String),
      n ∈ g.foldl (fun seen p => (p.1 :: p.2).foldl mention seen) seen ↔
        n ∈ seen ∨ n ∈ g.defined ∨ ∃ p ∈ g, n ∈ p.2 := by
    intro g
    induction g with
    | nil => simp [defined]
    | cons p g ih =>
      intro seen
      rw [List.foldl_cons, ih, mem_foldl_mention]
      simp only [defined, List.map_cons, List.mem_cons, exists_eq_or_imp]
      tauto
  exact (h g []).trans (by simp)

theorem names_append_singleton (g : Dependencies) (p : String × List String) :
    names (g ++ [p]) = (p.1 :: p.2).foldl mention g.names :=
  List.foldl_append

theorem nodup_names (g : Dependencies) : g.names.Nodup := by
  induction g using List.reverseRecOn with
  | nil => exact List.nodup_nil
  | append_singleton g p ih =>
    rw [names_append_singleton]
    exact nodup_foldl_mention ih

/-- The names that are mentioned are the defined ones. -/
theorem Proper.mem_names (hg : g.Proper) : n ∈ g.names ↔ n ∈ g.defined := by
  rw [Dependencies.mem_names]
  refine or_iff_left_of_imp ?_
  rintro ⟨p, hp, hn⟩
  exact hg.closed p hp n hn

/-! ### Sorted names -/

/-- **Each name stands after everything it depends on.** -/
def Sorted (g : Dependencies) (l : List String) : Prop :=
  ∀ pre m post, l = pre ++ m :: post → ∀ n, g.DependsOn m n → n ∈ pre

theorem sorted_nil (g : Dependencies) : g.Sorted [] := by
  intro pre m post h
  simp at h

theorem sorted_append_singleton :
    g.Sorted (l ++ [m]) ↔ g.Sorted l ∧ ∀ n, g.DependsOn m n → n ∈ l := by
  constructor
  · intro h
    refine ⟨fun pre k post hl => h pre k (post ++ [m]) (by simp [hl]), h l m [] rfl⟩
  · rintro ⟨hl, hm⟩ pre k post heq
    rcases List.eq_nil_or_concat post with rfl | ⟨post, z, rfl⟩
    · obtain ⟨rfl, hk⟩ := List.append_inj' heq rfl
      obtain ⟨rfl, -⟩ := List.cons.inj hk
      exact hm
    · have heq' : l ++ [m] = (pre ++ k :: post) ++ [z] := by simpa using heq
      exact hl pre k post (List.append_inj' heq' rfl).1

namespace Sorted

theorem mem_of_dependsOn (h : g.Sorted l) (hm : m ∈ l) (hmn : g.DependsOn m n) : n ∈ l := by
  obtain ⟨pre, post, rfl⟩ := List.append_of_mem hm
  exact List.mem_append_left _ (h pre m post rfl n hmn)

/-- Along a dependency the place in the list decreases. -/
theorem idxOf_lt (h : g.Sorted l) (hm : m ∈ l) (hmn : g.DependsOn m n) :
    l.idxOf n < l.idxOf m := by
  obtain ⟨pre, post, rfl, hpre⟩ := List.eq_append_cons_of_mem hm
  have hn : n ∈ pre := h pre m post rfl n hmn
  rw [List.idxOf_append_of_mem hn, List.idxOf_append_of_notMem hpre, List.idxOf_cons_self]
  exact List.idxOf_lt_length_of_mem hn

theorem idxOf_lt_of_transGen (h : g.Sorted l) (hm : m ∈ l)
    (hmn : Relation.TransGen g.DependsOn m n) : n ∈ l ∧ l.idxOf n < l.idxOf m := by
  induction hmn with
  | single hmn => exact ⟨h.mem_of_dependsOn hm hmn, h.idxOf_lt hm hmn⟩
  | tail _ hkn ih => exact ⟨h.mem_of_dependsOn ih.1 hkn, (h.idxOf_lt ih.1 hkn).trans ih.2⟩

/-- **Sorted names have no cycle.** -/
theorem acyclic (h : g.Sorted l) (hl : ∀ m ∈ g.defined, m ∈ l) : g.Acyclic := by
  intro n hn
  have hdef : n ∈ g.defined := by
    obtain ⟨k, hk, -⟩ := Relation.TransGen.head'_iff.mp hn
    exact Proper.mem_defined_left hk
  exact lt_irrefl _ (h.idxOf_lt_of_transGen (hl n hdef) hn).2

/-- Names that are defined in a sorted order are mentioned in that order. -/
theorem names_eq (hg : g.Proper) (h : g.Sorted g.defined) : g.names = g.defined := by
  -- on the definitions from the back: what the last one depends on is mentioned before it
  have hpre : ∀ (pre post : Dependencies), g = pre ++ post → names pre = defined pre := by
    intro pre
    induction pre using List.reverseRecOn with
    | nil => exact fun _ _ => rfl
    | append_singleton pre p ih =>
      intro post hg'
      have hsplit : g.defined = defined pre ++ p.1 :: defined post := by
        simp [hg', defined]
      have hp : p.1 ∉ defined pre := by
        intro hmem
        have hnodup := hg.nodup
        rw [hsplit, List.nodup_append'] at hnodup
        exact hnodup.2.2 hmem List.mem_cons_self
      have hmention : mention (defined pre) p.1 = defined pre ++ [p.1] :=
        if_neg (by simpa using hp)
      have hdeps : ∀ n ∈ p.2, n ∈ defined pre ++ [p.1] := by
        intro n hn
        have hmem : (p.1, p.2) ∈ g := by simp [hg']
        refine List.mem_append_left _ (h _ _ _ hsplit n ?_)
        rw [DependsOn, dependenciesOf_of_mem hg.nodup hmem]
        exact hn
      rw [names_append_singleton, ih (p :: post) (by simp [hg']), List.foldl_cons, hmention,
        foldl_mention_of_subset hdeps]
      simp [defined]
  exact hpre g [] (by simp)

end Sorted

end Dependencies

end LambdaTrace
