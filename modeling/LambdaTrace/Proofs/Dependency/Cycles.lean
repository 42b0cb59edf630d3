import LambdaTrace.Proofs.Dependency.Graph

/-!
# Finding cycles

The walk through the dependents of a name keeps the names it came by on a stack. Each
of them depends on the one below it, so a name that is met again while it is still on
the stack closes a cycle, which is the part of the stack above it
(`LambdaTrace.Dependencies.isCycle_of_walk`). A name that has left the stack is done
with: no chain of dependents that starts at it goes on for ever
(`LambdaTrace.Dependencies.acc_of_walk`).

So the search finds a cycle if and only if there is one
(`LambdaTrace.Dependencies.findCycle_eq_none_iff`).
-/

namespace LambdaTrace

namespace Dependencies

variable {g : Dependencies} {names stack visited todo cycle : List String} {n : String}

/-! ### Cycles -/

/-- **A cycle**: names of which each depends on the one before it, from a name back to
itself and with no other name twice. -/
def IsCycle (g : Dependencies) (cycle : List String) : Prop :=
  ∃ n rest, cycle = n :: (rest ++ [n]) ∧ (n :: rest).Nodup ∧
    cycle.IsChain fun a b => g.DependsOn b a

theorem IsCycle.not_acyclic (h : g.IsCycle cycle) : ¬g.Acyclic := by
  obtain ⟨n, rest, rfl, -, hchain⟩ := h
  intro hg
  have htrans : ∀ (l : List String) (m : String),
      List.IsChain (fun a b => g.DependsOn b a) (m :: (l ++ [n])) →
        Relation.TransGen g.DependsOn n m := by
    intro l
    induction l with
    | nil => exact fun m h => .single (List.isChain_cons_cons.mp h).1
    | cons k l ih =>
      intro m h
      obtain ⟨hkm, hl⟩ := List.isChain_cons_cons.mp h
      exact (ih k hl).tail hkm
  exact hg n (htrans rest n hchain)

/-! ### The stack -/

/-- **A stack** of the walk, its top first: visited names, each a dependent of the one
below it. -/
structure IsStack (g : Dependencies) (stack visited : List String) : Prop where
  chain : stack.IsChain fun a b => g.DependsOn a b
  nodup : stack.Nodup
  visited : ∀ n ∈ stack, n ∈ visited

namespace IsStack

/-- A dependent of the top that is visited for the first time. -/
theorem push (h : g.IsStack stack visited) (hn : ∀ m ∈ stack.head?, g.DependsOn n m)
    (hv : n ∉ visited) : g.IsStack (n :: stack) (n :: visited) where
  chain := List.isChain_cons.mpr ⟨hn, h.chain⟩
  nodup := List.nodup_cons.mpr ⟨fun hs => hv (h.visited n hs), h.nodup⟩
  visited m hm := by
    rcases List.mem_cons.mp hm with rfl | hm
    · exact List.mem_cons_self
    · exact List.mem_cons_of_mem n (h.visited m hm)

/-- **A dependent of the top that is on the stack closes a cycle.** -/
theorem isCycle (h : g.IsStack stack visited) (hn : ∀ m ∈ stack.head?, g.DependsOn n m)
    (hs : n ∈ stack) : g.IsCycle (cycleAt stack n) := by
  obtain ⟨above, below, rfl, habove⟩ := List.eq_append_cons_of_mem hs
  have htake : (above ++ n :: below).takeWhile (· != n) = above := by
    rw [List.takeWhile_append_of_pos (by grind), List.takeWhile_cons_of_neg (by simp),
      List.append_nil]
  have hnodup : (n :: above.reverse).Nodup := by
    rw [List.nodup_cons, List.mem_reverse, List.nodup_reverse]
    exact ⟨habove, (List.nodup_append'.mp h.nodup).1⟩
  refine ⟨n, above.reverse, by rw [cycleAt, htake], hnodup, ?_⟩
  -- read from its end, the cycle is the name followed by the stack down to it
  have hchain : List.IsChain (fun a b => g.DependsOn a b) (n :: (above ++ [n])) := by
    refine List.isChain_cons.mpr ⟨fun m hm => hn m ?_, ?_⟩
    · cases above <;> simpa using hm
    · refine h.chain.prefix ⟨below, by simp⟩
  have hrev : cycleAt (above ++ n :: below) n = (n :: (above ++ [n])).reverse := by
    simp [cycleAt, htake]
  rw [hrev, List.isChain_reverse]
  exact hchain

end IsStack

/-! ### The walk -/

/-- **What the walk reports is a cycle.** -/
theorem isCycle_of_walk (hg : g.Proper) (h : g.IsStack stack visited)
    (htodo : ∀ n ∈ todo, ∀ m ∈ stack.head?, g.DependsOn n m)
    (hw : walk g names stack visited todo = .error cycle) : g.IsCycle cycle := by
  fun_induction walk g names stack visited todo with
  | case1 => cases hw
  | case2 stack visited n todo hv hs =>
    cases hw
    exact h.isCycle (htodo n List.mem_cons_self) hs
  | case3 stack visited n todo hv hs ih =>
    exact ih h (fun m hm => htodo m (List.mem_cons_of_mem n hm)) hw
  | case4 stack visited n todo hv hn c hc ih =>
    cases hw
    refine ih (h.push (htodo n List.mem_cons_self) hv) ?_ hc
    rintro m hm _ ⟨⟩
    exact hg.mem_dependentsOf.mp hm
  | case5 stack visited n todo hv hn visited' h' hok hlt c hc ih₁ ih₂ =>
    cases hw
    refine ih₂ ⟨h.chain, h.nodup, fun m hm => ?_⟩
      (fun m hm => htodo m (List.mem_cons_of_mem n hm)) hc
    exact h' m (List.mem_cons_of_mem n (h.visited m hm))
  | case6 => cases hw
  | case7 stack visited n todo hv hn ih =>
    exact ih h (fun m hm => htodo m (List.mem_cons_of_mem n hm)) hw

/-- **A name that the walk has left is done with**: it has no infinite chain of
dependents. -/
theorem acc_of_walk {R : String → String → Prop} (hR : ∀ m n, R m n → m ∈ g.dependentsOf n)
    (hnames : ∀ n, ∀ m ∈ g.dependentsOf n, m ∈ names)
    (hdone : ∀ m ∈ visited, m ∉ stack → Acc R m) {r}
    (hw : walk g names stack visited todo = .ok r) :
    (∀ m ∈ r.1, m ∉ stack → Acc R m) ∧ ∀ n ∈ todo, n ∈ names → Acc R n := by
  fun_induction walk g names stack visited todo with
  | case1 =>
    cases hw
    exact ⟨hdone, by simp⟩
  | case2 => cases hw
  | case3 stack visited n todo hv hs ih =>
    obtain ⟨hall, htodo⟩ := ih hdone hw
    refine ⟨hall, fun m hm hmn => ?_⟩
    rcases List.mem_cons.mp hm with rfl | hm
    · exact hdone m hv hs
    · exact htodo m hm hmn
  | case4 => cases hw
  | case5 => cases hw
  | case6 stack visited n todo hv hn visited' h' hok hlt all hall hok' ih₁ ih₂ =>
    cases hw
    have hdone₁ : ∀ m ∈ n :: visited, m ∉ n :: stack → Acc R m := by
      intro m hm hs
      rw [List.mem_cons, not_or] at hs
      exact hdone m ((List.mem_cons.mp hm).resolve_left hs.1) hs.2
    obtain ⟨hleft, hdeps⟩ := ih₁ hdone₁ hok
    -- the name itself leaves the stack once all its dependents have
    have hacc : Acc R n := .intro n fun m hm => hdeps m (hR m n hm) (hnames n m (hR m n hm))
    have hdone₂ : ∀ m ∈ visited', m ∉ stack → Acc R m := by
      intro m hm hs
      by_cases hmn : m = n
      · exact hmn ▸ hacc
      · exact hleft m hm (by simp [hmn, hs])
    obtain ⟨hfin, htodo⟩ := ih₂ hdone₂ hok'
    refine ⟨hfin, fun m hm hmn => ?_⟩
    rcases List.mem_cons.mp hm with rfl | hm
    · exact hacc
    · exact htodo m hm hmn
  | case7 stack visited n todo hv hn ih =>
    obtain ⟨hall, htodo⟩ := ih hdone hw
    refine ⟨hall, fun m hm hmn => ?_⟩
    rcases List.mem_cons.mp hm with rfl | hm
    · exact absurd hmn hn
    · exact htodo m hm hmn

/-! ### The search -/

theorem isCycle_of_findCycle (hg : g.Proper) (h : g.findCycle = some cycle) : g.IsCycle cycle := by
  rw [findCycle] at h
  split at h
  · rename_i c hw
    cases h
    exact isCycle_of_walk hg ⟨.nil, .nil, by simp⟩ (by simp) hw
  · cases h

/-- **A cycle is found if and only if there is one.** -/
theorem findCycle_eq_none_iff (hg : g.Proper) : g.findCycle = none ↔ g.Acyclic := by
  constructor
  · intro h n hn
    rw [findCycle] at h
    split at h
    · cases h
    rename_i r hw
    have hwalk := acc_of_walk (R := g.DependsOn) (fun _ _ => hg.mem_dependentsOf.mpr)
      (fun n m hm => hg.mem_names.mpr (Proper.mem_defined_left (hg.mem_dependentsOf.mp hm)))
      (by simp) hw
    obtain ⟨k, hnk, -⟩ := Relation.TransGen.head'_iff.mp hn
    have hname : n ∈ g.names := hg.mem_names.mpr (Proper.mem_defined_left hnk)
    have hacc : Acc (Relation.TransGen g.DependsOn) n := (hwalk.2 n hname hname).transGen
    -- an accessible name is below no name that is below it
    clear hwalk hname hnk
    induction hacc with
    | intro m _ ih => exact ih m hn hn
  · intro h
    rw [Option.eq_none_iff_forall_ne_some]
    exact fun c hc => (isCycle_of_findCycle hg hc).not_acyclic h

end Dependencies

end LambdaTrace
