/-!
# Names still to be visited

A walk that visits no name twice ends: what grows smaller is the number of names
that it has not visited yet. The walks through the definitions of a table and
through the files that import each other both end by this measure.
-/

namespace LambdaTrace

/-- The number of names that are not among the visited ones. -/
def unvisited (names visited : List String) : Nat :=
  names.countP fun n => decide (n ∉ visited)

theorem unvisited_cons (m : String) (names visited : List String) :
    unvisited (m :: names) visited =
      unvisited names visited + if m ∈ visited then 0 else 1 := by
  by_cases h : m ∈ visited <;> simp [unvisited, h]

/-- Visiting more leaves no more names unvisited. -/
theorem unvisited_le {seen seen' : List String} (hsub : ∀ m ∈ seen, m ∈ seen')
    (names : List String) : unvisited names seen' ≤ unvisited names seen := by
  induction names with
  | nil => exact Nat.le_refl _
  | cons m names ih =>
    rw [unvisited_cons, unvisited_cons]
    by_cases hs : m ∈ seen
    · rw [if_pos hs, if_pos (hsub m hs)]
      exact ih
    · rw [if_neg hs]
      split <;> omega

/-- Visiting one more name leaves fewer unvisited. -/
theorem unvisited_lt {names seen seen' : List String} {n : String}
    (hsub : ∀ m ∈ seen, m ∈ seen') (hmem : n ∈ names) (hn : n ∉ seen) (hn' : n ∈ seen') :
    unvisited names seen' < unvisited names seen := by
  induction names with
  | nil => exact absurd hmem (by simp)
  | cons m names ih =>
    rw [unvisited_cons, unvisited_cons]
    by_cases hm : n = m
    · subst hm
      have hle := unvisited_le hsub names
      rw [if_pos hn', if_neg hn]
      omega
    · have hlt := ih ((List.mem_cons.mp hmem).resolve_left hm)
      by_cases hs : m ∈ seen
      · rw [if_pos hs, if_pos (hsub m hs)]
        exact hlt
      · rw [if_neg hs]
        split <;> omega

end LambdaTrace
