import LambdaTrace.Unvisited

/-!
# Order of dependency

The definitions of a table depend on each other by name. They are put into an
order in which each stands after everything it depends on, or a cycle is found.

The names are numbered in the order in which they are first mentioned. A cycle is
searched for depth first, from each name in turn through its *dependents*, the
definitions that mention it. If there is none, the names that depend on nothing
are queued, and whenever a name leaves the queue, those of its dependents whose
last dependency it was are queued behind the rest. So ties go by who became ready
first (`LambdaTrace.Dependencies.order`).

Both walks end because no name is visited twice. A visit adds as many names to those
that are looked at next as there are definitions, at most; so the measure is the
number of names still unvisited (`LambdaTrace.unvisited`), times one more than that,
and the number of names to look at (`LambdaTrace.Dependencies.remaining`).
-/

namespace LambdaTrace

/-- Each name with the names it depends on, in the order of definition. -/
abbrev Dependencies := List (String × List String)

namespace Dependencies

/-! ### Names and their dependents -/

/-- A name at the end of a list, unless it is there already. -/
def mention (seen : List String) (n : String) : List String :=
  if seen.contains n then seen else seen ++ [n]

/-- All names in the order in which they are first mentioned. -/
def names (g : Dependencies) : List String :=
  g.foldl (fun seen (n, deps) => (n :: deps).foldl mention seen) []

/-- What a name depends on. -/
def dependenciesOf (g : Dependencies) (n : String) : List String :=
  (g.lookup n).getD []

/-- The names that depend on a name, in the order of definition. -/
def dependentsOf (g : Dependencies) (n : String) : List String :=
  (g.filter (·.2.contains n)).map (·.1)

/-! ### The measure of a walk -/

/-- The steps that a walk past the visited names can still take, with these to look
at first. -/
def remaining (g : Dependencies) (names visited todo : List String) : Nat :=
  unvisited names visited * (g.length + 1) + todo.length

theorem length_dependentsOf_le (g : Dependencies) (n : String) :
    (g.dependentsOf n).length ≤ g.length := by
  rw [dependentsOf, List.length_map]
  exact List.length_filter_le _ g

/-- A visit is worth the names it adds. -/
theorem remaining_lt (g : Dependencies) {names visited visited' todo todo' : List String}
    (hvisit : unvisited names visited' < unvisited names visited)
    (htodo : todo'.length ≤ todo.length + g.length) :
    remaining g names visited' todo' < remaining g names visited todo := by
  have h := Nat.mul_le_mul_right (g.length + 1) hvisit
  rw [Nat.succ_mul] at h
  unfold remaining
  omega

/-- So is looking at a name. -/
theorem remaining_lt_cons (g : Dependencies) (names visited todo : List String) (n : String) :
    remaining g names visited todo < remaining g names visited (n :: todo) := by
  simp [remaining]

/-! ### Searching for a cycle -/

/-- The cycle that closes at a name on the stack, whose top comes first. -/
def cycleAt (stack : List String) (n : String) : List String :=
  n :: ((stack.takeWhile (· != n)).reverse ++ [n])

/-- Walks from the given names through their dependents, depth first, past the
visited ones. Ends with a cycle, or with all names visited by then. -/
def walk (g : Dependencies) (names stack visited todo : List String) :
    Except (List String) { visited' : List String // ∀ n ∈ visited, n ∈ visited' } :=
  match todo with
  | [] => .ok ⟨visited, fun _ h => h⟩
  | n :: todo =>
    if hv : n ∈ visited then
      if n ∈ stack then .error (cycleAt stack n) else walk g names stack visited todo
    else if hn : n ∈ names then
      match walk g names (n :: stack) (n :: visited) (g.dependentsOf n) with
      | .error cycle => .error cycle
      | .ok ⟨visited', h'⟩ =>
        have _hlt : unvisited names visited' < unvisited names visited :=
          unvisited_lt (fun m hm => h' m (List.mem_cons_of_mem n hm)) hn hv
            (h' n List.mem_cons_self)
        match walk g names stack visited' todo with
        | .error cycle => .error cycle
        | .ok ⟨all, hall⟩ => .ok ⟨all, fun m hm => hall m (h' m (List.mem_cons_of_mem n hm))⟩
    else walk g names stack visited todo
termination_by remaining g names visited todo
decreasing_by
  · exact remaining_lt_cons g names visited todo n
  · have hdeps := length_dependentsOf_le g n
    exact remaining_lt g
      (unvisited_lt (fun m hm => List.mem_cons_of_mem n hm) hn hv List.mem_cons_self) (by omega)
  · exact remaining_lt g _hlt (by simp; omega)
  · exact remaining_lt_cons g names visited todo n

/-- A cycle among the names, each depending on the one before it. -/
def findCycle (g : Dependencies) : Option (List String) :=
  match walk g g.names [] [] g.names with
  | .error cycle => some cycle
  | .ok _ => none

/-! ### Queueing -/

/-- Takes names off the queue, each followed at the end of the queue by those of
its dependents that have nothing left to wait for. -/
def drain (g : Dependencies) (names done queue : List String) : List String :=
  match queue with
  | [] => done
  | n :: queue =>
    if _hn : n ∈ names ∧ n ∉ done then
      let ready := (g.dependentsOf n).filter fun m =>
        (g.dependenciesOf m).all (done ++ [n]).contains
      drain g names (done ++ [n]) (queue ++ ready)
    else drain g names done queue
termination_by remaining g names done queue
decreasing_by
  · refine remaining_lt g
      (unvisited_lt (fun m hm => List.mem_append_left _ hm) _hn.1 _hn.2 (by simp)) ?_
    have hdeps := length_dependentsOf_le g n
    have hready := List.length_filter_le
      (fun m => (g.dependenciesOf m).all (done ++ [n]).contains) (g.dependentsOf n)
    simp only [List.length_append, List.length_cons]
    omega
  · exact remaining_lt_cons g names done queue n

/-- **The order of dependency**, or a cycle that rules it out. -/
def order (g : Dependencies) : Except (List String) (List String) :=
  match g.findCycle with
  | some cycle => .error cycle
  | none => .ok (g.drain g.names [] (g.names.filter fun n => (g.dependenciesOf n).isEmpty))

end Dependencies

end LambdaTrace
