import LambdaTrace.Proofs.Reduction.Runs

/-!
# What a step leaves alone

A strategy goes down a term, and every part that it passes is built again around what it
brings back from below. So two things have to be said of a step beyond what it does.

* Outside its place the term is what it was: the next term has the same symbols there, in the
  same positions (`LambdaTrace.Term.Replaces`). What stands at the place, and what comes
  there, is told by the event (`LambdaTrace.Term.step_replaces`). There is no turn into a
  reference, so the place is never inside what a macro stands for.
* No variable becomes free that was not free before, whatever the names are: not where a
  renaming captures an occurrence, nor where it takes the very variable that is substituted
  for (`LambdaTrace.Term.freeVars_run`). Where references are unfolded this rests on what
  they stand for being closed, which is then kept as well.
-/

namespace LambdaTrace

namespace Term

/-! ### Replacing a part -/

/-- What stands at the root of a term, without its parts. -/
inductive Symbol where
  | var (name : String)
  | app
  | abs (binder : String)
  | ref (name : String) (body : Term)
  deriving DecidableEq

def symbol : Term → Symbol
  | .var x => .var x
  | .app _ _ => .app
  | .abs x _ => .abs x
  | .ref n e => .ref n e

/-- **Whether a term is another one with the part at a position replaced**: the old part
stands there in the one and the new part in the other, and everywhere else, above the position
and beside it, they have the same symbols. -/
structure Replaces (t : Term) (p : Path) (r r' t' : Term) : Prop where
  before : t.at? p = some r
  after : t'.at? p = some r'
  outside : ∀ q, ¬p <+: q → (t'.at? q).map symbol = (t.at? q).map symbol

/-- Putting a term at a position changes no symbol elsewhere. -/
theorem map_symbol_at?_replaceAt (t u : Term) {p q : Path} (h : ¬p <+: q) :
    ((t.replaceAt p u).at? q).map symbol = (t.at? q).map symbol := by
  induction p generalizing t q with
  | nil => exact absurd List.nil_prefix h
  | cons turn p ih =>
    rcases q with _ | ⟨turn', q⟩
    · -- the root keeps its symbol
      rw [at?_nil, at?_nil]
      cases t <;> cases turn <;> rfl
    · by_cases hturn : turn = turn'
      · subst hturn
        have hpq : ¬p <+: q := fun hpq => h (List.cons_prefix_cons.mpr ⟨rfl, hpq⟩)
        cases t with
        | app f a =>
          cases turn with
          | left => exact ih f hpq
          | right => exact ih a hpq
          | body => rfl
        | abs x b =>
          cases turn with
          | body => exact ih b hpq
          | _ => rfl
        | _ => rw [replaceAt_cons_of_children_eq_nil rfl]
      · -- the two positions part here
        cases t with
        | app f a => cases turn <;> cases turn' <;> first | rfl | exact absurd rfl hturn
        | abs x b => cases turn <;> cases turn' <;> first | rfl | exact absurd rfl hturn
        | _ => rw [replaceAt_cons_of_children_eq_nil rfl]

theorem replaces_replaceAt {t r : Term} {p : Path} (h : t.at? p = some r) (r' : Term) :
    t.Replaces p r r' (t.replaceAt p r') where
  before := h
  after := at?_replaceAt h
  outside _ hpq := map_symbol_at?_replaceAt t r' hpq

/-! ### The place of a step -/

namespace Admits

variable {t : Term} {s : Step} {x : String} {b a : Term} {copies : List Path}

theorem replaces (h : Admits t s) : t.Replaces s.path s.event.redex s.event.result s.next := by
  rw [h.next_eq_replaceAt]
  exact replaces_replaceAt h.at?_redex _

/-- The copies that a contraction tells of are those of its substitution. -/
theorem substitute_eq (h : Admits t s) (he : s.event = .beta x b a copies) :
    substitute b a x = (s.event.result, copies) := by
  induction h with
  | contract y c d =>
    obtain ⟨rfl, rfl, rfl, rfl⟩ := Event.beta.inj he
    rfl
  | expandFn n t a => cases he
  | expandArg f n g h => cases he
  | fn a _ ih => exact ih he
  | arg f _ ih => exact ih he
  | body y _ ih => exact ih he

end Admits

/-- **A step changes one place**, and says what it does there: it contracts the redex that
stands at its place, which is replaced by the body with the argument put for the variable, and
it returns the copies of this substitution; or it expands the reference that stands there,
which is replaced by what it stands for. A step is a next term with an event, so neither comes
without the other. -/
theorem step_replaces {strategy : Strategy} {t : Term} {s : Step}
    (h : strategy.step t = some s) :
    (∃ x b a r copies, s.event = .beta x b a copies ∧ substitute b a x = (r, copies) ∧
        t.Replaces s.path (.app (.abs x b) a) r s.next) ∨
      ∃ n e, s.event = .expansion n e ∧ t.Replaces s.path (.ref n e) e s.next := by
  have hadmits : Admits t s := admits_of_step h
  have hreplaces := hadmits.replaces
  cases hevent : s.event with
  | beta x b a copies =>
    refine Or.inl ⟨x, b, a, s.event.result, copies, rfl, hadmits.substitute_eq hevent, ?_⟩
    rw [hevent] at hreplaces ⊢
    exact hreplaces
  | expansion n e =>
    refine Or.inr ⟨n, e, rfl, ?_⟩
    rw [hevent] at hreplaces
    exact hreplaces

/-- A stuck head with two arguments under a binder: the first is a macro that stands for an
application, the second is a redex that inserts two copies. -/
def stuckHead : Term :=
  .abs "z" (.app (.app (.var "z") (.ref "A" (.app (.abs "x" (.var "x")) (.abs "x" (.var "x")))))
    (.app (.abs "x" (.app (.var "x") (.var "x"))) (.var "z")))

/-- Normal order goes to the macro first, and from the next term to its expansion. -/
theorem step_replaces_stuckHead : ∃ s s', Strategy.normal.step stuckHead = some s ∧
    s.path = [.body, .left, .right] ∧ Strategy.normal.step s.next = some s' ∧
    s'.path = [.body, .left, .right] ∧
    ((∃ x b a r copies, s.event = .beta x b a copies ∧ substitute b a x = (r, copies) ∧
        stuckHead.Replaces s.path (.app (.abs x b) a) r s.next) ∨
      ∃ n e, s.event = .expansion n e ∧ stuckHead.Replaces s.path (.ref n e) e s.next) ∧
    ((∃ x b a r copies, s'.event = .beta x b a copies ∧ substitute b a x = (r, copies) ∧
        s.next.Replaces s'.path (.app (.abs x b) a) r s'.next) ∨
      ∃ n e, s'.event = .expansion n e ∧ s.next.Replaces s'.path (.ref n e) e s'.next) := by
  exact ⟨_, _, rfl, by decide +kernel, rfl, by decide +kernel,
    @step_replaces .normal _ _ rfl, @step_replaces .normal _ _ rfl⟩

/-! ### Free variables -/

/-- **Reduction frees no variable.** Whatever the names are, the free variables of a
substitution are those of the body but for the variable substituted for, and those of the
inserted term. So where references are closed at every depth, that remains so with every step
of every strategy, no step frees a variable, and in every run, of whatever budget, no entry has
a free variable that the first one has not; a closed term stays closed. -/
theorem freeVars_run :
    (∀ (b v : Term) (x z : String), z ∈ (substitute b v x).1.freeVars →
      z ∈ b.freeVars ∧ z ≠ x ∨ z ∈ v.freeVars) ∧
    (∀ (strategy : Strategy) (t : Term) (s : Step), t.refsClosed = true →
      strategy.step t = some s →
        s.next.refsClosed = true ∧ ∀ z ∈ s.next.freeVars, z ∈ t.freeVars) ∧
    ∀ (strategy : Strategy) (budget : Nat) (t : Term), t.refsClosed = true →
      ∀ e ∈ strategy.run budget t, e.term.refsClosed = true ∧
        (∀ z ∈ e.term.freeVars, z ∈ t.freeVars) ∧ (t.isClosed = true → e.term.isClosed = true) := by
  have hstep : ∀ (strategy : Strategy) (t : Term) (s : Step), t.refsClosed = true →
      strategy.step t = some s →
        s.next.refsClosed = true ∧ ∀ z ∈ s.next.freeVars, z ∈ t.freeVars := by
    intro strategy t s ht hs
    have hadmits : Admits t s := admits_of_step hs
    exact ⟨hadmits.refsClosed_next ht, fun z => hadmits.mem_freeVars_next ht⟩
  refine ⟨fun b v x z => mem_freeVars_substitute, hstep, fun strategy budget t ht e he => ?_⟩
  have hkeep : ∀ u s, (u.refsClosed = true ∧ ∀ z ∈ u.freeVars, z ∈ t.freeVars) →
      strategy.step u = some s →
        s.next.refsClosed = true ∧ ∀ z ∈ s.next.freeVars, z ∈ t.freeVars := by
    intro u s hu hs
    obtain ⟨hrefs, hfree⟩ := hstep strategy u s hu.1 hs
    exact ⟨hrefs, fun z hz => hu.2 z (hfree z hz)⟩
  have hentry := forall_mem_runFrom hkeep ⟨ht, fun _ hz => hz⟩ budget .start e he
  refine ⟨hentry.1, hentry.2, fun hclosed => ?_⟩
  rw [isClosed_iff] at hclosed ⊢
  exact fun z hz => hclosed z (hentry.2 z hz)

/-- A body whose binder takes, when it is renamed, the name of a variable that is free in it. -/
def collidingBody : Term :=
  .abs "y" (.app (.app (.var "x") (.var "y")) (.var "y0"))

/-- A closed term that inserts its argument, a macro, into an argument of its own. -/
def insertsMacro : Term :=
  .app (.abs "x" (.app (.abs "y" (.var "y")) (.app (.var "x") (.var "x"))))
    (.ref "I" (.abs "z" (.var "z")))

/-- The renamed binder captures, and the free variables are still those there were; the run of
a closed term unfolds its macro and stays closed. -/
theorem freeVars_run_insertsMacro :
    (substitute collidingBody (.var "y") "x").1 =
        .abs "y0" (.app (.app (.var "y") (.var "y0")) (.var "y0")) ∧
      ("y" ∈ collidingBody.freeVars ∧ "y" ≠ "x" ∨ "y" ∈ (Term.var "y").freeVars) ∧
      (∃ s, Strategy.normal.step insertsMacro = some s ∧ s.next.refsClosed = true ∧
        ∀ z ∈ s.next.freeVars, z ∈ insertsMacro.freeVars) ∧
      (Strategy.normal.run 4 insertsMacro).map Entry.label =
        [.start, .arrow, .arrow, .equals, .arrow] ∧
      ∀ e ∈ Strategy.normal.run 4 insertsMacro, e.term.isClosed = true := by
  obtain ⟨hsubst, hstep, hrun⟩ := freeVars_run
  have hrefs : insertsMacro.refsClosed = true := by decide +kernel
  have hclosed : insertsMacro.isClosed = true := by decide +kernel
  refine ⟨by decide +kernel, hsubst collidingBody (.var "y") "x" "y" (by decide +kernel),
    ⟨_, rfl, hstep .normal insertsMacro _ hrefs rfl⟩, by decide +kernel, fun e he => ?_⟩
  exact (hrun .normal 4 insertsMacro hrefs e he).2.2 hclosed

end Term

end LambdaTrace
