import LambdaTrace.Macros.Definition
import LambdaTrace.Proofs.Reduction.Runs
import LambdaTrace.Proofs.Substitution.Capture
import LambdaTrace.Source.Parser

/-!
# Strong reduction

Normal order and applicative order reduce under binders, so the terms they insert are
open, binders are renamed, and names generated by one step are there for the next to
collide with. Whether a step contracts its redex *without capture* is therefore a
question about that step, which `LambdaTrace.Term.Admits.contractAt?_iff_faithful` answers:
exactly where its substitution is faithful. Over a run of a term without macros
this gives `LambdaTrace.Term.strong_run_contracts`: each entry is the contraction of
the one before it at the place of the step if and only if that step is faithful; and
if all of them are, the run is a chain of contractions, and what it ends in is normal.

The proviso is needed for terms as they are typed, without digits and closed:
`LambdaTrace.Term.strong_run_captures` is a run of two steps whose second one
replaces a bound variable, since the generated name is the variable substituted for.
-/

namespace LambdaTrace

open Nameless Step

namespace Nameless

/-! ### Contraction without names -/

/-- **One contraction**, anywhere. -/
inductive Beta : Nameless → Nameless → Prop
  | contract (b a : Nameless) : Beta (.app (.lam b) a) (b.instantiate a)
  | fn {f g : Nameless} (a : Nameless) : Beta f g → Beta (.app f a) (.app g a)
  | arg (f : Nameless) {a b : Nameless} : Beta a b → Beta (.app f a) (.app f b)
  | body {b c : Nameless} : Beta b c → Beta (.lam b) (.lam c)

/-- The contraction of the redex at a place, if there is one. -/
def contractAt? : Path → Nameless → Option Nameless
  | [], .app (.lam b) a => some (b.instantiate a)
  | .left :: p, .app f a => (contractAt? p f).map (.app · a)
  | .right :: p, .app f a => (contractAt? p a).map (.app f ·)
  | .body :: p, .lam b => (contractAt? p b).map .lam
  | _, _ => none

/-- Whether nothing is left to contract. -/
def IsNormal (t : Nameless) : Prop :=
  ∀ u, ¬Beta t u

section Inversion

variable {f a b u : Nameless}

theorem not_beta_bound (i : Nat) : ¬Beta (.bound i) u := by
  rintro ⟨⟩

theorem not_beta_free (x : String) : ¬Beta (.free x) u := by
  rintro ⟨⟩

theorem not_beta_const (n : String) (e : Nameless) : ¬Beta (.const n e) u := by
  rintro ⟨⟩

theorem beta_lam : Beta (.lam b) u ↔ ∃ c, Beta b c ∧ u = .lam c := by
  constructor
  · rintro (_ | _ | _ | hc)
    exact ⟨_, hc, rfl⟩
  · rintro ⟨c, hc, rfl⟩
    exact .body hc

theorem beta_app : Beta (.app f a) u ↔ (∃ b, f = .lam b ∧ u = b.instantiate a) ∨
    (∃ g, Beta f g ∧ u = .app g a) ∨ ∃ c, Beta a c ∧ u = .app f c := by
  constructor
  · rintro (_ | ⟨_, hg⟩ | ⟨_, hc⟩)
    · exact Or.inl ⟨_, rfl, rfl⟩
    · exact Or.inr (Or.inl ⟨_, hg, rfl⟩)
    · exact Or.inr (Or.inr ⟨_, hc, rfl⟩)
  · rintro (⟨b, rfl, rfl⟩ | ⟨g, hg, rfl⟩ | ⟨c, hc, rfl⟩)
    · exact .contract b a
    · exact .fn a hg
    · exact .arg f hc

/-- An application is normal if its parts are and it is no redex. -/
theorem isNormal_app : (app f a).IsNormal ↔
    (∀ b, f ≠ .lam b) ∧ f.IsNormal ∧ a.IsNormal := by
  constructor
  · intro h
    refine ⟨fun b hb => ?_, fun g hg => h _ (.fn a hg), fun c hc => h _ (.arg f hc)⟩
    subst hb
    exact h _ (.contract b a)
  · rintro ⟨hlam, hf, ha⟩ u hu
    rcases beta_app.mp hu with ⟨b, hb, -⟩ | ⟨g, hg, -⟩ | ⟨c, hc, -⟩
    · exact hlam b hb
    · exact hf g hg
    · exact ha c hc

theorem isNormal_lam : (lam b).IsNormal ↔ b.IsNormal := by
  constructor
  · exact fun h c hc => h _ (.body hc)
  · intro h u hu
    obtain ⟨c, hc, -⟩ := beta_lam.mp hu
    exact h c hc

end Inversion

/-- A contraction at a place is a contraction. -/
theorem beta_of_contractAt? {p : Path} {t u : Nameless} (h : contractAt? p t = some u) :
    Beta t u := by
  induction p, t using contractAt?.induct generalizing u with
  | case1 b a =>
    obtain rfl := Option.some_inj.mp h
    exact .contract b a
  | case2 p f a ih =>
    obtain ⟨g, hg, rfl⟩ := Option.map_eq_some_iff.mp h
    exact .fn a (ih hg)
  | case3 p f a ih =>
    obtain ⟨c, hc, rfl⟩ := Option.map_eq_some_iff.mp h
    exact .arg f (ih hc)
  | case4 p b ih =>
    obtain ⟨c, hc, rfl⟩ := Option.map_eq_some_iff.mp h
    exact .body (ih hc)
  | case5 => simp [contractAt?] at h

end Nameless

namespace Term

/-! ### Single steps -/

namespace Admits

variable {t : Term} {s : Step} {x : String} {b a : Term} {copies : List Path}

/-- The redex of a step stands at its place. -/
theorem at?_path (h : Admits t s) (he : s.event = .beta x b a copies) :
    t.at? s.path = some (.app (.abs x b) a) := by
  rw [h.at?_redex, he]
  rfl

/-- **A step contracts its redex without capture** if and only if its substitution is
faithful. -/
theorem contractAt?_iff_faithful (h : Admits t s) (he : s.event = .beta x b a copies)
    (scope : List String) :
    contractAt? s.path (t.namelessIn scope) = some (s.next.namelessIn scope) ↔
      Faithful b a x := by
  induction h generalizing scope with
  | contract y c d =>
    obtain ⟨rfl, rfl, rfl, -⟩ := Event.beta.inj he
    show some ((c.namelessIn (y :: scope)).instantiate (d.namelessIn scope)) =
      some ((substitute c d y).1.namelessIn scope) ↔ _
    rw [faithful_iff scope, Option.some_inj, eq_comm]
  | expandFn n t a => cases he
  | expandArg f n g h => cases he
  | @fn f s a _ ih =>
    rw [← ih he scope]
    exact (Option.map_injective fun _ _ h => (Nameless.app.inj h).1).eq_iff
      (a := contractAt? s.path (f.namelessIn scope)) (b := some (s.next.namelessIn scope))
  | @arg a s f _ ih =>
    rw [← ih he scope]
    exact (Option.map_injective fun _ _ h => (Nameless.app.inj h).2).eq_iff
      (a := contractAt? s.path (a.namelessIn scope)) (b := some (s.next.namelessIn scope))
  | @body b s y _ ih =>
    rw [← ih he (y :: scope)]
    exact (Option.map_injective fun _ _ h => Nameless.lam.inj h).eq_iff
      (a := contractAt? s.path (b.namelessIn (y :: scope)))
      (b := some (s.next.namelessIn (y :: scope)))

end Admits

/-! ### Terms without macros -/

theorem references_app {f a : Term} :
    (app f a).references = [] ↔ f.references = [] ∧ a.references = [] := by
  constructor
  · intro h
    obtain ⟨hf, ha⟩ := List.append_eq_nil_iff.mp h
    rw [hf] at ha
    exact ⟨hf, by simpa using ha⟩
  · rintro ⟨hf, ha⟩
    simp [references, hf, ha]

theorem hereditary_references : Hereditary fun t => t.references = [] where
  var _ := rfl
  app := references_app
  abs := Iff.rfl
  unfold h := absurd h (List.cons_ne_nil _ [])

namespace Admits

variable {t : Term} {s : Step}

/-- Every step of a term without macros is a contraction. -/
theorem exists_beta (h : Admits t s) (ht : t.references = []) :
    ∃ x b a copies, s.event = .beta x b a copies := by
  induction h with
  | contract x b a => exact ⟨x, b, a, _, rfl⟩
  | expandFn n t a => exact absurd (references_app.mp ht).1 (List.cons_ne_nil n [])
  | expandArg f n g h => exact absurd (references_app.mp ht).2 (List.cons_ne_nil n [])
  | fn a _ ih => exact ih (references_app.mp ht).1
  | arg f _ ih => exact ih (references_app.mp ht).2
  | body x _ ih => exact ih ht

end Admits

/-! ### Terms without a step -/

/-- A function that the contraction looks through is no abstraction without names
either. -/
theorem namelessIn_ne_lam {f a : Term} (h : contractAt f a = none) (scope : List String)
    (b : Nameless) : f.namelessIn scope ≠ .lam b := by
  cases f with
  | abs x c => simp [contractAt] at h
  | var x =>
    rw [namelessIn]
    split <;> simp
  | _ => simp [namelessIn]

/-- A term is normal if no step is left that a strategy going everywhere could take. -/
theorem isNormal_of_stuck {step : Term → Option Step}
    (habs : ∀ x b, step (.abs x b) = none → step b = none)
    (happ : ∀ f a, step (.app f a) = none →
      step f = none ∧ step a = none ∧ contractAt f a = none)
    {t : Term} (h : step t = none) (scope : List String) : (t.namelessIn scope).IsNormal := by
  induction t generalizing scope with
  | var x =>
    intro u
    rw [namelessIn]
    split
    · exact not_beta_bound _
    · exact not_beta_free x
  | app f a ihf iha =>
    obtain ⟨hf, ha, hc⟩ := happ f a h
    exact isNormal_app.mpr ⟨namelessIn_ne_lam hc scope, ihf hf scope, iha ha scope⟩
  | abs x b ih => exact isNormal_lam.mpr (ih (habs x b h) _)
  | ref n t _ => exact fun u => not_beta_const n _

/-- Normal order goes under binders. -/
theorem stepNormal_abs_eq_none {x : String} {b : Term} :
    (abs x b).stepNormal = none ↔ b.stepNormal = none := by
  rw [stepNormal, Option.map_eq_none_iff]

/-- **Normal order is stuck at an application** if none of its alternatives is there. -/
theorem stepNormal_app_eq_none {f a : Term} : (app f a).stepNormal = none ↔
    expandFn f a = none ∧ contractAt f a = none ∧ f.stepNormal = none ∧
      expandArg f a = none ∧ a.stepNormal = none := by
  simp only [stepNormal, Option.orElse_eq_none, Option.map_eq_none_iff]

/-- A term without a step in normal order is normal under any binders. -/
theorem isNormal_of_stepNormal {t : Term} (h : t.stepNormal = none) (scope : List String) :
    (t.namelessIn scope).IsNormal := by
  refine isNormal_of_stuck (fun x b hb => ?_) (fun f a hfa => ?_) h scope
  · exact stepNormal_abs_eq_none.mp hb
  · obtain ⟨-, hc, hf, -, ha⟩ := stepNormal_app_eq_none.mp hfa
    exact ⟨hf, ha, hc⟩

/-- **Normal order and applicative order stop only at normal forms.** -/
theorem isNormal_of_step {strategy : Strategy}
    (hs : strategy = .normal ∨ strategy = .applicative) {t : Term}
    (h : strategy.step t = none) : t.nameless.IsNormal := by
  rcases hs with rfl | rfl
  · exact isNormal_of_stepNormal h []
  · refine isNormal_of_stuck (fun x b hb => ?_) (fun f a hfa => ?_) h []
    · simpa [Strategy.step, stepApplicative] using hb
    · simp only [Strategy.step, stepApplicative, Option.orElse_eq_none, Option.map_eq_none_iff]
        at hfa
      exact ⟨hfa.2.1, hfa.2.2.2.2, hfa.2.2.1⟩

end Term

/-! ### Runs -/

/-- Whether a step puts its argument in faithfully. -/
def Step.IsFaithful (s : Step) : Prop :=
  match s.event with
  | .beta x b a _ => Term.Faithful b a x
  | .expansion _ _ => True

/-- Whether all steps of a run put their arguments in faithfully. -/
def Trace.IsFaithful (trace : Trace) : Prop :=
  ∀ e ∈ trace, ∀ s, e.outcome = .stepped s → s.IsFaithful

/-- **A strategy contracts from a term**, as far as its substitutions are faithful:
each entry of a run comes from the entry before it by a step at a redex, which
contracts that redex without capture if and only if it is faithful; and a run of
faithful steps is a chain of contractions, which reports normal forms only. -/
structure Strategy.Contracts (strategy : Strategy) (t : Term) (budget : Nat) : Prop where
  step : (strategy.run budget t).IsChain fun e e' =>
    ∃ s x b a, e.outcome = .stepped s ∧ e'.term = s.next ∧
      e.term.at? s.path = some (.app (.abs x b) a) ∧
      (s.IsFaithful ↔ contractAt? s.path e.term.nameless = some e'.term.nameless)
  chain : (strategy.run budget t).IsFaithful →
    (strategy.run budget t).IsChain fun e e' => Beta e.term.nameless e'.term.nameless
  normal : (strategy.run budget t).IsFaithful → ∀ n,
    (strategy.run budget t).normalForm? = some n →
      Relation.ReflTransGen Beta t.nameless n.nameless ∧ n.nameless.IsNormal

namespace Term

/-- **Strong reduction contracts where its substitutions are faithful**, and only
there: in normal order and in applicative order, from every term without macros and
for every budget. -/
theorem strong_run_contracts {strategy : Strategy}
    (hs : strategy = .normal ∨ strategy = .applicative) {t : Term} (ht : t.references = [])
    (budget : Nat) : strategy.Contracts t budget := by
  have hchain := isChain_runFrom (fun t s ht (hts : strategy.step t = some s) =>
    hereditary_references.next (admits_of_step hts) ht) ht budget .start
  have hstep : (strategy.run budget t).IsChain fun e e' =>
      ∃ s x b a, e.outcome = .stepped s ∧ e'.term = s.next ∧
        e.term.at? s.path = some (.app (.abs x b) a) ∧
        (s.IsFaithful ↔ contractAt? s.path e.term.nameless = some e'.term.nameless) := by
    refine hchain.imp ?_
    rintro e e' ⟨he, s, hes, hout, hnext⟩
    -- without macros the step is a contraction, at the redex that stands at its place
    obtain ⟨x, b, a, copies, hevent⟩ := (admits_of_step hes).exists_beta he
    refine ⟨s, x, b, a, hout, hnext, (admits_of_step hes).at?_path hevent, ?_⟩
    rw [hnext, nameless, nameless, (admits_of_step hes).contractAt?_iff_faithful hevent,
      Step.IsFaithful, hevent]
  have hbeta (hf : (strategy.run budget t).IsFaithful) : (strategy.run budget t).IsChain
      fun e e' => Beta e.term.nameless e'.term.nameless := by
    refine hstep.imp_of_mem_imp ?_
    rintro e e' he - ⟨s, x, b, a, hout, -, -, hiff⟩
    exact beta_of_contractAt? (hiff.mp (hf e he s hout))
  refine ⟨hstep, hbeta, fun hf n hn => ⟨?_, ?_⟩⟩
  · exact (reflTransGen_of_normalForm? (hbeta hf) hn).lift Term.nameless fun _ _ h => h
  · exact isNormal_of_step hs (step_eq_none_of_normalForm? hn)

/-- A redex at which a binder is renamed, and rightly so. -/
def renamingRedex : Term :=
  .abs "y" (.app (.abs "x" (.abs "y" (.app (.var "x") (.var "y")))) (.var "y"))

theorem strong_run_contracts_renamingRedex :
    renamingRedex.references = [] ∧ Strategy.normal.Contracts renamingRedex 8 ∧
      Strategy.applicative.Contracts renamingRedex 8 :=
  ⟨rfl, strong_run_contracts (.inl rfl) rfl 8, strong_run_contracts (.inr rfl) rfl 8⟩

/-! ### A capture -/

/-- A closed text without macros and without digits. -/
def capturing : String := "λx. (λy. λx. λy. λx. x) x x"

/-- **Strong reduction captures.** The first step from `LambdaTrace.Term.capturing`
renames the second `λx` to `λx0`. The second step puts `x` for this `x0`, below a `λx`
that it renames to `λx0` as well, and then takes the variable of that binder for the
one to replace. What the run reports is normal, but no contractions lead to it. -/
theorem strong_run_captures : ∃ t t₁ t₂, (parse noMacros capturing).toOption = some t ∧
    t.isClosed = true ∧ t.references = [] ∧
    (capturing.toList.any fun c => c.isDigit || isMacroChar c) = false ∧
    (∀ strategy, strategy = Strategy.normal ∨ strategy = .applicative →
      (strategy.run 2 t).map (·.term) = [t, t₁, t₂] ∧
        (strategy.run 2 t).normalForm? = some t₂) ∧
    ¬Beta t₁.nameless t₂.nameless ∧ ¬Relation.ReflTransGen Beta t.nameless t₂.nameless := by
  refine ⟨.abs "x" (.app (.app (.abs "y" (.abs "x" (.abs "y" (.abs "x" (.var "x")))))
      (.var "x")) (.var "x")),
    .abs "x" (.app (.abs "x0" (.abs "y" (.abs "x" (.var "x")))) (.var "x")),
    .abs "x" (.abs "y" (.abs "x0" (.var "x"))), ?_⟩
  -- the three terms without names: the last one has the wrong variable
  have h₀ : (abs "x" (.app (.app (.abs "y" (.abs "x" (.abs "y" (.abs "x" (.var "x")))))
      (.var "x")) (.var "x"))).nameless =
      .lam (.app (.app (.lam (.lam (.lam (.lam (.bound 0))))) (.bound 0)) (.bound 0)) := by
    decide
  have h₁ : (abs "x" (.app (.abs "x0" (.abs "y" (.abs "x" (.var "x")))) (.var "x"))).nameless =
      .lam (.app (.lam (.lam (.lam (.bound 0)))) (.bound 0)) := by
    decide
  have h₂ : (abs "x" (.abs "y" (.abs "x0" (.var "x")))).nameless =
      .lam (.lam (.lam (.bound 2))) := by
    decide
  rw [h₀, h₁, h₂]
  refine ⟨by decide +kernel, by decide, by decide, by decide +kernel, ?_, ?_, ?_⟩
  · rintro strategy (rfl | rfl) <;> decide +kernel
  · simp [beta_app, beta_lam, not_beta_bound, instantiate, subst, up]
  · intro hred
    rcases hred.cases_head with h | ⟨u, hu, hred⟩
    · cases h
    have hu₁ : u = .lam (.app (.lam (.lam (.lam (.bound 0)))) (.bound 0)) := by
      simpa [beta_app, beta_lam, not_beta_bound, instantiate, subst, up, single] using hu
    subst hu₁
    rcases hred.cases_head with h | ⟨u, hu, hred⟩
    · cases h
    have hu₂ : u = .lam (.lam (.lam (.bound 0))) := by
      simpa [beta_app, beta_lam, not_beta_bound, instantiate, subst, up, single] using hu
    subst hu₂
    rcases hred.cases_head with h | ⟨u, hu, hred⟩
    · cases h
    · simp [beta_lam, not_beta_bound] at hu

end Term

end LambdaTrace
