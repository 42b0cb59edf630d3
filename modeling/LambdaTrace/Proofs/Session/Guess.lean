import LambdaTrace.Proofs.Session.Reachable

/-!
# Guessing the next step

Whoever types in the next term as it would be shown has guessed right, at any time
(`LambdaTrace.Session.checkGuess_afterAll`). Since the macros may have been redefined and the
strategy may have been changed after the current term was read, the guess need not be the next
term: it is the next term with its references resolved anew. That is enough, as matching
compares references by name.

Where the next term has a placeholder, the guess has one too. Both then become placeholders,
and a placeholder agrees with itself like any other variable.
-/

namespace LambdaTrace

namespace Term

variable {resolve : String → Option Term}

/-- Nothing is left out of a term by its own shape. -/
theorem collapse_resolveBy (t : Term) : t.collapse (t.resolveBy resolve) = t := by
  induction t with
  | var x =>
    rw [resolveBy, collapse.eq_def]
    dsimp only
    split
    · rename_i h
      exact h.symm
    · rfl
  | app f a ihf iha => rw [resolveBy, collapse, ihf, iha]
  | abs x b ih => rw [resolveBy, collapse, ih]
  | ref n t => simp [resolveBy, collapse, dots]

/-- **A term agrees with itself**, whatever its references stand for. -/
theorem agrees_resolveBy (t : Term) (bound : List String) :
    t.agrees (t.resolveBy resolve) bound bound = true := by
  induction t generalizing bound with
  | var x =>
    rw [resolveBy, agrees]
    cases binderDepth bound x <;> simp
  | app f a ihf iha => rw [resolveBy, agrees, ihf, iha, Bool.and_self]
  | abs x b ih => rw [resolveBy, agrees, ih]
  | ref n t => simp [resolveBy, agrees]

theorem matchesPattern_resolveBy (t : Term) : t.matchesPattern (t.resolveBy resolve) = true := by
  rw [matchesPattern, collapse_resolveBy, agrees_resolveBy]

end Term

namespace Session

/-- What is shown of the next term is a right guess in a coherent session. -/
theorem Coherent.checkGuess_pretty {s : Session} (h : s.Coherent) {step : Step}
    (hstep : s.step = .ok (some step)) : s.checkGuess step.next.pretty =
      (.ok (true, some step.next), { s with current := some step.next }) := by
  have hparse : s.parse step.next.pretty =
      .ok (step.next.resolveBy (s.table.resolve s.strategy)) :=
    (h.spelled_next hstep).parse_pretty fun _ hn => MacroTable.isSome_resolve_iff.mpr hn
  simp only [Session.checkGuess, hparse, hstep, Term.matchesPattern_resolveBy, if_true]

/-- **The next term as it is shown is a right guess**, in every session that can be reached:
the guess is read, it is found right, the next term is returned, and it becomes the current
one. -/
theorem checkGuess_afterAll (files : Files) (reporter : Reporter) (path : String)
    (options : Options) (requests : List Request) :
    let s := (start files reporter path options).2.afterAll requests
    ∀ step, s.step = .ok (some step) → s.checkGuess step.next.pretty =
      (.ok (true, some step.next), { s with current := some step.next }) :=
  fun _ hstep => (coherent_afterAll files reporter path options requests).checkGuess_pretty hstep

/-- A guess after one that cannot be read, of a term with a generated name, a placeholder and a
macro that was redefined in the meantime. -/
theorem checkGuess_afterAll_redefined :
    let s := (start default default commandLineName ⟨none, none, false, true⟩).2.afterAll
      [.define "A := λx. x", .evaluate "(λy. λx0. y x0 ... A) (x0 A) z", .guess "(z",
        .define "A := λx. λy. x", .setStrategy "normal"]
    ∃ step, s.step = .ok (some step) ∧
      step.next.pretty = "(λx00. x0 A x00 ... A) z" ∧
      s.checkGuess "(λx00. x0 A x00 ... A) z" =
        (.ok (true, some step.next), { s with current := some step.next }) := by
  intro s
  obtain ⟨step, hstep, hpretty⟩ : ∃ step, s.step = .ok (some step) ∧
      step.next.pretty = "(λx00. x0 A x00 ... A) z" := by
    have hsome : (s.step.toOption.bind fun o => o.map (·.next.pretty)) =
        some "(λx00. x0 A x00 ... A) z" := by decide +kernel
    rcases hs : s.step with e | _ | step
    · rw [hs] at hsome
      cases hsome
    · rw [hs] at hsome
      cases hsome
    · rw [hs] at hsome
      exact ⟨step, rfl, Option.some.inj hsome⟩
  refine ⟨step, hstep, hpretty, ?_⟩
  rw [← hpretty]
  exact checkGuess_afterAll _ _ _ _ _ step hstep

end Session

end LambdaTrace
