import LambdaTrace.Proofs.Substitution.FreeVars
import LambdaTrace.Reduce.Trace

/-!
# What a step does

Each of the four strategies chooses among the same few steps: the contraction of a
redex, or the expansion of a reference at the head of an application or in its
argument. `LambdaTrace.Term.Admits` lists them, whatever the order of choice, and
`LambdaTrace.Term.admits_of_step` says that a strategy takes no other step. What
holds of every admitted step is then proved once for all strategies: it replaces what its
event says at the place it names (`LambdaTrace.Term.Admits.next_eq_replaceAt`), it leaves a
property of terms that is made of that of their parts, if what it unfolds has the property
(`LambdaTrace.Term.Compositional.next`), and so it leaves one that passes to what references
stand for (`LambdaTrace.Term.Hereditary.next`).

The first such facts are those on closed terms. A reference counts as closed
whatever it stands for, which is only right if what it stands for is closed, at every
depth (`LambdaTrace.Term.refsClosed`). Under that proviso no step makes a variable
free, and what references stand for stays closed. With a property of the references on
top of that (`LambdaTrace.Term.Carries`), this is the invariant of most runs
(`LambdaTrace.Term.Sound`).
-/

namespace LambdaTrace

open Step

/-! ### The alternatives at an application -/

namespace Step

variable {f a : Term} {s : Step}

theorem contractAt_eq_some : contractAt f a = some s ↔
    ∃ x b, f = .abs x b ∧ s = contract x b a := by
  cases f <;> simp [contractAt, eq_comm]

theorem expandFn_eq_some : expandFn f a = some s ↔
    ∃ n t, f = .ref n t ∧ s = (expand n t).inFn a := by
  cases f <;> simp [expandFn, eq_comm]

theorem expandArg_eq_some : expandArg f a = some s ↔
    ∃ n g h, a = .ref n (.app g h) ∧ s = (expand n (.app g h)).inArg f := by
  cases a with
  | ref n t => cases t <;> simp [expandArg, eq_comm]
  | _ => simp [expandArg]

end Step

/-! ### What happens at the place of a step -/

namespace Event

/-- What stands at the place before the step. -/
def redex : Event → Term
  | .beta x b a _ => .app (.abs x b) a
  | .expansion n e => .ref n e

/-- What stands there after it. -/
def result : Event → Term
  | .beta x b a _ => (Term.substitute b a x).1
  | .expansion _ e => e

end Event

namespace Term

/-! ### The steps a term admits -/

/-- **The steps of a term**, in whatever order a strategy may try them. -/
inductive Admits : Term → Step → Prop
  /-- The contraction of a redex. -/
  | contract (x : String) (b a : Term) : Admits (.app (.abs x b) a) (contract x b a)
  /-- The expansion of a function. -/
  | expandFn (n : String) (t a : Term) : Admits (.app (.ref n t) a) ((expand n t).inFn a)
  /-- The expansion of an argument that stands for an application. -/
  | expandArg (f : Term) (n : String) (g h : Term) :
    Admits (.app f (.ref n (.app g h))) ((expand n (.app g h)).inArg f)
  /-- A step of the function. -/
  | fn {f : Term} {s : Step} (a : Term) : Admits f s → Admits (.app f a) (s.inFn a)
  /-- A step of the argument. -/
  | arg {a : Term} {s : Step} (f : Term) : Admits a s → Admits (.app f a) (s.inArg f)
  /-- A step of the body. -/
  | body {b : Term} {s : Step} (x : String) : Admits b s → Admits (.abs x b) (s.inBody x)

section Alternatives

variable {f a : Term} {s : Step}

theorem admits_of_contractAt (h : contractAt f a = some s) : Admits (.app f a) s := by
  obtain ⟨x, b, rfl, rfl⟩ := contractAt_eq_some.mp h
  exact .contract x b a

theorem admits_of_expandFn (h : expandFn f a = some s) : Admits (.app f a) s := by
  obtain ⟨n, t, rfl, rfl⟩ := expandFn_eq_some.mp h
  exact .expandFn n t a

theorem admits_of_expandArg (h : expandArg f a = some s) : Admits (.app f a) s := by
  obtain ⟨n, g, k, rfl, rfl⟩ := expandArg_eq_some.mp h
  exact .expandArg f n g k

/-- A step of a part is a step of the whole. -/
theorem admits_of_map {step : Term → Option Step} {t u : Term} {wrap : Step → Step}
    (ih : ∀ s, step t = some s → Admits t s) (hwrap : ∀ s, Admits t s → Admits u (wrap s))
    (h : (step t).map wrap = some s) : Admits u s := by
  obtain ⟨r, hr, rfl⟩ := Option.map_eq_some_iff.mp h
  exact hwrap r (ih r hr)

end Alternatives

theorem admits_of_stepValue {t : Term} {s : Step} (h : t.stepValue = some s) : Admits t s := by
  induction t generalizing s with
  | app f a ihf iha =>
    simp only [stepValue, Option.orElse_eq_some] at h
    rcases h with h | ⟨-, h | ⟨-, h | ⟨-, h | ⟨-, h⟩⟩⟩⟩
    · exact admits_of_map (fun _ => ihf) (fun _ => .fn a) h
    · exact admits_of_expandFn h
    · exact admits_of_expandArg h
    · exact admits_of_map (fun _ => iha) (fun _ => .arg f) h
    · exact admits_of_contractAt h
  | _ => simp [stepValue] at h

theorem admits_of_stepName {t : Term} {s : Step} (h : t.stepName = some s) : Admits t s := by
  induction t generalizing s with
  | app f a ihf _ =>
    simp only [stepName, Option.orElse_eq_some] at h
    rcases h with h | ⟨-, h | ⟨-, h⟩⟩
    · exact admits_of_map (fun _ => ihf) (fun _ => .fn a) h
    · exact admits_of_expandFn h
    · exact admits_of_contractAt h
  | _ => simp [stepName] at h

theorem admits_of_stepNormal {t : Term} {s : Step} (h : t.stepNormal = some s) :
    Admits t s := by
  induction t generalizing s with
  | app f a ihf iha =>
    simp only [stepNormal, Option.orElse_eq_some] at h
    rcases h with h | ⟨-, h | ⟨-, h | ⟨-, h | ⟨-, h⟩⟩⟩⟩
    · exact admits_of_expandFn h
    · exact admits_of_contractAt h
    · exact admits_of_map (fun _ => ihf) (fun _ => .fn a) h
    · exact admits_of_expandArg h
    · exact admits_of_map (fun _ => iha) (fun _ => .arg f) h
  | abs x b ih => exact admits_of_map (fun _ => ih) (fun _ => .body x) h
  | _ => simp [stepNormal] at h

theorem admits_of_stepApplicative {t : Term} {s : Step} (h : t.stepApplicative = some s) :
    Admits t s := by
  induction t generalizing s with
  | app f a ihf iha =>
    simp only [stepApplicative, Option.orElse_eq_some] at h
    rcases h with h | ⟨-, h | ⟨-, h | ⟨-, h | ⟨-, h⟩⟩⟩⟩
    · exact admits_of_expandFn h
    · exact admits_of_map (fun _ => ihf) (fun _ => .fn a) h
    · exact admits_of_contractAt h
    · exact admits_of_expandArg h
    · exact admits_of_map (fun _ => iha) (fun _ => .arg f) h
  | abs x b ih => exact admits_of_map (fun _ => ih) (fun _ => .body x) h
  | _ => simp [stepApplicative] at h

/-- **A strategy takes only steps of the term.** -/
theorem admits_of_step {strategy : Strategy} {t : Term} {s : Step}
    (h : strategy.step t = some s) : Admits t s := by
  cases strategy with
  | cbv => exact admits_of_stepValue h
  | cbn => exact admits_of_stepName h
  | normal => exact admits_of_stepNormal h
  | applicative => exact admits_of_stepApplicative h

/-! ### Where a step is -/

/-- **A step replaces what stands at its place**, which is what its event says. -/
theorem Admits.at?_redex {t : Term} {s : Step} (h : Admits t s) :
    t.at? s.path = some s.event.redex := by
  induction h with
  | contract x b a => rfl
  | expandFn n t a => rfl
  | expandArg f n g h => rfl
  | fn a _ ih => exact ih
  | arg f _ ih => exact ih
  | body x _ ih => exact ih

/-- **Nothing but the place of a step is rebuilt.** -/
theorem Admits.next_eq_replaceAt {t : Term} {s : Step} (h : Admits t s) :
    s.next = t.replaceAt s.path s.event.result := by
  induction h with
  | contract x b a => rfl
  | expandFn n t a => rfl
  | expandArg f n g h => rfl
  | fn a _ ih => exact congrArg (app · a) ih
  | arg f _ ih => exact congrArg (app f) ih
  | body x _ ih => exact congrArg (abs x) ih

/-- A reference that is expanded stands at the place of the step. -/
theorem Admits.at?_of_expansion {t e : Term} {s : Step} {n : String} (h : Admits t s)
    (he : s.event = .expansion n e) : t.at? s.path = some (.ref n e) := by
  rw [h.at?_redex, he]
  rfl

/-- What it stands for comes in its place. -/
theorem Admits.at?_next_of_expansion {t e : Term} {s : Step} {n : String} (h : Admits t s)
    (he : s.event = .expansion n e) : s.next.at? s.path = some e := by
  rw [h.next_eq_replaceAt, at?_replaceAt h.at?_redex, he]
  rfl

/-! ### What steps keep -/

/-- **A compositional property** is one that a term has if and only if its parts have it.
Of what a reference stands for it says nothing. -/
structure Compositional (P : Term → Prop) : Prop where
  var : ∀ x, P (.var x)
  app : ∀ {f a}, P (.app f a) ↔ P f ∧ P a
  abs : ∀ {x b}, P (.abs x b) ↔ P b

namespace Compositional

variable {P : Term → Prop}

theorem at? (hP : Compositional P) {t u : Term} {p : Path} (ht : P t)
    (h : t.at? p = some u) : P u := by
  induction t generalizing p with
  | app f a ihf iha =>
    rcases p with _ | ⟨_ | _ | _, p⟩
    · exact Option.some.inj h ▸ ht
    · exact ihf (hP.app.mp ht).1 h
    · exact iha (hP.app.mp ht).2 h
    · cases h
  | abs x b ih =>
    rcases p with _ | ⟨_ | _ | _, p⟩
    · exact Option.some.inj h ▸ ht
    · cases h
    · cases h
    · exact ih (hP.abs.mp ht) h
  | _ =>
    rcases p with _ | ⟨turn, p⟩
    · exact Option.some.inj h ▸ ht
    · rw [at?_cons_of_children_eq_nil rfl] at h
      cases h

/-- Substitution puts together a term of parts of the body and of the inserted term. -/
theorem substitute (hP : Compositional P) {b v : Term} {x : String} (hb : P b) (hv : P v) :
    P (substitute b v x).1 := by
  induction b, v, x using substitute_induction with
  | var y v x =>
    rw [substitute_var]
    by_cases hyx : y = x
    · rw [if_pos hyx]
      exact hv
    · rw [if_neg hyx]
      exact hb
  | app f a v x ihf iha =>
    obtain ⟨hf, ha⟩ := hP.app.mp hb
    rw [substitute_app]
    exact hP.app.mpr ⟨ihf hf hv, iha ha hv⟩
  | ref n t v x =>
    rw [substitute_ref]
    exact hb
  | shadowed b v x =>
    rw [substitute_shadowed]
    exact hb
  | kept y b v x hyx hy ih =>
    rw [substitute_kept hyx hy]
    exact hP.abs.mpr (ih (hP.abs.mp hb) hv)
  | renamed y b v x hyx hy ihb ih =>
    -- the renamed body has the property too, since a variable has it
    rw [substitute_renamed hyx hy]
    exact hP.abs.mpr (ih (ihb (hP.abs.mp hb) (hP.var _)) hv)

/-- **Every step keeps a compositional property**, if what it unfolds has the property. -/
theorem next (hP : Compositional P) {t : Term} {s : Step} (h : Admits t s) (ht : P t)
    (hunfold : ∀ n e, s.event = .expansion n e → P e) : P s.next := by
  induction h with
  | contract x b a =>
    obtain ⟨hf, ha⟩ := hP.app.mp ht
    exact hP.substitute (hP.abs.mp hf) ha
  | expandFn n t a => exact hP.app.mpr ⟨hunfold n t rfl, (hP.app.mp ht).2⟩
  | expandArg f n g h => exact hP.app.mpr ⟨(hP.app.mp ht).1, hunfold n _ rfl⟩
  | fn a _ ih =>
    obtain ⟨hf, ha⟩ := hP.app.mp ht
    exact hP.app.mpr ⟨ih hf hunfold, ha⟩
  | arg f _ ih =>
    obtain ⟨hf, ha⟩ := hP.app.mp ht
    exact hP.app.mpr ⟨hf, ih ha hunfold⟩
  | body x _ ih => exact hP.abs.mpr (ih (hP.abs.mp ht) hunfold)

end Compositional

/-- **A hereditary property** is one that a term has if and only if its parts have it,
and that passes from a reference to what it stands for. -/
structure Hereditary (P : Term → Prop) : Prop where
  var : ∀ x, P (.var x)
  app : ∀ {f a}, P (.app f a) ↔ P f ∧ P a
  abs : ∀ {x b}, P (.abs x b) ↔ P b
  unfold : ∀ {n t}, P (.ref n t) → P t

namespace Hereditary

variable {P : Term → Prop}

theorem compositional (hP : Hereditary P) : Compositional P :=
  ⟨hP.var, hP.app, hP.abs⟩

/-- **Every step keeps a hereditary property.** -/
theorem next (hP : Hereditary P) {t : Term} {s : Step} (h : Admits t s) (ht : P t) :
    P s.next :=
  hP.compositional.next h ht fun _ _ he =>
    hP.unfold (hP.compositional.at? ht (h.at?_of_expansion he))

end Hereditary

/-! ### Closed references -/

/-- Whether what references stand for is closed, at every depth. -/
def refsClosed : Term → Bool
  | .var _ => true
  | .app f a => f.refsClosed && a.refsClosed
  | .abs _ b => b.refsClosed
  | .ref _ t => t.isClosed && t.refsClosed

@[simp] theorem refsClosed_app {f a : Term} :
    (app f a).refsClosed = true ↔ f.refsClosed = true ∧ a.refsClosed = true := by
  simp [refsClosed]

@[simp] theorem refsClosed_abs {x : String} {b : Term} :
    (abs x b).refsClosed = true ↔ b.refsClosed = true := by
  simp [refsClosed]

@[simp] theorem refsClosed_ref {n : String} {t : Term} :
    (ref n t).refsClosed = true ↔ t.isClosed = true ∧ t.refsClosed = true := by
  simp [refsClosed]

/-- Where references are closed at every depth, unfolding them all frees no variable:
a term has the free variables that its printed form shows. -/
theorem mem_freeVars_unfold {t : Term} (h : t.refsClosed = true) {z : String} :
    z ∈ t.unfold.freeVars ↔ z ∈ t.freeVars := by
  induction t with
  | var x => rfl
  | app f a ihf iha =>
    rw [refsClosed_app] at h
    rw [unfold, mem_freeVars_app, mem_freeVars_app, ihf h.1, iha h.2]
  | abs x b ih => rw [unfold, mem_freeVars_abs, mem_freeVars_abs, ih (refsClosed_abs.mp h)]
  | ref n t ih =>
    rw [refsClosed_ref] at h
    rw [unfold, ih h.2]
    exact iff_of_false (isClosed_iff.mp h.1 z) (by simp [freeVars])

/-- A closed term stays closed when its references are unfolded. -/
theorem isClosed_unfold {t : Term} (hrefs : t.refsClosed = true) (hclosed : t.isClosed = true) :
    t.unfold.isClosed = true := by
  rw [isClosed_iff] at hclosed ⊢
  intro z hz
  exact hclosed z ((mem_freeVars_unfold hrefs).mp hz)

theorem hereditary_refsClosed : Hereditary fun t => t.refsClosed = true where
  var _ := rfl
  app := refsClosed_app
  abs := refsClosed_abs
  unfold h := (refsClosed_ref.mp h).2

/-! ### References with a property -/

/-- Whether a property holds of every reference in a term, also of the references in what
references stand for. -/
def Carries (P : String → Term → Prop) : Term → Prop
  | .var _ => True
  | .app f a => f.Carries P ∧ a.Carries P
  | .abs _ b => b.Carries P
  | .ref n t => P n t ∧ t.Carries P

theorem hereditary_carries (P : String → Term → Prop) : Hereditary (Carries P) where
  var _ := trivial
  app := Iff.rfl
  abs := Iff.rfl
  unfold h := h.2

theorem Carries.mono {P Q : String → Term → Prop} (hPQ : ∀ n e, P n e → Q n e) {t : Term}
    (h : t.Carries P) : t.Carries Q := by
  induction t with
  | var x => trivial
  | app f a ihf iha => exact ⟨ihf h.1, iha h.2⟩
  | abs x b ih => exact ih h
  | ref n t ih => exact ⟨hPQ n t h.1, ih h.2⟩

/-- Of properties that agree on the references in a term, it carries both or neither. -/
theorem carries_congr {N P Q : String → Term → Prop} {t : Term} (h : t.Carries N)
    (hPQ : ∀ n e, N n e → (P n e ↔ Q n e)) : t.Carries P ↔ t.Carries Q := by
  induction t with
  | var x => exact Iff.rfl
  | app f a ihf iha => exact and_congr (ihf h.1) (iha h.2)
  | abs x b ih => exact ih h
  | ref n t ih => exact and_congr (hPQ n t h.1) (ih h.2)

/-! ### Closed terms -/

namespace Admits

variable {t : Term} {s : Step}

/-- **What references stand for stays closed.** -/
theorem refsClosed_next (h : Admits t s) (ht : t.refsClosed = true) :
    s.next.refsClosed = true :=
  hereditary_refsClosed.next h ht

/-- **No step makes a variable free.** -/
theorem mem_freeVars_next (h : Admits t s) (ht : t.refsClosed = true) {z : String}
    (hz : z ∈ s.next.freeVars) : z ∈ t.freeVars := by
  induction h generalizing z with
  | contract x b a =>
    rw [mem_freeVars_app, mem_freeVars_abs]
    exact mem_freeVars_substitute hz
  | expandFn n t a =>
    rw [refsClosed_app, refsClosed_ref] at ht
    -- what is unfolded is closed
    rcases mem_freeVars_app.mp hz with hz | hz
    · exact absurd hz (isClosed_iff.mp ht.1.1 z)
    · exact mem_freeVars_app.mpr (Or.inr hz)
  | expandArg f n g h =>
    rw [refsClosed_app, refsClosed_ref] at ht
    rcases mem_freeVars_app.mp hz with hz | hz
    · exact mem_freeVars_app.mpr (Or.inl hz)
    · exact absurd hz (isClosed_iff.mp ht.2.1 z)
  | fn a _ ih =>
    rw [refsClosed_app] at ht
    exact mem_freeVars_app.mpr ((mem_freeVars_app.mp hz).imp_left (ih ht.1))
  | arg f _ ih =>
    rw [refsClosed_app] at ht
    exact mem_freeVars_app.mpr ((mem_freeVars_app.mp hz).imp_right (ih ht.2))
  | body x _ ih =>
    obtain ⟨hz, hzx⟩ := mem_freeVars_abs.mp hz
    exact mem_freeVars_abs.mpr ⟨ih (refsClosed_abs.mp ht) hz, hzx⟩

/-- **A closed term stays closed.** -/
theorem isClosed_next (h : Admits t s) (ht : t.refsClosed = true) (hc : t.isClosed = true) :
    s.next.isClosed = true := by
  rw [isClosed_iff] at hc ⊢
  exact fun z hz => hc z (h.mem_freeVars_next ht hz)

end Admits

/-! ### Closed applications -/

theorem isClosed_app {f a : Term} :
    (app f a).isClosed = true ↔ f.isClosed = true ∧ a.isClosed = true := by
  simp only [isClosed_iff, mem_freeVars_app, not_or, forall_and]

theorem not_isClosed_var (x : String) : (var x).isClosed ≠ true := by
  simp [isClosed, freeVars]

/-! ### Sound terms -/

/-- **A sound term** is closed, and its references stand for closed terms with a given
property, at every depth. -/
structure Sound (P : String → Term → Prop) (t : Term) : Prop where
  closed : t.isClosed = true
  refsClosed : t.refsClosed = true
  carries : t.Carries P

/-- **Every step from a sound term leads to a sound term.** -/
theorem Sound.next {P : String → Term → Prop} {strategy : Strategy} {t : Term} {s : Step}
    (h : t.Sound P) (hs : strategy.step t = some s) : s.next.Sound P where
  closed := (admits_of_step hs).isClosed_next h.refsClosed h.closed
  refsClosed := (admits_of_step hs).refsClosed_next h.refsClosed
  carries := (hereditary_carries P).next (admits_of_step hs) h.carries

theorem sound_app {P : String → Term → Prop} {f a : Term} :
    (app f a).Sound P ↔ f.Sound P ∧ a.Sound P := by
  constructor
  · rintro ⟨hclosed, hrefs, hcarries⟩
    rw [isClosed_app] at hclosed
    rw [refsClosed_app] at hrefs
    exact ⟨⟨hclosed.1, hrefs.1, hcarries.1⟩, ⟨hclosed.2, hrefs.2, hcarries.2⟩⟩
  · rintro ⟨hf, ha⟩
    exact ⟨isClosed_app.mpr ⟨hf.closed, ha.closed⟩,
      refsClosed_app.mpr ⟨hf.refsClosed, ha.refsClosed⟩, ⟨hf.carries, ha.carries⟩⟩

end Term

end LambdaTrace
