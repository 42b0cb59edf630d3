import LambdaTrace.Proofs.Macros.History
import LambdaTrace.Proofs.Reduction.Strong

/-!
# How normal a full value is

The full value of a macro is what a run in normal order has reported, so normal order has no
step from it, and as it stands, with its references folded, it is normal. But normal order
looks into a reference only at the head of an application, and in an argument only if the
reference stands for an application. Whether the value is normal when everything is unfolded
is therefore a question about what its references stand for, and for a single term the answer
is simple: that is the case if and only if normal order has no step from any of these terms
either, at any depth (`LambdaTrace.Term.isNormal_unfold_iff`).

In a table a reference in a value stands for what its macro has for normal order: its full
value, or else the term as it was written (`LambdaTrace.MacroTable.Settled.carries_resolve`).
The former has no step and the latter has one
(`LambdaTrace.MacroTable.Makes.stepNormal_expansionFor_eq_none_iff`). So a full value is normal
to the ground if and only if it refers, at any depth, to macros with a full value only
(`LambdaTrace.MacroTable.full_afterDefining`); and there are others
(`LambdaTrace.MacroTable.exists_full_not_isNormal`).
-/

namespace LambdaTrace

open Nameless Step

namespace Term

/-! ### Normal to the ground -/

/-- A closed term that is normal when it is unfolded is an abstraction then: at the head of an
application there would be a free variable. -/
theorem exists_lam_of_isNormal {t : Term} {scope : List String}
    (hclosed : t.unfold.isClosed = true) (h : (t.unfold.namelessIn scope).IsNormal) :
    ∃ b, t.unfold.namelessIn scope = .lam b := by
  induction t with
  | var x => exact absurd hclosed (not_isClosed_var x)
  | app f a ihf _ =>
    obtain ⟨hfclosed, -⟩ := isClosed_app.mp hclosed
    obtain ⟨hlam, hf, -⟩ := isNormal_app.mp h
    obtain ⟨b, hb⟩ := ihf hfclosed hf
    exact absurd hb (hlam b)
  | abs x b => exact ⟨_, rfl⟩
  | ref n t ih => exact ih hclosed h

/-- **A term is normal with all its references unfolded** if and only if normal order has no
step from the term and none from what its references stand for, at any depth. -/
theorem isNormal_unfold_iff {t : Term} (hrefs : t.refsClosed = true) (scope : List String) :
    (t.unfold.namelessIn scope).IsNormal ↔
      t.stepNormal = none ∧ t.Carries fun _ e => e.stepNormal = none := by
  induction t generalizing scope with
  | var x => exact iff_of_true (isNormal_of_stepNormal rfl scope) ⟨rfl, trivial⟩
  | app f a ihf iha =>
    obtain ⟨hfrefs, harefs⟩ := refsClosed_app.mp hrefs
    constructor
    · intro h
      obtain ⟨hlam, hf, ha⟩ := isNormal_app.mp h
      obtain ⟨hfstuck, hfcarries⟩ := (ihf hfrefs scope).mp hf
      obtain ⟨hastuck, hacarries⟩ := (iha harefs scope).mp ha
      refine ⟨stepNormal_app_eq_none.mpr ⟨?_, ?_, hfstuck, ?_, hastuck⟩, hfcarries, hacarries⟩
      · rw [Option.eq_none_iff_forall_ne_some]
        intro s hs
        -- what a reference at the head stands for is an abstraction when it is unfolded
        obtain ⟨n, t, rfl, -⟩ := expandFn_eq_some.mp hs
        obtain ⟨htclosed, htrefs⟩ := refsClosed_ref.mp hfrefs
        obtain ⟨b, hb⟩ := exists_lam_of_isNormal (isClosed_unfold htrefs htclosed) hf
        exact hlam b hb
      · rw [Option.eq_none_iff_forall_ne_some]
        intro s hs
        obtain ⟨x, b, rfl, -⟩ := contractAt_eq_some.mp hs
        exact hlam _ rfl
      · rw [Option.eq_none_iff_forall_ne_some]
        intro s hs
        obtain ⟨n, g, k, rfl, -⟩ := expandArg_eq_some.mp hs
        obtain ⟨htclosed, htrefs⟩ := refsClosed_ref.mp harefs
        obtain ⟨b, hb⟩ := exists_lam_of_isNormal (isClosed_unfold htrefs htclosed) ha
        cases hb
    · rintro ⟨hstuck, hfcarries, hacarries⟩
      obtain ⟨hfn, hc, hf, -, ha⟩ := stepNormal_app_eq_none.mp hstuck
      have hlam : contractAt f.unfold a = none := by
        cases f with
        | abs x b => cases hc
        | ref n t => cases hfn
        | _ => rfl
      exact isNormal_app.mpr ⟨namelessIn_ne_lam hlam scope,
        (ihf hfrefs scope).mpr ⟨hf, hfcarries⟩, (iha harefs scope).mpr ⟨ha, hacarries⟩⟩
  | abs x b ih =>
    rw [unfold, namelessIn, isNormal_lam, ih (refsClosed_abs.mp hrefs), stepNormal_abs_eq_none]
    rfl
  | ref n t ih =>
    rw [unfold, ih (refsClosed_ref.mp hrefs).2]
    exact ⟨fun h => ⟨rfl, h⟩, fun h => h.2⟩

end Term

namespace MacroTable

variable {t : MacroTable} {d : Definition}

/-! ### What references stand for -/

/-- A definition that is made has a full value if the run in normal order found one. -/
theorem Makes.full_eq (h : t.Makes d) :
    d.full = (Strategy.normal.run t.budget d.unreduced).normalForm? := by
  have hfull := full_appraise t d.name d.unreduced
  rwa [h.appraise] at hfull

/-- Normal order has no step from a full value. -/
theorem Makes.stepNormal_of_full (h : t.Makes d) {v : Term} (hv : d.full = some v) :
    v.stepNormal = none := by
  have hrun : (Strategy.normal.run t.budget d.unreduced).normalForm? = some v :=
    h.full_eq ▸ hv
  exact step_eq_none_of_normalForm? hrun

/-- **What a macro has for normal order is without a step** if and only if it is a full
value: from the term as it was written there was a step, or it would be its own full value. -/
theorem Makes.stepNormal_expansionFor_eq_none_iff (h : t.Makes d) :
    (d.expansionFor .normal).stepNormal = none ↔ d.full.isSome = true := by
  rw [d.expansionFor_normal]
  cases hfull : d.full with
  | some v => exact iff_of_true (h.stepNormal_of_full hfull) rfl
  | none =>
    refine iff_of_false (fun hstuck => ?_) Bool.false_ne_true
    have hrun : (Strategy.normal.run t.budget d.unreduced).normalForm? = some d.unreduced :=
      normalForm?_of_stuck hstuck _ _
    rw [← h.full_eq, hfull] at hrun
    cases hrun

/-- What is resolved under a strategy has references with a property, if what their macros stand
for has the property. -/
theorem carries_resolveBy {P : String → Term → Prop} {strategy : Strategy} {u : Term}
    (hknown : u.Known (t.resolve strategy)) (hrefs : ∀ n ∈ u.references, ∀ c, t.get? n = some c →
      P n (c.expansionFor strategy) ∧ (c.expansionFor strategy).Carries P) :
    (u.resolveBy (t.resolve strategy)).Carries P := by
  refine (Term.hereditary_carries P).resolveBy hknown fun n hn e he => ?_
  obtain ⟨c, hc, rfl⟩ := Option.map_eq_some_iff.mp he
  exact hrefs n hn c hc

/-- **References stand for what their macros have for normal order**, at any depth, in whatever
a macro itself has for it. -/
theorem Settled.carries_resolve (h : t.Settled) (hd : d ∈ t.definitions) :
    (d.expansionFor .normal).Carries fun n e => t.resolve .normal n = some e := by
  refine h.definition_induction hd fun d hd ih => ?_
  have hmakes : t.Makes d := h.makes d hd
  have hunreduced : d.unreduced.Carries fun n e => t.resolve .normal n = some e := by
    rw [← hmakes.readable.resolveBy_eq]
    refine carries_resolveBy hmakes.readable.known fun m hm c hc => ⟨?_, ih m hm c hc⟩
    rw [resolve, hc]
    rfl
  rw [d.expansionFor_normal]
  cases hfull : d.full with
  | none => exact hunreduced
  | some v =>
    -- the run that found the value changes nothing about what references stand for
    refine inv_of_normalForm? (fun t s ht hs => ?_) hunreduced (hmakes.full_eq ▸ hfull)
    exact (Term.hereditary_carries _).next (Term.admits_of_step hs) ht

/-! ### Full values -/

/-- **How normal a full value is.** In every table that is reached by definitions, normal order
has no step from a full value; as it stands, with its references folded, it is normal; and
unfolded it is normal if and only if every macro that it refers to, at any depth, has a full
value too. -/
theorem full_afterDefining (budget : Nat) (sources : List String) :
    let t := (empty budget).afterDefining sources
    ∀ d ∈ t.definitions, ∀ v, d.full = some v →
      Strategy.normal.step v = none ∧ v.nameless.IsNormal ∧
        (v.unfold.nameless.IsNormal ↔
          v.Carries fun n _ => ∃ c, t.get? n = some c ∧ c.full.isSome = true) := by
  intro t d hd v hv
  have h : t.Settled := settled_afterDefining budget sources
  have hstuck : v.stepNormal = none := (h.makes d hd).stepNormal_of_full hv
  have hrefs : v.refsClosed = true := by
    refine (h.sound_of_mem_terms d hd v ?_).refsClosed
    simp [Definition.terms, hv]
  have hcarries : v.Carries fun n e => t.resolve .normal n = some e := by
    have hcarries := h.carries_resolve hd
    rwa [d.expansionFor_normal, hv] at hcarries
  refine ⟨hstuck, Term.isNormal_of_stepNormal hstuck [], ?_⟩
  rw [Term.nameless, Term.isNormal_unfold_iff hrefs, and_iff_right hstuck]
  refine Term.carries_congr hcarries fun n e he => ?_
  obtain ⟨c, hc, rfl⟩ := Option.map_eq_some_iff.mp he
  rw [(h.makes c (mem_of_get? hc)).stepNormal_expansionFor_eq_none_iff]
  simp [hc]

/-- A macro that is referred to in the full value of another one, where it is not unfolded. -/
theorem full_afterDefining_foldedArgument :
    let t := (empty 8).afterDefining ["I := λx. x", "A := (λy. y) λx. x I"]
    let v : Term := .abs "x" (.app (.var "x") (.ref "I" (.abs "x" (.var "x"))))
    (∃ d ∈ t.definitions, d.full = some v) ∧ Strategy.normal.step v = none ∧
      v.nameless.IsNormal ∧ v.unfold.nameless.IsNormal := by
  intro t v
  obtain ⟨d, hd, hv⟩ : ∃ d, t.get? "A" = some d ∧ d.full = some v :=
    Option.bind_eq_some_iff.mp (by decide +kernel : (t.get? "A").bind (·.full) = some v)
  obtain ⟨c, hc, hfull⟩ : ∃ c, t.get? "I" = some c ∧ c.full = some (.abs "x" (.var "x")) :=
    Option.bind_eq_some_iff.mp (by decide +kernel)
  obtain ⟨hstuck, hnormal, hunfold⟩ := full_afterDefining 8
    ["I := λx. x", "A := (λy. y) λx. x I"] d (mem_of_get? hd) v hv
  have hI : ∃ c, t.get? "I" = some c ∧ c.full.isSome = true := ⟨c, hc, by rw [hfull]; rfl⟩
  exact ⟨⟨d, mem_of_get? hd, hv⟩, hstuck, hnormal, hunfold.mpr ⟨trivial, hI, trivial⟩⟩

/-- **A full value need not be normal when it is unfolded**: a macro without a full value stays
folded where it is neither applied nor an argument, as it is right under a binder. -/
theorem exists_full_not_isNormal :
    ∃ d ∈ ((empty 32).afterDefining ["O := (λx. x x) λx. x x", "W := λx. O"]).definitions,
      ∃ v, d.full = some v ∧ ¬v.unfold.nameless.IsNormal := by
  let twice : Term := .abs "x" (.app (.var "x") (.var "x"))
  let v : Term := .abs "x" (.ref "O" (.app twice twice))
  obtain ⟨d, hd, hv⟩ : ∃ d, ((empty 32).afterDefining ["O := (λx. x x) λx. x x",
      "W := λx. O"]).get? "W" = some d ∧ d.full = some v :=
    Option.bind_eq_some_iff.mp (by decide +kernel)
  refine ⟨d, mem_of_get? hd, v, hv, fun hnormal => ?_⟩
  exact hnormal _ (.body (.contract _ _))

end MacroTable

end LambdaTrace
