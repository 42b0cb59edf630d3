import LambdaTrace.Proofs.Nameless.Alpha
import LambdaTrace.Proofs.Reduction.Strong
import LambdaTrace.Proofs.Substitution.Unextended

/-!
# Equivalence and renaming

There are two ways to say that the names of binders do not matter: to do away with them, as the
nameless form does, or to allow them to be changed. The textbook change renames one binder, to a
name that does not occur in its body at all, so that it can capture nothing and no binder below
is in its way (`LambdaTrace.Term.RenamesBinder`).

A renaming leaves the nameless form as it is, since the renamed body is read under its new
binder as the body was under the old one (`LambdaTrace.Term.under_substitute_var`). Conversely, two
terms without macros that have one nameless form are led to each other by renamings: two
abstractions are both renamed to one new name, and then their bodies have one nameless form
(`LambdaTrace.Term.eqvGen_of_under_eq`). Hidden names need no attention on the way, though
a name may be hidden in the one term and not in the other.

So for closed terms the comparison is both at once: equality of the nameless forms of the
unfolded terms, and the equivalence that renaming generates
(`LambdaTrace.Term.alphaEquivalent_iff_forms`).
-/

namespace LambdaTrace

open Nameless

namespace Term

variable {t u b c : Term} {x y : String} {σ : String → Nameless}

/-! ### One renaming -/

/-- **A binder is renamed**, somewhere in a term, to a name that does not occur in its body. -/
inductive RenamesBinder : Term → Term → Prop
  | binder (x : String) {y : String} {b : Term} : y ∉ b.names →
    RenamesBinder (.abs x b) (.abs y (substitute b (.var y) x).1)
  | fn {f g : Term} (a : Term) : RenamesBinder f g → RenamesBinder (.app f a) (.app g a)
  | arg (f : Term) {a b : Term} : RenamesBinder a b → RenamesBinder (.app f a) (.app f b)
  | body (x : String) {b c : Term} : RenamesBinder b c → RenamesBinder (.abs x b) (.abs x c)

/-- A name that does not occur gets past every binder. -/
theorem Faithful.of_notMem_names (hy : y ∉ b.names) (x : String) : Faithful b (.var y) x := by
  induction b with
  | var z => exact .var z _ x
  | app f a ihf iha =>
    rw [names, List.mem_append, not_or] at hy
    exact .app (ihf hy.1) (iha hy.2)
  | abs z b ih =>
    rw [names, List.mem_cons, not_or] at hy
    by_cases hzx : z = x
    · rw [hzx]
      exact .shadowed b _ x
    · exact .kept hzx (by simpa [freeVars] using Ne.symm hy.1) (ih hy.2)
  | ref n t => exact .ref n t _ x

/-- **A renamed body** is read under the new name as the body is under the old one. -/
theorem under_substitute_var (hy : y ∉ b.names) (x : String) (σ : String → Nameless) :
    (substitute b (.var y) x).1.under (push σ y) = b.under (push σ x) := by
  rw [(Faithful.of_notMem_names hy x).under_substitute, under, push_self]
  refine under_congr fun z hz => ?_
  by_cases hzx : z = x
  · rw [hzx, Function.update_self, push_self]
  · have hzy : z ≠ y := fun he => hy (he ▸ mem_names_of_mem_freeVars hz)
    rw [Function.update_of_ne hzx, push_of_ne hzx, push_of_ne hzy]

/-- **A renaming leaves the nameless form as it is**, whatever the names stand for. -/
theorem RenamesBinder.under_eq (h : RenamesBinder t u) (σ : String → Nameless) :
    t.under σ = u.under σ := by
  induction h generalizing σ with
  | binder x hy => rw [under, under, under_substitute_var hy x σ]
  | fn a _ ih => rw [under, under, ih]
  | arg f _ ih => rw [under, under, ih]
  | body x _ ih => rw [under, under, ih]

theorem under_eq_of_eqvGen (h : Relation.EqvGen RenamesBinder t u) (σ : String → Nameless) :
    t.under σ = u.under σ := by
  induction h with
  | rel t u h => exact h.under_eq σ
  | refl t => rfl
  | symm t u _ ih => exact ih.symm
  | trans t u v _ _ ih ih' => exact ih.trans ih'

/-! ### From one term to the other -/

/-- Where names are kept apart, only a variable is read as a variable, and only as itself. -/
theorem NamesApart.eq_var_of_under_eq (hσ : NamesApart σ) (h : t.under σ = σ x) :
    t = .var x := by
  have hvar := hσ.isVar x
  rw [← h] at hvar
  cases t with
  | var y => rw [hσ.injective h]
  | _ => simp [under, Nameless.isVar] at hvar

/-- What renaming leads to in a part, it leads to in the whole. -/
theorem eqvGen_congr {wrap : Term → Term}
    (hwrap : ∀ t u, RenamesBinder t u → RenamesBinder (wrap t) (wrap u))
    (h : Relation.EqvGen RenamesBinder t u) :
    Relation.EqvGen RenamesBinder (wrap t) (wrap u) := by
  induction h with
  | rel t u h => exact .rel _ _ (hwrap t u h)
  | refl t => exact .refl _
  | symm t u _ ih => exact .symm _ _ ih
  | trans t u v _ _ ih ih' => exact .trans _ _ _ ih ih'

theorem eqvGen_app {f g a b : Term} (hf : Relation.EqvGen RenamesBinder f g)
    (ha : Relation.EqvGen RenamesBinder a b) :
    Relation.EqvGen RenamesBinder (.app f a) (.app g b) :=
  .trans _ (.app g a) _ (eqvGen_congr (fun _ _ => .fn a) hf) (eqvGen_congr (fun _ _ => .arg g) ha)

/-- Two abstractions are led to each other if their bodies are, once both have the name of the
binder replaced by one that occurs in neither. -/
theorem eqvGen_abs {z : String} (hb : z ∉ b.names) (hc : z ∉ c.names)
    (h : Relation.EqvGen RenamesBinder (substitute b (.var z) x).1 (substitute c (.var z) y).1) :
    Relation.EqvGen RenamesBinder (.abs x b) (.abs y c) :=
  .trans _ _ _ (.rel _ _ (.binder x hb))
    (.trans _ _ _ (eqvGen_congr (fun _ _ => .body z) h) (.symm _ _ (.rel _ _ (.binder y hc))))

/-- **Two terms without macros that have one nameless form are led to each other by
renamings.** -/
theorem eqvGen_of_under_eq (hσ : NamesApart σ) (ht : t.references = []) (hu : u.references = [])
    (h : t.under σ = u.under σ) : Relation.EqvGen RenamesBinder t u := by
  -- a renamed body is no part of the abstraction, but it has the size of the body
  induction hsize : t.size using Nat.strong_induction_on generalizing t u σ with
  | _ size ih =>
    cases t with
    | var x => exact hσ.eq_var_of_under_eq h.symm ▸ .refl _
    | app f a =>
      cases u with
      | var y => cases hσ.eq_var_of_under_eq h
      | app g b =>
        obtain ⟨hf, ha⟩ := references_app.mp ht
        obtain ⟨hg, hb⟩ := references_app.mp hu
        rw [under, under, Nameless.app.injEq] at h
        rw [Term.size] at hsize
        exact eqvGen_app (ih f.size (by omega) hσ hf hg h.1 rfl)
          (ih a.size (by omega) hσ ha hb h.2 rfl)
      | _ => cases h
    | abs x b =>
      cases u with
      | var y => cases hσ.eq_var_of_under_eq h
      | abs y c =>
        obtain ⟨z, hz⟩ : ∃ z, z ∉ b.names ++ c.names := ⟨_, freshName_notMem x _⟩
        rw [List.mem_append, not_or] at hz
        have hrefs : ∀ b x, b.references = [] → (substitute b (.var z) x).1.references = [] :=
          fun b x hb => hereditary_references.compositional.substitute hb rfl
        rw [under, under, Nameless.lam.injEq] at h
        rw [Term.size] at hsize
        refine eqvGen_abs hz.1 hz.2 (ih b.size (by omega) (hσ.push z) (hrefs b x ht) (hrefs c y hu)
          ?_ (size_substitute_var b z x))
        rw [under_substitute_var hz.1, under_substitute_var hz.2, h]
      | _ => cases h
    | ref n t => exact absurd ht (List.cons_ne_nil n [])

/-- An unfolded term has no macros. -/
theorem references_unfold (t : Term) : t.unfold.references = [] := by
  induction t with
  | var x => rfl
  | app f a ihf iha => exact references_app.mpr ⟨ihf, iha⟩
  | abs x b ih => exact ih
  | ref n t ih => exact ih

/-- **To have one nameless form** is to be led to each other by renamings, for terms without
macros. -/
theorem nameless_eq_iff (ht : t.references = []) (hu : u.references = []) :
    t.nameless = u.nameless ↔ Relation.EqvGen RenamesBinder t u := by
  rw [nameless_eq_under, nameless_eq_under]
  exact ⟨eqvGen_of_under_eq (ofScope_nil ▸ .ofScope []) ht hu, fun h => under_eq_of_eqvGen h .free⟩

/-! ### Equivalence -/

/-- **Equivalence is equality of nameless forms**, of the unfolded terms, which have to be
closed. It is also what renaming generates, one binder at a time; so it is an equivalence
relation on closed terms, and a term may be replaced by one with other names. The comparison
that it rests on does not see references either, under whatever binders it is made. -/
theorem alphaEquivalent_iff_forms :
    (∀ t u : Term, t.alphaEquivalent u = true ↔
      (t.unfold.isClosed = true ∧ u.unfold.isClosed = true) ∧
        t.unfold.nameless = u.unfold.nameless) ∧
    (∀ t u : Term, t.alphaEquivalent u = true ↔
      (t.unfold.isClosed = true ∧ u.unfold.isClosed = true) ∧
        Relation.EqvGen RenamesBinder t.unfold u.unfold) ∧
    (Equivalence fun t u : { t : Term // t.unfold.isClosed = true } =>
      t.1.alphaEquivalent u.1 = true) ∧
    ∀ (t u : Term) (bound bound' : List String),
      t.alphaEquals u bound bound' = t.unfold.alphaEquals u.unfold bound bound' := by
  refine ⟨fun t u => alphaEquivalent_iff, fun t u => ?_, ⟨fun t => ?_, ?_, ?_⟩,
    fun t u bound bound' => (alphaEquals_unfold t u bound bound').symm⟩
  · rw [alphaEquivalent_iff, nameless_eq_iff (references_unfold t) (references_unfold u)]
  · exact alphaEquivalent_iff.mpr ⟨⟨t.2, t.2⟩, rfl⟩
  · intro t u h
    obtain ⟨-, hnameless⟩ := alphaEquivalent_iff.mp h
    exact alphaEquivalent_iff.mpr ⟨⟨u.2, t.2⟩, hnameless.symm⟩
  · intro t u v h h'
    obtain ⟨-, hnameless⟩ := alphaEquivalent_iff.mp h
    obtain ⟨-, hnameless'⟩ := alphaEquivalent_iff.mp h'
    exact alphaEquivalent_iff.mpr ⟨⟨t.2, v.2⟩, hnameless.trans hnameless'⟩

end Term

end LambdaTrace
