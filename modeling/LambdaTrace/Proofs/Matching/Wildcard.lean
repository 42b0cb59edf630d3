import LambdaTrace.Proofs.Matching.Elision
import LambdaTrace.Proofs.Nameless.Renaming

/-!
# Matching without names

Matching has two passes: the first puts placeholders into the term, walking down the term and
the pattern side by side, and the second compares what is left under two lists of binders. What
the passes find out together can be said in one sentence about nameless forms: the form of the
term is the form of the pattern with some tree in the place of each placeholder
(`LambdaTrace.Nameless.Fills`). A placeholder of the term stands for nothing; it is a free
variable, and only a placeholder of the pattern is satisfied with it.

This is for terms and patterns without references (`LambdaTrace.Term.matchesPattern_iff_fills`);
what references do to it is told by `LambdaTrace.Term.matchesPattern_elide`. No binder may have
the name of the placeholder, for then the pattern would be about a bound variable.
-/

namespace LambdaTrace

/-- **Equality with wildcards**: whether a tree is another one with some tree in the place of
each placeholder, not necessarily the same one. -/
inductive Nameless.Fills : Nameless → Nameless → Prop
  | wildcard (t : Nameless) : Fills t (.free "...")
  | bound (i : Nat) : Fills (.bound i) (.bound i)
  | free (x : String) : Fills (.free x) (.free x)
  | app {f g a b : Nameless} : Fills f g → Fills a b → Fills (.app f a) (.app g b)
  | lam {b c : Nameless} : Fills b c → Fills (.lam b) (.lam c)
  | const (n : String) (e : Nameless) : Fills (.const n e) (.const n e)

namespace Nameless

theorem Fills.refl (t : Nameless) : Fills t t := by
  induction t with
  | bound i => exact .bound i
  | free x => exact .free x
  | app f a ihf iha => exact .app ihf iha
  | lam b ih => exact .lam ih
  | const n e => exact .const n e

theorem fills_app {f g a b : Nameless} : Fills (.app f a) (.app g b) ↔ Fills f g ∧ Fills a b := by
  constructor
  · rintro (_ | _ | _ | ⟨hf, ha⟩)
    exact ⟨hf, ha⟩
  · rintro ⟨hf, ha⟩
    exact .app hf ha

theorem fills_lam {b c : Nameless} : Fills (.lam b) (.lam c) ↔ Fills b c := by
  constructor
  · rintro (_ | _ | _ | _ | hb)
    exact hb
  · exact .lam

end Nameless

namespace Term

open Nameless

variable {t p : Term} {T : Nameless} {bound bound' : List String}

/-- **Without placeholders there is nothing to fill in.** -/
theorem fills_namelessIn_iff (hp : "..." ∉ p.freeVars) (hbinders : "..." ∉ p.binders)
    (scope : List String) : T.Fills (p.namelessIn scope) ↔ T = p.namelessIn scope := by
  refine ⟨fun h => ?_, fun h => h ▸ .refl T⟩
  induction p generalizing T scope with
  | var y =>
    rw [freeVars, List.mem_singleton] at hp
    rw [namelessIn] at h ⊢
    cases hd : binderDepth scope y with
    | some i =>
      simp only [hd] at h ⊢
      cases h
      rfl
    | none =>
      simp only [hd] at h ⊢
      cases h with
      | wildcard => exact absurd rfl hp
      | free => rfl
  | app g b ihg ihb =>
    rw [mem_freeVars_app, not_or] at hp
    rw [binders, List.mem_append, not_or] at hbinders
    rw [namelessIn] at h ⊢
    cases h with
    | app hg hb => rw [ihg hp.1 hbinders.1 scope hg, ihb hp.2 hbinders.2 scope hb]
  | abs y c ih =>
    rw [binders, List.mem_cons, not_or] at hbinders
    rw [mem_freeVars_abs, not_and_or, not_not] at hp
    rw [namelessIn] at h ⊢
    cases h with
    | lam hc => rw [ih (hp.resolve_right fun h => hbinders.1 h) hbinders.2 _ hc]
  | ref n e =>
    rw [namelessIn] at h ⊢
    cases h
    rfl

/-- Two variables agree if they have one nameless form, each under its binders. -/
theorem agrees_var_iff {x y : String} : (var x).agrees (var y) bound bound' = true ↔
    (var x).namelessIn bound = (var y).namelessIn bound' := by
  rw [agrees, namelessIn, namelessIn]
  cases binderDepth bound x <;> cases binderDepth bound' y <;> simp

/-- Facing any other variable a term stays as it is. -/
theorem collapse_var {y : String} (hy : y ≠ "...") (t : Term) : t.collapse (var y) = t := by
  cases t <;> simp [collapse, dots, hy]

/-- **What the two passes find out**, under any binders but placeholders. -/
theorem agrees_collapse_iff (ht : t.references = []) (hp : p.references = [])
    (htb : "..." ∉ t.binders) (hpb : "..." ∉ p.binders) (hbound : "..." ∉ bound)
    (hbound' : "..." ∉ bound') : (t.collapse p).agrees p bound bound' = true ↔
      (t.namelessIn bound).Fills (p.namelessIn bound') := by
  induction p generalizing t bound bound' with
  | var y =>
    by_cases hy : y = "..."
    · obtain rfl : y = "..." := hy
      rw [← dots, collapse_dots, dots, namelessIn, binderDepth_eq_none_iff.mpr hbound']
      exact iff_of_true (agrees_dots hbound hbound') (.wildcard _)
    · rw [collapse_var hy, fills_namelessIn_iff (by simpa [freeVars] using Ne.symm hy) hpb]
      cases t with
      | var x => exact agrees_var_iff
      | ref n e => exact absurd ht (List.cons_ne_nil n [])
      | _ =>
        rw [agrees, namelessIn, namelessIn]
        cases binderDepth bound' y <;> simp
  | app g b ihg ihb =>
    rw [references_app] at hp
    rw [binders, List.mem_append, not_or] at hpb
    cases t with
    | app f a =>
      rw [references_app] at ht
      rw [binders, List.mem_append, not_or] at htb
      rw [collapse, agrees, Bool.and_eq_true, namelessIn, namelessIn, fills_app,
        ihg ht.1 hp.1 htb.1 hpb.1 hbound hbound', ihb ht.2 hp.2 htb.2 hpb.2 hbound hbound']
    | ref n e => exact absurd ht (List.cons_ne_nil n [])
    | var x =>
      refine iff_of_false (by simp [collapse, dots, agrees]) ?_
      rw [namelessIn, namelessIn]
      cases binderDepth bound x <;> rintro ⟨⟩
    | abs x c => exact iff_of_false (by simp [collapse, dots, agrees]) (by rintro ⟨⟩)
  | abs y c ih =>
    rw [binders, List.mem_cons, not_or] at hpb
    cases t with
    | abs x b =>
      rw [binders, List.mem_cons, not_or] at htb
      rw [collapse, agrees, namelessIn, namelessIn, fills_lam]
      exact ih ht hp htb.2 hpb.2 (by simp [htb.1, hbound]) (by simp [hpb.1, hbound'])
    | ref n e => exact absurd ht (List.cons_ne_nil n [])
    | var x =>
      refine iff_of_false (by simp [collapse, dots, agrees]) ?_
      rw [namelessIn, namelessIn]
      cases binderDepth bound x <;> rintro ⟨⟩
    | app f a => exact iff_of_false (by simp [collapse, dots, agrees]) (by rintro ⟨⟩)
  | ref n e => exact absurd hp (List.cons_ne_nil n [])

/-! ### Matching -/

/-- **Matching is equality with wildcards** of nameless forms, for terms and patterns without
references and without a binder that is named like the placeholder. Where the pattern has no
placeholder it is equality of nameless forms: equality up to the names of binders, whatever they
are, where free variables keep their names. -/
theorem matchesPattern_iff_fills (ht : t.references = []) (hp : p.references = [])
    (htb : "..." ∉ t.binders) (hpb : "..." ∉ p.binders) :
    (t.matchesPattern p = true ↔ t.nameless.Fills p.nameless) ∧
      ("..." ∉ p.freeVars →
        (t.matchesPattern p = true ↔ t.nameless = p.nameless) ∧
        (t.matchesPattern p = true ↔ Relation.EqvGen RenamesBinder t p)) := by
  have hfills : t.matchesPattern p = true ↔ t.nameless.Fills p.nameless :=
    agrees_collapse_iff ht hp htb hpb List.not_mem_nil List.not_mem_nil
  refine ⟨hfills, fun hdots => ?_⟩
  have hequal : t.matchesPattern p = true ↔ t.nameless = p.nameless :=
    hfills.trans (fills_namelessIn_iff hdots hpb [])
  exact ⟨hequal, hequal.trans (nameless_eq_iff ht hp)⟩

/-- A term with a hidden name and a placeholder of its own. -/
def hidingTerm : Term :=
  .abs "x" (.app (.app (.abs "x" (.var "x")) (.var "y")) (.app dots (.var "x")))

/-- A free variable of the term is named like a binder of the pattern, and its placeholder is
part of what the one of the pattern stands for; left alone it is a free variable. -/
theorem matchesPattern_iff_fills_hidingTerm :
    let p : Term := .abs "z" (.app (.app (.abs "y" (.var "y")) (.var "y")) dots)
    let q : Term :=
      .abs "z" (.app (.app (.abs "y" (.var "y")) (.var "y")) (.app (.var "w") (.var "z")))
    let t : Term := hidingTerm.replaceAt [.body, .right, .left] (.var "w")
    (hidingTerm.references = [] ∧ t.references = [] ∧ p.references = [] ∧ q.references = []) ∧
      ("..." ∉ hidingTerm.binders ∧ "..." ∉ t.binders ∧ "..." ∉ p.binders ∧ "..." ∉ q.binders) ∧
      "..." ∉ q.freeVars ∧ hidingTerm.matchesPattern p = true ∧
      hidingTerm.matchesPattern q = false ∧ t.matchesPattern q = true ∧
      Relation.EqvGen RenamesBinder t q := by
  intro p q t
  have hp := matchesPattern_iff_fills (t := hidingTerm) (p := p) rfl rfl (by decide) (by decide)
  have hq := matchesPattern_iff_fills (t := hidingTerm) (p := q) rfl rfl (by decide) (by decide)
  have ht := matchesPattern_iff_fills (t := t) (p := q) rfl rfl (by decide) (by decide)
  have hdots : "..." ∉ q.freeVars := by decide
  have hmatch : t.matchesPattern q = true := (ht.2 hdots).1.mpr (by decide)
  refine ⟨⟨rfl, rfl, rfl, rfl⟩, ⟨by decide, by decide, by decide, by decide⟩, hdots, ?_, ?_,
    hmatch, (ht.2 hdots).2.mp hmatch⟩
  · exact hp.1.mpr (.lam (.app (.app (.lam (.bound 0)) (.free "y")) (.wildcard _)))
  · rw [← Bool.not_eq_true, (hq.2 hdots).1]
    decide

end Term

end LambdaTrace
