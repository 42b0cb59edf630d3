import LambdaTrace.Proofs.Nameless.Alpha
import LambdaTrace.Proofs.Reduction.Steps
import LambdaTrace.Proofs.Substitution.Unextended
import LambdaTrace.Term.Match
import LambdaTrace.Term.Path

/-!
# Leaving out parts of a pattern

A pattern that matches a term still matches when some of its parts are replaced by
placeholders, if the parts of the term that they stand for are there. But matching has two
passes, and only the second one looks through references: it compares what a reference of the
term stands for with the pattern, after the first pass has left the reference alone because it
is not of the pattern's shape. A placeholder that was left in there is a free variable to the
second pass, and what a reference stands for has none
(`LambdaTrace.Term.mem_freeVars_of_agrees`). So the elided pattern matches if and only if the
term has a part, outside its references, at every place where the pattern has a placeholder
(`LambdaTrace.Term.matchesPattern_elide`); and a part can be left out of a matching pattern so
that it no longer matches (`LambdaTrace.Term.exists_not_matchesPattern_elide`).
-/

namespace LambdaTrace

namespace Term

/-- **A term with parts left out**: the parts at some positions, one after the other. -/
def elide (p : Term) (paths : List Path) : Term :=
  paths.foldl (fun q path => q.replaceAt path dots) p

/-- Whether a term is another one with parts left out, by the constructors. -/
inductive Elides : Term → Term → Prop
  | dots (p : Term) : Elides p dots
  | var (x : String) : Elides (.var x) (.var x)
  | app {f f' a a' : Term} : Elides f f' → Elides a a' → Elides (.app f a) (.app f' a')
  | abs {b b' : Term} (x : String) : Elides b b' → Elides (.abs x b) (.abs x b')
  | ref (n : String) (e : Term) : Elides (.ref n e) (.ref n e)

variable {t p p' q u : Term} {bound bound' : List String} {n x : String}

/-! ### Parts that are left out -/

namespace Elides

theorem refl (p : Term) : Elides p p := by
  induction p with
  | var x => exact .var x
  | app f a ihf iha => exact .app ihf iha
  | abs x b ih => exact .abs x ih
  | ref n e => exact .ref n e

theorem trans (h : Elides p q) (h' : Elides q u) : Elides p u := by
  induction h generalizing u with
  | dots p =>
    cases h' with
    | dots => exact .dots p
    | var => exact .dots p
  | var x => exact h'
  | app _ _ ihf iha =>
    cases h' with
    | dots => exact .dots _
    | app hf ha => exact .app (ihf hf) (iha ha)
  | abs x _ ih =>
    cases h' with
    | dots => exact .dots _
    | abs _ hb => exact .abs x (ih hb)
  | ref n e => exact h'

theorem replaceAt (p : Term) (path : Path) : Elides p (p.replaceAt path Term.dots) := by
  induction p generalizing path with
  | app f a ihf iha =>
    rcases path with _ | ⟨_ | _ | _, path⟩
    · exact .dots _
    · exact .app (ihf path) (.refl a)
    · exact .app (.refl f) (iha path)
    · exact .refl _
  | abs x b ih =>
    rcases path with _ | ⟨_ | _ | _, path⟩
    · exact .dots _
    · exact .refl _
    · exact .refl _
    · exact .abs x (ih path)
  | _ =>
    rcases path with _ | ⟨turn, path⟩
    · exact .dots _
    · rw [replaceAt_cons_of_children_eq_nil rfl]
      exact .refl _

theorem elide (p : Term) (paths : List Path) : Elides p (p.elide paths) := by
  induction paths generalizing p with
  | nil => exact .refl p
  | cons path paths ih => exact (replaceAt p path).trans (ih _)

/-- No binder comes in. -/
theorem mem_binders (h : Elides p p') (hx : x ∈ p'.binders) : x ∈ p.binders := by
  induction h with
  | dots p => cases hx
  | var y => exact hx
  | app _ _ ihf iha =>
    exact List.mem_append.mpr ((List.mem_append.mp hx).imp ihf iha)
  | abs y _ ih =>
    exact List.mem_cons.mpr ((List.mem_cons.mp hx).imp_right ih)
  | ref n e => exact hx

end Elides

/-! ### Places of placeholders -/

/-- **Whether a term has a part at every place** where a pattern has a placeholder. -/
def HasPlaces (t p : Term) : Prop :=
  ∀ path, p.at? path = some dots → (t.at? path).isSome = true

theorem hasPlaces_app {f a g b : Term} :
    (app f a).HasPlaces (app g b) ↔ f.HasPlaces g ∧ a.HasPlaces b := by
  constructor
  · exact fun h => ⟨fun path hp => h (.left :: path) hp, fun path hp => h (.right :: path) hp⟩
  · rintro ⟨hf, ha⟩ (_ | ⟨_ | _ | _, path⟩) hp
    · cases hp
    · exact hf path hp
    · exact ha path hp
    · cases hp

theorem hasPlaces_abs {b c : Term} {y : String} :
    (abs x b).HasPlaces (abs y c) ↔ b.HasPlaces c := by
  constructor
  · exact fun h path hp => h (.body :: path) hp
  · rintro h (_ | ⟨_ | _ | _, path⟩) hp
    · cases hp
    · cases hp
    · cases hp
    · exact h path hp

/-- What has no parts stands wherever it is compared. -/
theorem hasPlaces_of_children_eq_nil (t : Term) (hp : p.children = []) : t.HasPlaces p := by
  rintro (_ | ⟨turn, path⟩) h
  · rw [at?_nil]
    rfl
  · rw [at?_cons_of_children_eq_nil hp] at h
    cases h

/-- In a reference there is no place for a placeholder but the whole. -/
theorem hasPlaces_ref_iff {e : Term} (hp : p ≠ dots) :
    (ref n e).HasPlaces p ↔ ∀ path, p.at? path ≠ some dots := by
  constructor
  · rintro h (_ | ⟨turn, path⟩) hpath
    · rw [at?_nil] at hpath
      exact hp (Option.some.inj hpath)
    · have hplace := h _ hpath
      rw [at?_cons_of_children_eq_nil rfl] at hplace
      cases hplace
  · exact fun h path hpath => absurd hpath (h path)

/-- A pattern without placeholders is one that nothing was left out of. -/
theorem Elides.eq_of_no_dots (h : Elides p p') (hnone : ∀ path, p'.at? path ≠ some Term.dots) :
    p' = p := by
  induction h with
  | dots p => exact absurd rfl (hnone [])
  | var x => rfl
  | app _ _ ihf iha =>
    rw [ihf fun path => hnone (.left :: path), iha fun path => hnone (.right :: path)]
  | abs x _ ih => rw [ih fun path => hnone (.body :: path)]
  | ref n e => rfl

/-- A placeholder is a free variable, unless a binder has its name. -/
theorem dots_mem_freeVars {path : Path} (h : p.at? path = some dots) (hp : "..." ∉ p.binders) :
    "..." ∈ p.freeVars := by
  induction p generalizing path with
  | app f a ihf iha =>
    rw [binders, List.mem_append, not_or] at hp
    rcases path with _ | ⟨_ | _ | _, path⟩
    · cases h
    · exact mem_freeVars_app.mpr (Or.inl (ihf h hp.1))
    · exact mem_freeVars_app.mpr (Or.inr (iha h hp.2))
    · cases h
  | abs x b ih =>
    rw [binders, List.mem_cons, not_or] at hp
    rcases path with _ | ⟨_ | _ | _, path⟩
    · cases h
    · cases h
    · cases h
    · exact mem_freeVars_abs.mpr ⟨ih h hp.2, hp.1⟩
  | var x =>
    rcases path with _ | ⟨turn, path⟩
    · cases h
      exact List.mem_singleton_self _
    · cases turn <;> cases h
  | ref n e =>
    rcases path with _ | ⟨turn, path⟩
    · cases h
    · cases turn <;> cases h

/-! ### The two passes -/

/-- **Terms that agree have the same free variables**, also in what is looked through. -/
theorem mem_freeVars_of_agrees (h : t.agrees p bound bound' = true) (hx : x ∈ p.freeVars)
    (hbound : x ∉ bound') : x ∈ t.unfold.freeVars ∧ x ∉ bound := by
  fun_induction agrees t p bound bound' with
  | case2 _ _ _ _ _ ih | case3 _ _ _ _ _ _ ih | case4 _ _ _ _ _ _ ih => exact ih h hx hbound
  | case8 y z bound bound' hy =>
    -- a variable that is bound on one side only does not agree
    obtain rfl := List.mem_singleton.mp hx
    obtain ⟨hyx, -⟩ := Bool.and_eq_true_iff.mp h
    obtain rfl := eq_of_beq hyx
    exact ⟨List.mem_singleton_self _, binderDepth_eq_none_iff.mp hy⟩
  | case9 y z bound bound' d hd =>
    obtain rfl := List.mem_singleton.mp hx
    rw [binderDepth_eq_none_iff.mpr hbound] at h
    cases h
  | case10 f a g b bound bound' ihf iha =>
    obtain ⟨hf, ha⟩ := Bool.and_eq_true_iff.mp h
    rcases mem_freeVars_app.mp hx with hx | hx
    · obtain ⟨hmem, hfree⟩ := ihf hf hx hbound
      exact ⟨mem_freeVars_app.mpr (Or.inl hmem), hfree⟩
    · obtain ⟨hmem, hfree⟩ := iha ha hx hbound
      exact ⟨mem_freeVars_app.mpr (Or.inr hmem), hfree⟩
  | case11 y b z c bound bound' ih =>
    obtain ⟨hmem, hne⟩ := mem_freeVars_abs.mp hx
    obtain ⟨hfree, hcons⟩ := ih h hmem (by simp [hne, hbound])
    rw [List.mem_cons, not_or] at hcons
    exact ⟨mem_freeVars_abs.mpr ⟨hfree, hcons.1⟩, hcons.2⟩
  | case1 | case5 | case6 | case7 => cases hx
  | case12 | case13 | case14 | case15 | case16 | case17 => cases h

/-- **What a reference stands for agrees with no placeholder**: with parts left out, a pattern
agrees with a reference only if nothing was. -/
theorem agrees_ref_elides_iff {e : Term} (hrefs : (ref n e).refsClosed = true)
    (hp : "..." ∉ p.binders) (hbound : "..." ∉ bound') (hp' : p' ≠ dots) (h : Elides p p')
    (hagrees : (ref n e).agrees p bound bound' = true) :
    (ref n e).agrees p' bound bound' = true ↔ (ref n e).HasPlaces p' := by
  rw [hasPlaces_ref_iff hp']
  constructor
  · intro hagrees' path hpath
    -- the placeholder would be free in what the reference stands for, which is closed
    have hfree : "..." ∈ p'.freeVars :=
      dots_mem_freeVars hpath fun hmem => hp (h.mem_binders hmem)
    obtain ⟨hmem, -⟩ := mem_freeVars_of_agrees hagrees' hfree hbound
    exact absurd ((mem_freeVars_unfold hrefs).mp hmem) List.not_mem_nil
  · intro hnone
    rw [h.eq_of_no_dots hnone]
    exact hagrees

/-- A pattern that is not a placeholder leaves a reference alone. -/
theorem collapse_ref {e : Term} (hp : p ≠ dots) : (ref n e).collapse p = ref n e := by
  simp [collapse, hp]

/-- Whatever faces a placeholder becomes one. -/
theorem collapse_dots (t : Term) : t.collapse dots = dots := by
  cases t <;> simp [collapse, dots]

theorem agrees_dots (hbound : "..." ∉ bound) (hbound' : "..." ∉ bound') :
    dots.agrees dots bound bound' = true := by
  rw [dots, agrees, binderDepth_eq_none_iff.mpr hbound, binderDepth_eq_none_iff.mpr hbound']
  rfl

/-- **Where a pattern agrees, an elided one does** if and only if the term has parts in the
places of its placeholders. -/
theorem agrees_collapse_elides_iff (h : Elides p p') (hrefs : t.refsClosed = true)
    (ht : "..." ∉ t.binders) (hp : "..." ∉ p.binders) (hbound : "..." ∉ bound)
    (hbound' : "..." ∉ bound') (hagrees : (t.collapse p).agrees p bound bound' = true) :
    (t.collapse p').agrees p' bound bound' = true ↔ t.HasPlaces p' := by
  induction h generalizing t bound bound' with
  | dots p =>
    rw [collapse_dots]
    exact iff_of_true (agrees_dots hbound hbound') (hasPlaces_of_children_eq_nil t rfl)
  | var x => exact iff_of_true hagrees (hasPlaces_of_children_eq_nil t rfl)
  | ref n e => exact iff_of_true hagrees (hasPlaces_of_children_eq_nil t rfl)
  | @app g g' b b' hg hb ihg ihb =>
    cases t with
    | var x => simp [collapse, agrees, Term.dots] at hagrees
    | abs x c => simp [collapse, agrees, Term.dots] at hagrees
    | ref n e =>
      rw [collapse_ref (by simp [Term.dots])] at hagrees ⊢
      exact agrees_ref_elides_iff hrefs hp hbound' (by simp [Term.dots]) (hg.app hb) hagrees
    | app f a =>
      rw [refsClosed_app] at hrefs
      rw [binders, List.mem_append, not_or] at ht hp
      rw [collapse, agrees, Bool.and_eq_true] at hagrees
      rw [collapse, agrees, Bool.and_eq_true, hasPlaces_app,
        ihg hrefs.1 ht.1 hp.1 hbound hbound' hagrees.1,
        ihb hrefs.2 ht.2 hp.2 hbound hbound' hagrees.2]
  | @abs c c' y hc ih =>
    cases t with
    | var x => simp [collapse, agrees, Term.dots] at hagrees
    | app f a => simp [collapse, agrees, Term.dots] at hagrees
    | ref n e =>
      rw [collapse_ref (by simp [Term.dots])] at hagrees ⊢
      exact agrees_ref_elides_iff hrefs hp hbound' (by simp [Term.dots]) (hc.abs y) hagrees
    | abs x b =>
      rw [refsClosed_abs] at hrefs
      rw [binders, List.mem_cons, not_or] at ht hp
      rw [collapse, agrees] at hagrees
      rw [collapse, agrees, hasPlaces_abs]
      exact ih hrefs ht.2 hp.2 (by simp [ht.1, hbound]) (by simp [hp.1, hbound']) hagrees

/-! ### Matching -/

/-- **Leaving out parts of a matching pattern.** Where a term matches a pattern, and parts of
the pattern at any positions are replaced by placeholders, the term matches what remains if and
only if it has a part, outside its references, at every place of a placeholder. -/
theorem matchesPattern_elide (t p : Term) (paths : List Path) (hrefs : t.refsClosed = true)
    (ht : "..." ∉ t.binders) (hp : "..." ∉ p.binders) (hmatch : t.matchesPattern p = true) :
    t.matchesPattern (p.elide paths) = true ↔
      ∀ path, (p.elide paths).at? path = some dots → (t.at? path).isSome = true :=
  agrees_collapse_elides_iff (.elide p paths) hrefs ht hp List.not_mem_nil List.not_mem_nil hmatch

/-- A reference to the identity. -/
def identityRef : Term :=
  .ref "ID" (.abs "x" (.var "x"))

/-- A reference and a variable are left out of a pattern with another binder. -/
theorem matchesPattern_elide_reference :
    let t : Term := .app identityRef (.abs "x" (.app (.var "x") (.var "y")))
    let p : Term := .app identityRef (.abs "z" (.app (.var "z") (.var "y")))
    let p' : Term := .app dots (.abs "z" (.app dots (.var "y")))
    t.refsClosed = true ∧ "..." ∉ t.binders ∧ "..." ∉ p.binders ∧ t.matchesPattern p = true ∧
      p.elide [[.left], [.right, .body, .left]] = p' ∧ t.matchesPattern p' = true := by
  intro t p p'
  have hmatch : t.matchesPattern p = true := by
    simp [t, p, matchesPattern, identityRef, collapse, agrees, dots, binderDepth, List.idxOf?_cons]
  have hplaces : t.HasPlaces p' :=
    hasPlaces_app.mpr ⟨hasPlaces_of_children_eq_nil _ rfl, hasPlaces_abs.mpr
      (hasPlaces_app.mpr ⟨hasPlaces_of_children_eq_nil _ rfl, hasPlaces_of_children_eq_nil _ rfl⟩)⟩
  exact ⟨rfl, by decide, by decide, hmatch, rfl, (matchesPattern_elide t p
    [[.left], [.right, .body, .left]] rfl (by decide) (by decide) hmatch).mpr hplaces⟩

/-- **Leaving out a part can spoil a match**: a reference to the identity matches the identity,
but not the identity with its body left out. -/
theorem exists_not_matchesPattern_elide :
    let p : Term := .abs "x" (.var "x")
    identityRef.refsClosed = true ∧ p.refsClosed = true ∧ "..." ∉ identityRef.binders ∧
      "..." ∉ p.binders ∧ p.elide [[.body]] = .abs "x" dots ∧
      identityRef.matchesPattern p = true ∧ identityRef.matchesPattern (.abs "x" dots) = false := by
  refine ⟨rfl, rfl, by decide, by decide, rfl, ?_, ?_⟩
  · simp [matchesPattern, identityRef, collapse, agrees, dots, binderDepth]
  · simp [matchesPattern, identityRef, collapse, agrees, dots, binderDepth, List.idxOf?_cons]

end Term

end LambdaTrace
