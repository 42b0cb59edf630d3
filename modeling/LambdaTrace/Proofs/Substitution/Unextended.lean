import LambdaTrace.Proofs.Substitution.Copies

/-!
# Names that do not extend one another

A generated name extends the name of a binder. So if no name that is used in a body,
nor the variable substituted for, extends the name of a binder of the body, then no
generated name is one of them, and substitution is right whatever is inserted
(`LambdaTrace.Term.substitute_of_unextended`).

The assumption does not survive the renaming that substitution itself does: in
`λy. y (λy. y)` the outer binder may become `y0`, which extends the inner one. What
survives is its local form (`LambdaTrace.Term.Unextended`), at each binder separately:
no name that is *free* in the body extends the binder's, and the binders below it
neither extend nor are extended by it, but may be the same. The generated name gets
past a binder of the same name nowhere.
-/

namespace LambdaTrace

namespace Term

/-! ### The names of a term -/

/-- The names of the binders. What references stand for is not looked at. -/
def binders : Term → List String
  | .var _ => []
  | .app f a => f.binders ++ a.binders
  | .abs y b => y :: b.binders
  | .ref _ _ => []

/-- The names of the variables and of the binders. -/
def names : Term → List String
  | .var x => [x]
  | .app f a => f.names ++ a.names
  | .abs y b => y :: b.names
  | .ref _ _ => []

theorem mem_names_of_mem_binders {t : Term} {y : String} (h : y ∈ t.binders) : y ∈ t.names := by
  induction t with
  | var x => exact absurd h List.not_mem_nil
  | app f a ihf iha =>
    rcases List.mem_append.mp h with h | h
    · exact List.mem_append_left _ (ihf h)
    · exact List.mem_append_right _ (iha h)
  | abs x b ih =>
    rcases List.mem_cons.mp h with rfl | h
    · exact List.mem_cons_self
    · exact List.mem_cons_of_mem x (ih h)
  | ref n t => exact absurd h List.not_mem_nil

theorem mem_names_of_mem_freeVars {t : Term} {x : String} (h : x ∈ t.freeVars) :
    x ∈ t.names := by
  induction t with
  | var y => exact h
  | app f a ihf iha =>
    rcases mem_freeVars_app.mp h with h | h
    · exact List.mem_append_left _ (ihf h)
    · exact List.mem_append_right _ (iha h)
  | abs y b ih => exact List.mem_cons_of_mem y (ih (mem_freeVars_abs.mp h).1)
  | ref n t => exact absurd h List.not_mem_nil

/-! ### The local form -/

/-- **At each binder**, no free name of the body extends the binder's name, and no
binder of the body extends it or is extended by it. -/
def Unextended : Term → Prop
  | .var _ => True
  | .app f a => f.Unextended ∧ a.Unextended
  | .abs y b =>
    (∀ n ∈ b.freeVars, ¬Extends n y) ∧
      (∀ w ∈ b.binders, ¬Extends y w ∧ ¬Extends w y) ∧ b.Unextended
  | .ref _ _ => True

/-- Names that do not extend one another do not do so locally. -/
theorem unextended_of_names {t : Term} (h : ∀ y ∈ t.binders, ∀ n ∈ t.names, ¬Extends n y) :
    t.Unextended := by
  induction t with
  | var x => trivial
  | app f a ihf iha =>
    refine ⟨ihf fun y hy n hn => ?_, iha fun y hy n hn => ?_⟩
    · exact h y (List.mem_append_left _ hy) n (List.mem_append_left _ hn)
    · exact h y (List.mem_append_right _ hy) n (List.mem_append_right _ hn)
  | abs x b ih =>
    refine ⟨fun n hn => ?_, fun w hw => ⟨?_, ?_⟩, ih fun y hy n hn => ?_⟩
    · exact h x List.mem_cons_self n (List.mem_cons_of_mem x (mem_names_of_mem_freeVars hn))
    · exact h w (List.mem_cons_of_mem x hw) x List.mem_cons_self
    · exact h x List.mem_cons_self w (List.mem_cons_of_mem x (mem_names_of_mem_binders hw))
    · exact h y (List.mem_cons_of_mem x hy) n (List.mem_cons_of_mem x hn)
  | ref n t => trivial

/-! ### Renaming -/

section Renaming

variable {b : Term} {y z : String}

/-- The name generated for a binder is that of no binder below. -/
theorem notMem_binders_of_extends (hz : Extends z y)
    (hy : ∀ w ∈ b.binders, ¬Extends y w ∧ ¬Extends w y) : z ∉ b.binders :=
  fun h => (hy z h).2 hz

/-- Renaming to a name that no binder has renames no binder. -/
theorem binders_rename (hz : z ∉ b.binders) :
    (substitute b (.var z) y).1.binders = b.binders := by
  induction b with
  | var w =>
    rw [substitute_var]
    split <;> rfl
  | app f a ihf iha =>
    rw [binders, List.mem_append, not_or] at hz
    rw [substitute_app, binders, binders, ihf hz.1, iha hz.2]
  | abs w c ih =>
    rw [binders, List.mem_cons, not_or] at hz
    by_cases hwy : w = y
    · rw [hwy, substitute_shadowed]
    · have hw : w ∉ (var z).freeVars := by simpa [freeVars] using Ne.symm hz.1
      rw [substitute_kept hwy hw, binders, binders, ih hz.2]
  | ref n t => rw [substitute_ref]

/-- **Renaming keeps the local form**: the new name extends the old one, and the old
one extends no binder below. -/
theorem Unextended.rename (hb : b.Unextended) (hz : Extends z y)
    (hy : ∀ w ∈ b.binders, ¬Extends y w ∧ ¬Extends w y) :
    (substitute b (.var z) y).1.Unextended := by
  induction b with
  | var w =>
    rw [substitute_var]
    split <;> trivial
  | app f a ihf iha =>
    rw [substitute_app]
    exact ⟨ihf hb.1 fun w hw => hy w (List.mem_append_left _ hw),
      iha hb.2 fun w hw => hy w (List.mem_append_right _ hw)⟩
  | abs w c ih =>
    by_cases hwy : w = y
    · rw [hwy, substitute_shadowed, ← hwy]
      exact hb
    obtain ⟨hfree, hbinders, hc⟩ := hb
    have hzw : z ∉ (abs w c).binders := notMem_binders_of_extends hz hy
    rw [binders, List.mem_cons, not_or] at hzw
    have hw : w ∉ (var z).freeVars := by simpa [freeVars] using Ne.symm hzw.1
    have hyc : ∀ u ∈ c.binders, ¬Extends y u ∧ ¬Extends u y :=
      fun u hu => hy u (List.mem_cons_of_mem w hu)
    rw [substitute_kept hwy hw]
    refine ⟨fun n hn hnw => ?_, ?_, ih hc hyc⟩
    · rcases mem_freeVars_substitute hn with ⟨hn, -⟩ | hn
      · exact hfree n hn hnw
      · -- the new name would extend two binders, which are comparable then
        have hnz : n = z := by simpa [freeVars] using hn
        rcases hnw.comparable (hnz ▸ hz) with h | h | h
        · exact hwy h
        · exact (hy w List.mem_cons_self).2 h
        · exact (hy w List.mem_cons_self).1 h
    · rw [binders_rename hzw.2]
      exact hbinders
  | ref n t => rw [substitute_ref]; trivial

end Renaming

/-! ### Substitution -/

/-- **In the local form substitution is faithful**, whatever is inserted, provided that
the variable substituted for extends no binder. -/
theorem Unextended.faithful {b v : Term} {x : String} (hb : b.Unextended)
    (hx : ∀ y ∈ b.binders, ¬Extends x y) : Faithful b v x := by
  induction b, v, x using substitute_induction with
  | var y v x => exact .var y v x
  | app f a v x ihf iha =>
    exact .app (ihf hb.1 fun y hy => hx y (List.mem_append_left _ hy))
      (iha hb.2 fun y hy => hx y (List.mem_append_right _ hy))
  | ref n t v x => exact .ref n t v x
  | shadowed b v x => exact .shadowed b v x
  | kept y b v x hyx hy ih =>
    exact .kept hyx hy (ih hb.2.2 fun w hw => hx w (List.mem_cons_of_mem y hw))
  | renamed y b v x hyx hy ihb ih =>
    obtain ⟨hfree, hbinders, hb⟩ := hb
    have hz : Extends (freshName y v.freeVars) y := extends_freshName y v.freeVars
    have hsame := binders_rename (y := y) (notMem_binders_of_extends hz hbinders)
    -- the new name extends `y`, which no free name and not the variable does
    refine .renamed hyx hy (fun _ hzb => hfree _ hzb hz) (fun hzx => ?_)
      (ihb hb fun w hw => (hbinders w hw).1) (ih (hb.rename hz hbinders) fun w hw => ?_)
    · exact absurd (hzx ▸ hz) (hx y List.mem_cons_self)
    · exact hx w (List.mem_cons_of_mem y (hsame ▸ hw))

/-- **Substitution avoids capture where names do not extend one another**: if neither
the variable nor any name of the body extends the name of a binder of the body, the
result is that of substitution without names, and the copies are those of the free
occurrences. -/
theorem substitute_of_unextended {b : Term} {x : String}
    (h : ∀ y ∈ b.binders, ∀ n ∈ x :: b.names, ¬Extends n y) (v : Term) :
    (substitute b v x).1.nameless = b.nameless.substFree x v.nameless ∧
      (substitute b v x).2 = b.occurrences x ∧
      ∀ p ∈ (substitute b v x).2, (substitute b v x).1.at? p = some v := by
  have hb : b.Unextended :=
    unextended_of_names fun y hy n hn => h y hy n (List.mem_cons_of_mem x hn)
  have hf : Faithful b v x := hb.faithful fun y hy => h y hy x List.mem_cons_self
  exact ⟨hf.nameless_substitute, hf.copies_eq, fun p hp => at?_of_mem_substitute hp⟩

/-- A body with a binder that is renamed, and one of the same name below it. -/
def nestedBinders : Term :=
  .abs "y" (.app (.app (.var "x") (.var "y")) (.abs "y" (.app (.var "y") (.var "x"))))

theorem substitute_of_unextended_nestedBinders :
    (∀ y ∈ nestedBinders.binders, ∀ n ∈ "x" :: nestedBinders.names, ¬Extends n y) ∧
      (substitute nestedBinders (.var "y") "x").1.nameless =
        nestedBinders.nameless.substFree "x" (var "y").nameless ∧
      (substitute nestedBinders (.var "y") "x").2 = nestedBinders.occurrences "x" ∧
      ∀ p ∈ (substitute nestedBinders (.var "y") "x").2,
        (substitute nestedBinders (.var "y") "x").1.at? p = some (.var "y") := by
  have hnames : ∀ y ∈ nestedBinders.binders, ∀ n ∈ "x" :: nestedBinders.names,
      n.length ≤ y.length := by
    decide
  have h : ∀ y ∈ nestedBinders.binders, ∀ n ∈ "x" :: nestedBinders.names, ¬Extends n y :=
    fun y hy n hn hny => absurd hny.length_lt (not_lt.mpr (hnames y hy n hn))
  exact ⟨h, substitute_of_unextended h (.var "y")⟩

end Term

end LambdaTrace
