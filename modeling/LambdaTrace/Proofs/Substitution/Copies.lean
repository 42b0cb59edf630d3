import LambdaTrace.Proofs.Substitution.Faithful

/-!
# Where the copies are

Besides a term, substitution returns the positions of the copies it inserted. That a
copy stands at each of them is true of every substitution
(`LambdaTrace.Term.at?_of_mem_substitute`). That they are the positions of the free
occurrences, each once and from left to right, is a matter of faithfulness
(`LambdaTrace.Term.Faithful.copies_eq`): an occurrence that a renaming captures gets
no copy, and one that it brings about gets one too many.

A renaming does not change which occurrences of *another* variable are free. This is
seen on terms without names: under a valuation that keeps the one variable and makes
all others bound, the occurrences of the variable are the free ones of the result
(`LambdaTrace.Term.positions_under`), and a faithful renaming gives the same result.
-/

namespace LambdaTrace

open Nameless

namespace Nameless

/-! ### Positions without names -/

/-- The positions of a free variable, from left to right. -/
def positions (x : String) : Nameless → List Path
  | .bound _ => []
  | .free y => if y = x then [[]] else []
  | .app f a => (f.positions x).map (.left :: ·) ++ (a.positions x).map (.right :: ·)
  | .lam b => (b.positions x).map (.body :: ·)
  | .const _ _ => []

theorem positions_rename (x : String) (t : Nameless) (ξ : Nat → Nat) :
    (t.rename ξ).positions x = t.positions x := by
  induction t generalizing ξ with
  | app f a ihf iha => rw [rename, positions, positions, ihf, iha]
  | lam b ih => rw [rename, positions, positions, ih]
  | _ => rfl

/-- What a binder hides has no positions. -/
theorem positions_push (σ : String → Nameless) (x y z : String) :
    (push σ y z).positions x = if z = y then [] else (σ z).positions x := by
  by_cases h : z = y
  · rw [if_pos h, h, push_self, positions]
  · rw [if_neg h, push_of_ne h, shift, positions_rename]

end Nameless

namespace Term

/-! ### Occurrences -/

/-- **The free occurrences** of a variable, from left to right. -/
def occurrences (x : String) : Term → List Path
  | .var y => if y = x then [[]] else []
  | .app f a => (f.occurrences x).map (.left :: ·) ++ (a.occurrences x).map (.right :: ·)
  | .abs y b => if y = x then [] else (b.occurrences x).map (.body :: ·)
  | .ref _ _ => []

/-- A variable that no name stands for occurs nowhere. -/
theorem positions_under_eq_nil {σ : String → Nameless} {x : String}
    (h : ∀ y, (σ y).positions x = []) (t : Term) : (t.under σ).positions x = [] := by
  induction t generalizing σ with
  | var y => exact h y
  | app f a ihf iha =>
    rw [under, positions, ihf h, iha h]
    rfl
  | abs y b ih =>
    have hpush : ∀ z, (push σ y z).positions x = [] := by
      intro z
      rw [positions_push, h z, ite_self]
    rw [under, positions, ih hpush, List.map_nil]
  | ref n t => rfl

/-- **The occurrences of a variable** are its positions in the form of the term without
names, whatever is done with the other variables. -/
theorem positions_under {σ : String → Nameless} {x : String} (hx : (σ x).positions x = [[]])
    (h : ∀ y, y ≠ x → (σ y).positions x = []) (t : Term) :
    (t.under σ).positions x = t.occurrences x := by
  induction t generalizing σ with
  | var y =>
    rw [under, occurrences]
    by_cases hyx : y = x
    · rw [if_pos hyx, hyx]
      exact hx
    · rw [if_neg hyx]
      exact h y hyx
  | app f a ihf iha => rw [under, positions, ihf hx h, iha hx h, occurrences]
  | abs y b ih =>
    rw [under, positions, occurrences]
    by_cases hyx : y = x
    · -- below a binder of the variable no occurrence is free
      have hpush : ∀ z, (push σ y z).positions x = [] := by
        intro z
        rw [positions_push]
        by_cases hz : z = y
        · rw [if_pos hz]
        · rw [if_neg hz]
          exact h z (hyx ▸ hz)
      rw [if_pos hyx, positions_under_eq_nil hpush, List.map_nil]
    · have hpush : ∀ z, z ≠ x → (push σ y z).positions x = [] := by
        intro z hz
        rw [positions_push, h z hz, ite_self]
      have hxy : (push σ y x).positions x = [[]] := by
        rw [positions_push, if_neg (Ne.symm hyx)]
        exact hx
      rw [if_neg hyx, ih hxy hpush]
  | ref n t => rfl

/-! ### Copies -/

/-- **A copy stands at every position** that substitution returns. -/
theorem at?_of_mem_substitute {b v : Term} {x : String} {p : Path}
    (h : p ∈ (substitute b v x).2) : (substitute b v x).1.at? p = some v := by
  induction b, v, x using substitute_induction generalizing p with
  | var y v x =>
    rw [substitute_var] at h ⊢
    by_cases hyx : y = x
    · rw [if_pos hyx] at h ⊢
      rw [List.mem_singleton.mp h, at?]
    · rw [if_neg hyx] at h
      exact absurd h List.not_mem_nil
  | app f a v x ihf iha =>
    rw [substitute_app] at h ⊢
    rcases List.mem_append.mp h with h | h
    · obtain ⟨q, hq, rfl⟩ := List.mem_map.mp h
      exact ihf hq
    · obtain ⟨q, hq, rfl⟩ := List.mem_map.mp h
      exact iha hq
  | ref n t v x =>
    rw [substitute_ref] at h
    exact absurd h List.not_mem_nil
  | shadowed b v x =>
    rw [substitute_shadowed] at h
    exact absurd h List.not_mem_nil
  | kept y b v x hyx hy ih =>
    rw [substitute_kept hyx hy] at h ⊢
    obtain ⟨q, hq, rfl⟩ := List.mem_map.mp h
    exact ih hq
  | renamed y b v x hyx hy _ ih =>
    rw [substitute_renamed hyx hy] at h ⊢
    obtain ⟨q, hq, rfl⟩ := List.mem_map.mp h
    exact ih hq

namespace Faithful

variable {b v : Term} {x y z : String}

/-- A faithful renaming keeps the occurrences of another variable, provided that it
adds none to them. -/
theorem occurrences_rename (h : Faithful b (.var z) y) (hyx : y ≠ x)
    (hyb : z = x → y ∉ b.freeVars) :
    (substitute b (.var z) y).1.occurrences x = b.occurrences x := by
  -- the variable stays, every other one is bound
  let σ : String → Nameless := Function.update (fun _ => .bound 0) x (.free x)
  have hx : (σ x).positions x = [[]] := by simp [σ, positions]
  have hne : ∀ w, w ≠ x → σ w = .bound 0 := fun w hw => Function.update_of_ne hw ..
  have hpos : ∀ w, w ≠ x → (σ w).positions x = [] := by
    intro w hw
    rw [hne w hw, positions]
  rw [← positions_under hx hpos, ← positions_under hx hpos, h.under_substitute σ]
  -- unless it is the variable that stays, the new name is bound like the old one
  by_cases hz : z = x
  · rw [under_update_of_notMem (hyb hz)]
  · rw [under, hne z hz, ← hne y hyx, Function.update_eq_self]

/-- **A faithful substitution inserts one copy for each free occurrence**, in its
place. -/
theorem copies_eq (h : Faithful b v x) : (substitute b v x).2 = b.occurrences x := by
  induction h with
  | var y v x =>
    rw [substitute_var, occurrences]
    by_cases hyx : y = x
    · rw [if_pos hyx, if_pos hyx]
    · rw [if_neg hyx, if_neg hyx]
  | ref n t v x => rw [substitute_ref, occurrences]
  | app _ _ ihf iha => rw [substitute_app, occurrences, ihf, iha]
  | shadowed b v x => rw [substitute_shadowed, occurrences, if_pos rfl]
  | kept hyx hy _ ih => rw [substitute_kept hyx hy, occurrences, if_neg hyx, ih]
  | renamed hyx hy _ hyb hb _ _ ih =>
    rw [substitute_renamed hyx hy, occurrences, if_neg hyx, ih, hb.occurrences_rename hyx hyb]

end Faithful

end Term

end LambdaTrace
