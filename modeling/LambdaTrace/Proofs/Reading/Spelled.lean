import LambdaTrace.Proofs.Reading.Resolution
import LambdaTrace.Proofs.Reduction.Steps
import LambdaTrace.Proofs.Substitution.FreshName

/-!
# Names in runs

A term that was read has names which the grammar knows, and so has every term that is
reached from it by steps: names are passed on, taken from what a reference stands for, or
generated, and a generated name is a word with digits behind it
(`LambdaTrace.Term.Spelled.next`). So what is printed in the course of a run can be read
wherever the macros in it are known (`LambdaTrace.Term.Spelled.parse_pretty`). What is read
back has the same names, but its references may stand for something else by then.
-/

namespace LambdaTrace

/-- A generated name is a word. -/
theorem IsWord.freshName {y : String} (h : IsWord isVarChar y) (taken : List String) :
    IsWord isVarChar (freshName y taken) := by
  obtain ⟨ds, -, hdigits, heq⟩ := extends_freshName y taken
  have hdigit : ∀ c ∈ ds, isVarChar c = true := by
    intro c hc
    have hrange : 48 ≤ c.toNat ∧ c.toNat ≤ 57 := by
      simpa [Char.isDigit, UInt32.le_iff_toNat_le] using hdigits c hc
    exact isVarChar_iff.mpr (Or.inr hrange)
  rw [IsWord, heq]
  refine ⟨List.append_ne_nil_of_left_ne_nil h.1 ds, List.all_eq_true.mpr fun c hc => ?_⟩
  rcases List.mem_append.mp hc with hc | hc
  · exact h.of_mem hc
  · exact hdigit c hc

namespace Term

/-- **Whether the names of a term are words**, but for placeholders, and the macros in it are
known. This includes what references stand for. -/
def Spelled (known : String → Prop) : Term → Prop
  | .var x => x = "..." ∨ IsWord isVarChar x
  | .app f a => f.Spelled known ∧ a.Spelled known
  | .abs x b => IsWord isVarChar x ∧ b.Spelled known
  | .ref n t => (IsWord isMacroChar n ∧ known n) ∧ t.Spelled known

variable {resolve : String → Option Term} {known known' : String → Prop} {t b v : Term}
  {x : String}

/-! ### Where such terms come from -/

/-- What is read is spelled, if what names are resolved to is. -/
theorem Readable.spelled (h : t.Readable resolve)
    (hrefs : ∀ n ∈ t.references, ∀ e, resolve n = some e → known n ∧ e.Spelled known) :
    t.Spelled known := by
  induction t with
  | var x => exact h
  | app f a ihf iha =>
    exact ⟨ihf h.1 fun n hn => hrefs n (mem_references_app.mpr (Or.inl hn)),
      iha h.2 fun n hn => hrefs n (mem_references_app.mpr (Or.inr hn))⟩
  | abs x b ih => exact ⟨h.1, ih h.2 hrefs⟩
  | ref n t =>
    obtain ⟨hn, ht⟩ := hrefs n (List.mem_singleton_self n) t h.2
    exact ⟨⟨h.1, hn⟩, ht⟩

theorem Spelled.mono (hknown : ∀ n, known n → known' n) (h : t.Spelled known) :
    t.Spelled known' := by
  induction t with
  | var x => exact h
  | app f a ihf iha => exact ⟨ihf h.1, iha h.2⟩
  | abs x b ih => exact ⟨h.1, ih h.2⟩
  | ref n t ih => exact ⟨⟨h.1.1, hknown n h.1.2⟩, ih h.2⟩

/-- **Substitution keeps names words**, the generated ones among them. -/
theorem Spelled.substitute (hb : b.Spelled known) (hv : v.Spelled known) :
    (substitute b v x).1.Spelled known := by
  induction b, v, x using substitute_induction with
  | var y v x =>
    rw [substitute_var]
    by_cases hyx : y = x
    · rw [if_pos hyx]
      exact hv
    · rw [if_neg hyx]
      exact hb
  | app f a v x ihf iha =>
    rw [substitute_app]
    exact ⟨ihf hb.1 hv, iha hb.2 hv⟩
  | ref n t v x =>
    rw [substitute_ref]
    exact hb
  | shadowed b v x =>
    rw [substitute_shadowed]
    exact hb
  | kept y b v x hyx hy ih =>
    rw [substitute_kept hyx hy]
    exact ⟨hb.1, ih hb.2 hv⟩
  | renamed y b v x hyx hy ihb ih =>
    have hfresh : IsWord isVarChar (freshName y v.freeVars) := hb.1.freshName v.freeVars
    rw [substitute_renamed hyx hy]
    exact ⟨hfresh, ih (ihb hb.2 (Or.inr hfresh)) hv⟩

/-- **Every step keeps names words.** -/
theorem Spelled.next {s : Step} (h : Admits t s) (ht : t.Spelled known) :
    s.next.Spelled known := by
  induction h with
  | contract x b a => exact ht.1.2.substitute ht.2
  | expandFn n t a => exact ⟨ht.1.2, ht.2⟩
  | expandArg f n g h => exact ⟨ht.1, ht.2.2⟩
  | fn a _ ih => exact ⟨ih ht.1, ht.2⟩
  | arg f _ ih => exact ⟨ht.1, ih ht.2⟩
  | body x _ ih => exact ⟨ht.1, ih ht.2⟩

/-! ### Reading what such terms are printed as -/

/-- Resolved anew, a term whose names are words can be read. -/
theorem Spelled.readable_resolveBy (h : t.Spelled known)
    (hresolve : ∀ n, known n → (resolve n).isSome = true) :
    (t.resolveBy resolve).Readable resolve := by
  induction t with
  | var x => exact h
  | app f a ihf iha => exact ⟨ihf h.1, iha h.2⟩
  | abs x b ih => exact ⟨h.1, ih h.2⟩
  | ref n t =>
    obtain ⟨e, he⟩ := Option.isSome_iff_exists.mp (hresolve n h.1.2)
    exact ⟨h.1.1, by rw [he, Option.getD_some]⟩

/-- **What is printed can be read** where its macros are known, and is the same term but for
what the references stand for. -/
theorem Spelled.parse_pretty (h : t.Spelled known)
    (hresolve : ∀ n, known n → (resolve n).isSome = true) :
    parse resolve t.pretty = .ok (t.resolveBy resolve) := by
  rw [← pretty_resolveBy resolve t]
  exact parse_pretty_of_readable (h.readable_resolveBy hresolve)

end Term

end LambdaTrace
