import LambdaTrace.Macros.Definition
import LambdaTrace.Proofs.Reading.RoundTrip

/-!
# Reading under another resolution

What a text is read as depends on the macros only through what its references stand
for: if the names in it are known to two resolutions, it is read under both or under
neither, and as the same term but for what the references stand for
(`LambdaTrace.Term.parseFrom_resolveBy`). So a definition that was read once is read
under every strategy, and it is read again from its printed form in a table that has
the macros it refers to (`LambdaTrace.Term.parse_pretty_resolveBy`).
-/

namespace LambdaTrace

namespace Term

/-- The term with its references resolved anew. A reference to an unknown name stays
what it is. -/
def resolveBy (resolve : String → Option Term) : Term → Term
  | .var x => .var x
  | .app f a => .app (f.resolveBy resolve) (a.resolveBy resolve)
  | .abs x b => .abs x (b.resolveBy resolve)
  | .ref n t => .ref n ((resolve n).getD t)

/-- Whether all names a term refers to are known. -/
def Known (resolve : String → Option Term) (t : Term) : Prop :=
  ∀ n ∈ t.references, (resolve n).isSome = true

section References

variable {resolve resolve' : String → Option Term} {t f a b : Term} {n x : String}

theorem mem_references_app :
    n ∈ (app f a).references ↔ n ∈ f.references ∨ n ∈ a.references := by
  by_cases h : n ∈ f.references <;> simp [references, h]

theorem known_app : (app f a).Known resolve ↔ f.Known resolve ∧ a.Known resolve := by
  simp only [Known, mem_references_app, or_imp, forall_and]

theorem known_ref : (ref n t).Known resolve ↔ (resolve n).isSome = true := by
  simp [Known, references]

/-! ### What does not depend on the resolution -/

@[simp] theorem references_resolveBy (resolve : String → Option Term) (t : Term) :
    (t.resolveBy resolve).references = t.references := by
  induction t with
  | app f a ihf iha => rw [resolveBy, references, references, ihf, iha]
  | abs x b ih => exact ih
  | _ => rfl

@[simp] theorem freeVars_resolveBy (resolve : String → Option Term) (t : Term) :
    (t.resolveBy resolve).freeVars = t.freeVars := by
  induction t with
  | app f a ihf iha => rw [resolveBy, freeVars, freeVars, ihf, iha]
  | abs x b ih => rw [resolveBy, freeVars, freeVars, ih]
  | _ => rfl

@[simp] theorem isClosed_resolveBy (resolve : String → Option Term) (t : Term) :
    (t.resolveBy resolve).isClosed = t.isClosed := by
  rw [isClosed, isClosed, freeVars_resolveBy]

/-- **A term is printed alike**, whatever its references stand for. -/
@[simp] theorem pretty_resolveBy (resolve : String → Option Term) (t : Term) :
    (t.resolveBy resolve).pretty = t.pretty := by
  have hshape : ∀ t : Term, (t.resolveBy resolve).isAbs = t.isAbs ∧
      (t.resolveBy resolve).isApp = t.isApp := by
    intro t
    cases t <;> exact ⟨rfl, rfl⟩
  have hchars : (t.resolveBy resolve).chars = t.chars := by
    induction t with
    | app f a ihf iha =>
      rw [resolveBy, chars, chars, ihf, iha, (hshape f).1, (hshape a).1, (hshape a).2]
    | abs x b ih => rw [resolveBy, chars, chars, ih]
    | _ => rfl
  rw [pretty, pretty, hchars]

theorem resolveBy_congr (h : ∀ n ∈ t.references, resolve n = resolve' n) :
    t.resolveBy resolve = t.resolveBy resolve' := by
  induction t with
  | app f a ihf iha =>
    rw [resolveBy, resolveBy, ihf fun n hn => h n (mem_references_app.mpr (Or.inl hn)),
      iha fun n hn => h n (mem_references_app.mpr (Or.inr hn))]
  | abs x b ih => rw [resolveBy, resolveBy, ih h]
  | var x => rfl
  | ref n t => rw [resolveBy, resolveBy, h n (List.mem_singleton_self n)]

/-! ### Readable terms -/

theorem Readable.known (h : t.Readable resolve) : t.Known resolve := by
  induction t with
  | var x => exact fun n hn => absurd hn List.not_mem_nil
  | app f a ihf iha => exact known_app.mpr ⟨ihf h.1, iha h.2⟩
  | abs x b ih => exact ih h.2
  | ref n t => exact known_ref.mpr (Option.isSome_of_eq_some h.2)

/-- A readable term is resolved already. -/
theorem Readable.resolveBy_eq (h : t.Readable resolve) : t.resolveBy resolve = t := by
  induction t with
  | var x => rfl
  | app f a ihf iha => rw [resolveBy, ihf h.1, iha h.2]
  | abs x b ih => rw [resolveBy, ih h.2]
  | ref n t => rw [resolveBy, h.2, Option.getD_some]

/-- A readable term is readable wherever the names it refers to are known. -/
theorem Readable.resolveBy (h : t.Readable resolve) (hknown : t.Known resolve') :
    (t.resolveBy resolve').Readable resolve' := by
  induction t with
  | var x => exact h
  | app f a ihf iha =>
    obtain ⟨hf, ha⟩ := known_app.mp hknown
    exact ⟨ihf h.1 hf, iha h.2 ha⟩
  | abs x b ih => exact ⟨h.1, ih h.2 hknown⟩
  | ref n t =>
    obtain ⟨u, hu⟩ := Option.isSome_iff_exists.mp (known_ref.mp hknown)
    exact ⟨h.1, by rw [hu, Option.getD_some]⟩

/-- **Reading a printed term again**, where the names it refers to are known. -/
theorem parse_pretty_resolveBy (h : t.Readable resolve) (hknown : t.Known resolve') :
    parse resolve' t.pretty = .ok (t.resolveBy resolve') := by
  rw [← pretty_resolveBy resolve' t]
  exact parse_pretty_of_readable (h.resolveBy hknown)

/-- Terms that are printed alike refer to the same names. -/
theorem Readable.references_eq_of_pretty {u : Term} (ht : t.Readable resolve)
    (hu : u.Readable resolve') (h : t.pretty = u.pretty) : t.references = u.references := by
  -- both are read again from their text, under a resolution that knows all names
  let all : String → Option Term := fun _ => some dots
  have ht' : parse all t.pretty = .ok (t.resolveBy all) :=
    parse_pretty_resolveBy ht fun _ _ => rfl
  have hu' : parse all u.pretty = .ok (u.resolveBy all) :=
    parse_pretty_resolveBy hu fun _ _ => rfl
  rw [h, hu'] at ht'
  rw [← references_resolveBy all t, ← references_resolveBy all u, Except.ok.inj ht']

end References

/-! ### Reading a text again -/

section Reading

variable {resolve resolve' : String → Option Term} {t : Term}

/-- Whether a part is read under another resolution, the term being resolved anew, and the
one too whose arguments were read. -/
def ReadsAgain (resolve' : String → Option Term) (s : List Char) (t : Term) (r : List Char) :
    Part → Prop
  | .term => Reads resolve' .term s (t.resolveBy resolve') r
  | .expr => Reads resolve' .expr s (t.resolveBy resolve') r
  | .args f => f.Known resolve' ∧
    Reads resolve' (.args (f.resolveBy resolve')) s (t.resolveBy resolve') r

/-- **What is read once is read again** by any resolution that knows its names. -/
theorem readsAgain_of_reads {part : Part} {s r : List Char} (h : Reads resolve part s t r)
    (hknown : t.Known resolve') : ReadsAgain resolve' s t r part := by
  induction h with
  | dots hw => exact .dots hw
  | var hw => exact .var hw
  | ref hw _ =>
    obtain ⟨u, hu⟩ := Option.isSome_iff_exists.mp (known_ref.mp hknown)
    rw [ReadsAgain, resolveBy, hu, Option.getD_some]
    exact .ref hw hu
  | abs hl hx hd _ ih => exact .abs hl hx hd (ih hknown)
  | parens ho _ hc ih => exact .parens ho (ih hknown) hc
  | expr _ _ ih iha =>
    obtain ⟨hf, hargs⟩ := iha hknown
    exact .expr (ih hf) hargs
  | arg _ _ ih iha =>
    -- the function of a row of terms is part of what is read
    obtain ⟨hfa, hargs⟩ := iha hknown
    obtain ⟨hf, ha⟩ := known_app.mp hfa
    exact ⟨hf, .arg (ih ha) hargs⟩
  | done hnone =>
    exact ⟨hknown, .done (termAt_eq_none_iff.mpr (termAt_eq_none_iff.mp hnone))⟩

theorem exprAt_resolveBy {s r : List Char} (h : exprAt resolve s = .ok (t, r))
    (hknown : t.Known resolve') : exprAt resolve' s = .ok (t.resolveBy resolve', r) := by
  have hagain : Reads resolve' .expr s (t.resolveBy resolve') r :=
    readsAgain_of_reads (reads_of_exprAt h) hknown
  exact hagain.finds

/-- **Reading under another resolution**: the term is the same but for what its
references stand for. -/
theorem parseFrom_resolveBy {source : String} {start : Nat}
    (h : parseFrom resolve source start = .ok t) (hknown : t.Known resolve') :
    parseFrom resolve' source start = .ok (t.resolveBy resolve') :=
  parseFrom_eq_ok_iff.mpr (exprAt_resolveBy (parseFrom_eq_ok_iff.mp h) hknown)

end Reading

end Term

end LambdaTrace
