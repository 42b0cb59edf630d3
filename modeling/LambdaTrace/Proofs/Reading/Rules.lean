import LambdaTrace.Proofs.Reading.Words
import LambdaTrace.Source.Parser

/-!
# The rules of the grammar

What the readers return is a term and a rest, together with the fact that the rest is
shorter. Here that fact is left aside (`LambdaTrace.termAt`, `LambdaTrace.exprAt`,
`LambdaTrace.argsAt`), and what each reader returns is told rule by rule: a term is
read by one of five rules (`LambdaTrace.termAt_eq_some_iff`), an expression is a term
with the arguments that follow it (`LambdaTrace.exprAt_eq`), and the arguments go on as
long as there is a term (`LambdaTrace.argsAt_eq`). Nothing else about the readers is
used afterwards.

The rules refer to each other by what the readers return. To argue about all that is read,
they are put together in one derivation (`LambdaTrace.Reads`). That there is one for whatever
is returned is the only place where lengths matter (`LambdaTrace.reads_of_exprAt`).
-/

namespace LambdaTrace

/-! ### Results without their proofs -/

/-- A reading without the fact that the rest is shorter. -/
def Reading.plain {s : List Char} (r : Reading s) :
    Except Stuck (Option (Term × List Char)) :=
  r.map (Option.map Subtype.val)

section Plain

variable {s : List Char}

@[simp] theorem plain_error (e : Stuck) : @Reading.plain s (.error e) = .error e := rfl

@[simp] theorem plain_none : @Reading.plain s (.ok none) = .ok none := rfl

@[simp] theorem plain_some (p : ReadFrom s) : Reading.plain (.ok (some p)) = .ok (some p.1) := rfl

end Plain

variable (resolve : String → Option Term)

/-- The term that a text starts with, and what follows it. -/
def termAt (s : List Char) : Except Stuck (Option (Term × List Char)) :=
  (readTerm resolve s).plain

/-- The expression that a text starts with, and what follows it. -/
def exprAt (s : List Char) : Except Stuck (Term × List Char) :=
  (readExpr resolve s).map Subtype.val

/-- The application of a term to the arguments that a text starts with, and what
follows them. -/
def argsAt (f : Term) (s : List Char) : Except Stuck (Term × List Char) :=
  (readArgs resolve f s).map Subtype.val

/-- **The rules for a term** at the start of a text, with what they leave. -/
inductive TermAt (s : List Char) : Term → List Char → Prop
  | dots {w r : List Char} : Lexeme.dots.read s = some (w, r) → TermAt s .dots r
  | var {w r : List Char} : Lexeme.varName.read s = some (w, r) →
    TermAt s (.var (String.ofList w)) r
  | ref {w r : List Char} {t : Term} : Lexeme.macroName.read s = some (w, r) →
    resolve (String.ofList w) = some t → TermAt s (.ref (String.ofList w) t) r
  | abs {l x d r₁ r₂ r₃ r : List Char} {b : Term} : Lexeme.lambda.read s = some (l, r₁) →
    Lexeme.varName.read (dropBlank r₁) = some (x, r₂) →
    Lexeme.dot.read (dropBlank r₂) = some (d, r₃) → exprAt resolve r₃ = .ok (b, r) →
    TermAt s (.abs (String.ofList x) b) r
  | parens {o c r₁ r₂ r : List Char} {t : Term} : Lexeme.openParen.read s = some (o, r₁) →
    exprAt resolve r₁ = .ok (t, r₂) → Lexeme.closeParen.read r₂ = some (c, r) → TermAt s t r

variable {resolve} {s r : List Char} {t f : Term}

/-! ### One alternative after the other -/

theorem orTry_eq_some_iff {a : Reading s} {next : Unit → Reading s} {p : Term × List Char} :
    (a.orTry next).plain = .ok (some p) ↔
      a.plain = .ok (some p) ∨ a.plain = .ok none ∧ (next ()).plain = .ok (some p) := by
  rcases a with e | _ | q
  · simp [Reading.orTry]
  · simp [Reading.orTry]
  · simp [Reading.orTry]

theorem orTry_eq_none_iff {a : Reading s} {next : Unit → Reading s} :
    (a.orTry next).plain = .ok none ↔ a.plain = .ok none ∧ (next ()).plain = .ok none := by
  rcases a with e | _ | q
  · simp [Reading.orTry]
  · simp [Reading.orTry]
  · simp [Reading.orTry]

/-! ### The atoms -/

theorem readDots_plain (s : List Char) : (readDots s).plain =
    .ok ((Lexeme.dots.read s).map fun p => (Term.dots, p.2)) := by
  rw [readDots]
  split <;> simp_all

theorem readVar_plain (s : List Char) : (readVar s).plain =
    .ok ((Lexeme.varName.read s).map fun p => (.var (String.ofList p.1), p.2)) := by
  rw [readVar]
  split <;> simp_all

theorem readMacro_plain (resolve : String → Option Term) (s : List Char) :
    (readMacro resolve s).plain =
      match Lexeme.macroName.read s with
      | none => .ok none
      | some (w, r) =>
        match resolve (String.ofList w) with
        | none => .error ⟨.unknownMacro, s.length⟩
        | some t => .ok (some (.ref (String.ofList w) t, r)) := by
  rw [readMacro]
  split
  · split <;> simp_all
  · simp_all

/-! ### The recursive rules -/

theorem readAbs_plain (resolve : String → Option Term) (s : List Char) :
    (readAbs resolve s).plain =
      match Lexeme.lambda.read s with
      | none => .ok none
      | some (_, r₁) =>
        match Lexeme.varName.read (dropBlank r₁) with
        | none => .error ⟨.expectedBinder, (dropBlank r₁).length⟩
        | some (x, r₂) =>
          match Lexeme.dot.read (dropBlank r₂) with
          | none => .error ⟨.expectedDot, (dropBlank r₂).length⟩
          | some (_, r₃) =>
            (exprAt resolve r₃).map fun p => some (.abs (String.ofList x) p.1, p.2) := by
  rw [readAbs]
  -- one case for each token that may be missing, and one for the body
  split
  · simp_all
  · split
    · simp_all
    · split
      · simp_all
      · simp_all [exprAt]
        split <;> simp_all [Except.map]

theorem readParens_plain (resolve : String → Option Term) (s : List Char) :
    (readParens resolve s).plain =
      match Lexeme.openParen.read s with
      | none => .ok none
      | some (_, r₁) =>
        match exprAt resolve r₁ with
        | .error e => .error e
        | .ok (t, r₂) =>
          match Lexeme.closeParen.read r₂ with
          | none => .error ⟨.unbalanced, r₂.length⟩
          | some (_, r) => .ok (some (t, r)) := by
  rw [readParens]
  split
  · simp_all
  · simp_all [exprAt]
    split
    · simp_all [Except.map]
    · split <;> simp_all [Except.map]

/-! ### The first character -/

theorem dots_read_eq_some {w : List Char} (h : Lexeme.dots.read s = some (w, r)) :
    s = '.' :: '.' :: '.' :: r := by
  unfold Lexeme.read at h
  split at h <;> simp_all

theorem lambda_read_eq_some {w : List Char} (h : Lexeme.lambda.read s = some (w, r)) :
    s = '\\' :: r ∨ s = 'λ' :: r := by
  unfold Lexeme.read at h
  split at h <;> simp_all

theorem openParen_read_eq_some {w : List Char} (h : Lexeme.openParen.read s = some (w, r)) :
    s = '(' :: r := by
  unfold Lexeme.read at h
  split at h <;> simp_all

section FirstCharacter

variable {c : Char}

theorem dots_read_of_ne (h : c ≠ '.') (s : List Char) : Lexeme.dots.read (c :: s) = none := by
  rw [Option.eq_none_iff_forall_ne_some]
  rintro ⟨w, r⟩ hw
  exact h (List.cons.inj (dots_read_eq_some hw)).1

theorem varName_read_of_not (h : isVarChar c = false) (s : List Char) :
    Lexeme.varName.read (c :: s) = none :=
  readRun_of_startsOutside (startsOutside_cons h s)

theorem macroName_read_of_not (h : isMacroChar c = false) (s : List Char) :
    Lexeme.macroName.read (c :: s) = none :=
  readRun_of_startsOutside (startsOutside_cons h s)

theorem lambda_read_of_ne (h : c ≠ '\\') (h' : c ≠ 'λ') (s : List Char) :
    Lexeme.lambda.read (c :: s) = none := by
  rw [Option.eq_none_iff_forall_ne_some]
  rintro ⟨w, r⟩ hw
  rcases lambda_read_eq_some hw with hw | hw
  · exact h (List.cons.inj hw).1
  · exact h' (List.cons.inj hw).1

theorem openParen_read_of_ne (h : c ≠ '(') (s : List Char) :
    Lexeme.openParen.read (c :: s) = none := by
  rw [Option.eq_none_iff_forall_ne_some]
  rintro ⟨w, r⟩ hw
  exact h (List.cons.inj (openParen_read_eq_some hw)).1

end FirstCharacter

/-! ### The rules for a term -/

/-- The five alternatives of a term, in their order. -/
theorem termAt_eq (resolve : String → Option Term) (s : List Char) : termAt resolve s =
    ((readDots s).orTry fun _ => (readVar s).orTry fun _ => (readMacro resolve s).orTry fun _ =>
      (readAbs resolve s).orTry fun _ => readParens resolve s).plain := by
  rw [termAt, readTerm]

/-- Whatever alternative finds a term, it is by one of the rules. -/
theorem termAt_sound (h : termAt resolve s = .ok (some (t, r))) : TermAt resolve s t r := by
  simp only [termAt_eq, orTry_eq_some_iff] at h
  rcases h with h | ⟨-, h | ⟨-, h | ⟨-, h | ⟨-, h⟩⟩⟩⟩
  · rw [readDots_plain] at h
    obtain ⟨⟨w, r⟩, hw, ⟨⟩⟩ := Option.map_eq_some_iff.mp (Except.ok.inj h)
    exact .dots hw
  · rw [readVar_plain] at h
    obtain ⟨⟨w, r⟩, hw, ⟨⟩⟩ := Option.map_eq_some_iff.mp (Except.ok.inj h)
    exact .var hw
  · rw [readMacro_plain] at h
    split at h
    · cases h
    · rename_i w r hw
      split at h
      · cases h
      · cases h
        exact .ref hw ‹_›
  · rw [readAbs_plain] at h
    split at h
    · cases h
    · rename_i l r₁ hl
      split at h
      · cases h
      · rename_i x r₂ hx
        split at h
        · cases h
        · rename_i d r₃ hd
          cases hb : exprAt resolve r₃ with
          | error e => simp [hb, Except.map] at h
          | ok p =>
            rw [hb] at h
            cases h
            exact .abs hl hx hd hb
  · rw [readParens_plain] at h
    split at h
    · cases h
    · rename_i o r₁ ho
      split at h
      · cases h
      · rename_i u r₂ hu
        split at h
        · cases h
        · cases h
          exact .parens ho hu ‹_›

/-- Where no atom can start, none is found. -/
theorem atoms_plain_of_other {c : Char} (hd : c ≠ '.') (hv : isVarChar c = false)
    (hm : isMacroChar c = false) (resolve : String → Option Term) (s : List Char) :
    (readDots (c :: s)).plain = .ok none ∧ (readVar (c :: s)).plain = .ok none ∧
      (readMacro resolve (c :: s)).plain = .ok none := by
  rw [readDots_plain, readVar_plain, readMacro_plain, dots_read_of_ne hd,
    varName_read_of_not hv, macroName_read_of_not hm]
  exact ⟨rfl, rfl, rfl⟩

/-- None is found where a macro or an abstraction starts: the first character opens no
placeholder and no name of a variable. -/
theorem atoms_plain_of_macro {w : List Char} (h : Lexeme.macroName.read s = some (w, r)) :
    (readDots s).plain = .ok none ∧ (readVar s).plain = .ok none := by
  obtain ⟨-, c, cs, rfl, hc⟩ := of_readRun h
  have hdot : c ≠ '.' := by
    rintro rfl
    exact absurd hc (by decide)
  rw [readDots_plain, readVar_plain, dots_read_of_ne hdot,
    varName_read_of_not (isVarChar_of_isMacroChar hc)]
  exact ⟨rfl, rfl⟩

theorem atoms_plain_of_lambda {l : List Char} (h : Lexeme.lambda.read s = some (l, r))
    (resolve : String → Option Term) : (readDots s).plain = .ok none ∧
      (readVar s).plain = .ok none ∧ (readMacro resolve s).plain = .ok none := by
  rcases lambda_read_eq_some h with rfl | rfl
  · exact atoms_plain_of_other (by decide) (by decide) (by decide) resolve r
  · exact atoms_plain_of_other (by decide) (by decide) (by decide) resolve r

/-- Nor is an abstraction where a parenthesis opens. -/
theorem others_plain_of_openParen {o : List Char} (h : Lexeme.openParen.read s = some (o, r))
    (resolve : String → Option Term) : (readDots s).plain = .ok none ∧
      (readVar s).plain = .ok none ∧ (readMacro resolve s).plain = .ok none ∧
        (readAbs resolve s).plain = .ok none := by
  obtain rfl := openParen_read_eq_some h
  obtain ⟨hd, hv, hm⟩ :=
    atoms_plain_of_other (c := '(') (by decide) (by decide) (by decide) resolve r
  refine ⟨hd, hv, hm, ?_⟩
  rw [readAbs_plain, lambda_read_of_ne (by decide) (by decide)]

/-- No alternative before the one of a rule finds anything. -/
theorem termAt_complete (h : TermAt resolve s t r) : termAt resolve s = .ok (some (t, r)) := by
  simp only [termAt_eq, orTry_eq_some_iff]
  cases h with
  | dots hw =>
    rw [readDots_plain, hw]
    exact Or.inl rfl
  | var hw =>
    -- the first character of a name opens no placeholder
    obtain ⟨-, c, cs, rfl, hc⟩ := of_readRun hw
    have hdot : c ≠ '.' := by
      rintro rfl
      exact absurd hc (by decide)
    rw [readDots_plain, readVar_plain, dots_read_of_ne hdot, hw]
    exact Or.inr ⟨rfl, Or.inl rfl⟩
  | ref hw ht =>
    obtain ⟨hd, hv⟩ := atoms_plain_of_macro hw
    refine Or.inr ⟨hd, Or.inr ⟨hv, Or.inl ?_⟩⟩
    rw [readMacro_plain]
    simp only [hw, ht]
  | @abs l x d r₁ r₂ r₃ r b hl hx hd hb =>
    obtain ⟨hdots, hvar, hname⟩ := atoms_plain_of_lambda hl resolve
    refine Or.inr ⟨hdots, Or.inr ⟨hvar, Or.inr ⟨hname, Or.inl ?_⟩⟩⟩
    rw [readAbs_plain]
    simp only [hl, hx, hd, hb]
    rfl
  | @parens o c r₁ r₂ r t ho ht hc =>
    obtain ⟨hd, hv, hm, habs⟩ := others_plain_of_openParen ho resolve
    refine Or.inr ⟨hd, Or.inr ⟨hv, Or.inr ⟨hm, Or.inr ⟨habs, ?_⟩⟩⟩⟩
    rw [readParens_plain]
    simp only [ho, ht, hc]

/-- **A term is read by one of the five rules.** -/
theorem termAt_eq_some_iff : termAt resolve s = .ok (some (t, r)) ↔ TermAt resolve s t r :=
  ⟨termAt_sound, termAt_complete⟩

/-- No term starts where none of the five alternatives can. -/
theorem termAt_eq_none_iff : termAt resolve s = .ok none ↔
    Lexeme.dots.read s = none ∧ Lexeme.varName.read s = none ∧ Lexeme.macroName.read s = none ∧
      Lexeme.lambda.read s = none ∧ Lexeme.openParen.read s = none := by
  have hdots : (readDots s).plain = .ok none ↔ Lexeme.dots.read s = none := by
    rw [readDots_plain]
    simp
  have hvar : (readVar s).plain = .ok none ↔ Lexeme.varName.read s = none := by
    rw [readVar_plain]
    simp
  have hmacro : (readMacro resolve s).plain = .ok none ↔ Lexeme.macroName.read s = none := by
    rw [readMacro_plain]
    split
    · simp_all
    · split <;> simp_all
  have habs : (readAbs resolve s).plain = .ok none ↔ Lexeme.lambda.read s = none := by
    rw [readAbs_plain]
    split
    · simp_all
    · split
      · simp_all
      · split
        · simp_all
        · cases exprAt resolve _ <;> simp_all [Except.map]
  have hparens : (readParens resolve s).plain = .ok none ↔ Lexeme.openParen.read s = none := by
    rw [readParens_plain]
    split
    · simp_all
    · split
      · simp_all
      · split <;> simp_all
  simp only [termAt_eq, orTry_eq_none_iff, hdots, hvar, hmacro, habs, hparens]

/-- No term starts at the end of a text or at a closing parenthesis. -/
theorem termAt_eq_none (h : s = [] ∨ ∃ r, s = ')' :: r) : termAt resolve s = .ok none := by
  rw [termAt_eq_none_iff]
  rcases h with rfl | ⟨r, rfl⟩
  · exact ⟨rfl, rfl, rfl, rfl, rfl⟩
  · exact ⟨dots_read_of_ne (by decide) r, varName_read_of_not (by decide) r,
      macroName_read_of_not (by decide) r, lambda_read_of_ne (by decide) (by decide) r,
      openParen_read_of_ne (by decide) r⟩

/-! ### The rules for a row of terms -/

theorem exprAt_eq (resolve : String → Option Term) (s : List Char) : exprAt resolve s =
    match termAt resolve (dropBlank s) with
    | .error e => .error e
    | .ok none => .error ⟨.expectedTerm, (dropBlank s).length⟩
    | .ok (some (f, r)) => argsAt resolve f (dropBlank r) := by
  rw [exprAt, readExpr, termAt]
  split
  · rename_i heq
    rw [heq]
    rfl
  · rename_i heq
    rw [heq]
    rfl
  · rename_i f r hr heq
    rw [heq]
    show _ = argsAt resolve f (dropBlank r)
    rw [argsAt]
    cases readArgs resolve f (dropBlank r) <;> rfl

theorem argsAt_eq (resolve : String → Option Term) (f : Term) (s : List Char) :
    argsAt resolve f s =
      match termAt resolve s with
      | .error e => .error e
      | .ok none => .ok (f, s)
      | .ok (some (a, r)) => argsAt resolve (.app f a) (dropBlank r) := by
  rw [argsAt, readArgs, termAt]
  split
  · rename_i heq
    rw [heq]
    rfl
  · rename_i heq
    rw [heq]
    rfl
  · rename_i a r hr heq
    rw [heq]
    show _ = argsAt resolve (.app f a) (dropBlank r)
    rw [argsAt]
    cases readArgs resolve (.app f a) (dropBlank r) <;> rfl

/-! ### Lengths -/

/-- A term takes at least one character. -/
theorem length_lt_of_termAt (h : termAt resolve s = .ok (some (t, r))) :
    r.length < s.length := by
  unfold termAt Reading.plain at h
  cases hp : readTerm resolve s with
  | error e => simp [hp, Except.map] at h
  | ok o =>
    cases o with
    | none => simp [hp, Except.map] at h
    | some p =>
      have hval : p.val = (t, r) := by simpa [hp, Except.map] using h
      simpa [hval] using p.property

/-! ### What is read -/

/-- What is read of a text: a term, an expression, or the application of a term to the
arguments that follow. -/
inductive Part where
  | term
  | expr
  | args (f : Term)

/-- **What is read**, by all the rules that lead to it. Blanks may stand in front of it, and
none are left behind a row of terms. -/
inductive Reads (resolve : String → Option Term) : Part → List Char → Term → List Char → Prop
  | dots {s w r : List Char} : Lexeme.dots.read (dropBlank s) = some (w, r) →
    Reads resolve .term s .dots r
  | var {s w r : List Char} : Lexeme.varName.read (dropBlank s) = some (w, r) →
    Reads resolve .term s (.var (String.ofList w)) r
  | ref {s w r : List Char} {t : Term} : Lexeme.macroName.read (dropBlank s) = some (w, r) →
    resolve (String.ofList w) = some t → Reads resolve .term s (.ref (String.ofList w) t) r
  | abs {s l x d r₁ r₂ r₃ r : List Char} {b : Term} :
    Lexeme.lambda.read (dropBlank s) = some (l, r₁) →
    Lexeme.varName.read (dropBlank r₁) = some (x, r₂) →
    Lexeme.dot.read (dropBlank r₂) = some (d, r₃) → Reads resolve .expr r₃ b r →
    Reads resolve .term s (.abs (String.ofList x) b) r
  | parens {s o c r₁ r₂ r : List Char} {t : Term} :
    Lexeme.openParen.read (dropBlank s) = some (o, r₁) → Reads resolve .expr r₁ t r₂ →
    Lexeme.closeParen.read r₂ = some (c, r) → Reads resolve .term s t r
  /-- A row of terms is a term and its arguments. -/
  | expr {s r r' : List Char} {f t : Term} : Reads resolve .term s f r →
    Reads resolve (.args f) r t r' → Reads resolve .expr s t r'
  /-- One more argument. -/
  | arg {s r r' : List Char} {f a t : Term} : Reads resolve .term s a r →
    Reads resolve (.args (.app f a)) r t r' → Reads resolve (.args f) s t r'
  /-- No more arguments. -/
  | done {s : List Char} {f : Term} : termAt resolve (dropBlank s) = .ok none →
    Reads resolve (.args f) s f (dropBlank s)

/-- What the reader of a part returns. -/
def Part.Finds (resolve : String → Option Term) (s : List Char) (t : Term) (r : List Char) :
    Part → Prop
  | .term => termAt resolve (dropBlank s) = .ok (some (t, r))
  | .expr => exprAt resolve s = .ok (t, r)
  | .args f => argsAt resolve f (dropBlank s) = .ok (t, r)

/-- What is read is returned. -/
theorem Reads.finds {part : Part} (h : Reads resolve part s t r) : part.Finds resolve s t r := by
  induction h with
  | dots hw => exact termAt_complete (.dots hw)
  | var hw => exact termAt_complete (.var hw)
  | ref hw ht => exact termAt_complete (.ref hw ht)
  | abs hl hx hd _ ih => exact termAt_complete (.abs hl hx hd ih)
  | parens ho _ hc ih => exact termAt_complete (.parens ho ih hc)
  | expr _ _ ih iha =>
    rw [Part.Finds, exprAt_eq, ih]
    exact iha
  | arg _ _ ih iha =>
    rw [Part.Finds, argsAt_eq, ih]
    exact iha
  | done hnone => rw [Part.Finds, argsAt_eq, hnone]

/-- A term that is returned was read, if the expressions that its rule reads were. -/
theorem reads_of_termAt (h : TermAt resolve (dropBlank s) t r)
    (ih : ∀ s' u r', s'.length < s.length → exprAt resolve s' = .ok (u, r') →
      Reads resolve .expr s' u r') : Reads resolve .term s t r := by
  have hle := length_dropBlank_le s
  cases h with
  | dots hw => exact .dots hw
  | var hw => exact .var hw
  | ref hw ht => exact .ref hw ht
  | @abs l x d r₁ r₂ r₃ _ b hl hx hd hb =>
    have h₁ := Lexeme.length_lt_of_read (by decide) hl
    have h₂ := Lexeme.length_lt_of_read (by decide) hx
    have h₃ := Lexeme.length_lt_of_read (by decide) hd
    have hle₁ := length_dropBlank_le r₁
    have hle₂ := length_dropBlank_le r₂
    exact .abs hl hx hd (ih r₃ b r (by omega) hb)
  | @parens o c r₁ _ _ _ ho ht hc =>
    have h₁ := Lexeme.length_lt_of_read (by decide) ho
    exact .parens ho (ih r₁ t _ (by omega) ht) hc

/-- So were the arguments of a term. -/
theorem reads_of_argsAt {n : Nat}
    (ih : ∀ s u r, s.length < n → exprAt resolve s = .ok (u, r) → Reads resolve .expr s u r)
    (hs : s.length ≤ n) (h : argsAt resolve f (dropBlank s) = .ok (t, r)) :
    Reads resolve (.args f) s t r := by
  -- on the length of what is left, since every argument takes some of it
  induction hlen : s.length using Nat.strong_induction_on generalizing f s with
  | _ m ihm =>
    rw [argsAt_eq] at h
    split at h
    · cases h
    · rename_i hnone
      cases h
      exact .done hnone
    · rename_i a r' ha
      have hr' := length_lt_of_termAt ha
      have hle := length_dropBlank_le s
      have hread := reads_of_termAt (termAt_sound ha) fun s' u r hs' => ih s' u r (by omega)
      exact .arg hread (ihm _ (by omega) (by omega) h rfl)

/-- **What is returned was read.** Together with `LambdaTrace.Reads.finds` this says that an
expression is read by the rules only, and it makes inductions over what is read possible. -/
theorem reads_of_exprAt (h : exprAt resolve s = .ok (t, r)) : Reads resolve .expr s t r := by
  induction hlen : s.length using Nat.strong_induction_on generalizing s t r with
  | _ n ihn =>
    have ih : ∀ s' u r', s'.length < n → exprAt resolve s' = .ok (u, r') →
        Reads resolve .expr s' u r' := fun s' u r' hs' hu => ihn _ hs' hu rfl
    rw [exprAt_eq] at h
    split at h
    · cases h
    · cases h
    · rename_i f r' hf
      have hr' := length_lt_of_termAt hf
      have hle := length_dropBlank_le s
      have hread := reads_of_termAt (termAt_sound hf) fun s' u r hs' => ih s' u r (by omega)
      exact .expr hread (reads_of_argsAt ih (by omega) h)

/-! ### Whole texts -/

theorem parseFrom_eq (resolve : String → Option Term) (source : String) (start : Nat) :
    parseFrom resolve source start =
      match exprAt resolve (source.toList.drop start) with
      | .error e => .error (e.toError source)
      | .ok (t, []) => .ok t
      | .ok (_, c :: r) =>
        .error (Stuck.toError ⟨.unexpectedToken, (c :: r).length⟩ source) := by
  rw [parseFrom, exprAt]
  rcases readExpr resolve (source.toList.drop start) with e | ⟨⟨t, _ | ⟨c, r⟩⟩, _⟩ <;> rfl

theorem parse_eq (resolve : String → Option Term) (source : String) :
    parse resolve source =
      match exprAt resolve source.toList with
      | .error e => .error (e.toError source)
      | .ok (t, []) => .ok t
      | .ok (_, c :: r) =>
        .error (Stuck.toError ⟨.unexpectedToken, (c :: r).length⟩ source) :=
  parseFrom_eq resolve source 0

/-- A text is the term that it starts with, if nothing follows. -/
theorem parseFrom_eq_ok_iff {source : String} {start : Nat} :
    parseFrom resolve source start = .ok t ↔
      exprAt resolve (source.toList.drop start) = .ok (t, []) := by
  rw [parseFrom_eq]
  rcases exprAt resolve (source.toList.drop start) with e | ⟨u, _ | ⟨c, r⟩⟩ <;> simp

theorem parse_eq_ok_iff {source : String} :
    parse resolve source = .ok t ↔ exprAt resolve source.toList = .ok (t, []) :=
  parseFrom_eq_ok_iff

end LambdaTrace
