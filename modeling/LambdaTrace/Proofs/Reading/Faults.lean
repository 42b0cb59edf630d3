import LambdaTrace.Proofs.Reading.Rules

/-!
# What is missing

Where a text cannot be read, a reader returns what is wrong and how much of the text is left
there. That too is told rule by rule: `LambdaTrace.Fails` holds the rules by which the parts of
a text fail, next to `LambdaTrace.Reads` with those by which they are read. Five of them say what
is wrong at a place, where a token or a term is missing or a macro is not known; the others say
that a part fails in one of its own. A whole text can also have something left behind the
expression (`LambdaTrace.Rejected`).

The readers fail by these rules (`LambdaTrace.Fails.refuses`) and by no others
(`LambdaTrace.failsWith_of_exprAt`), and so an error of a whole text says that it is rejected
(`LambdaTrace.parse_eq_error_iff`). In the rules the place of a fault is the rest of the text,
not its length, so that it can be said what stands there.
-/

namespace LambdaTrace

variable {resolve : String → Option Term} {part : Part} {s r rest : List Char} {t f : Term}
  {fault : Fault} {e : Stuck}

/-! ### One alternative after the other -/

theorem orTry_eq_error_iff {a : Reading s} {next : Unit → Reading s} :
    (a.orTry next).plain = .error e ↔
      a.plain = .error e ∨ a.plain = .ok none ∧ (next ()).plain = .error e := by
  rcases a with e | _ | q
  · simp [Reading.orTry]
  · simp [Reading.orTry]
  · simp [Reading.orTry]

theorem readMacro_eq_error_iff : (readMacro resolve s).plain = .error e ↔
    ∃ w r, Lexeme.macroName.read s = some (w, r) ∧ resolve (String.ofList w) = none ∧
      e = ⟨.unknownMacro, s.length⟩ := by
  rw [readMacro_plain]
  constructor
  · intro h
    split at h
    · cases h
    · rename_i w r hw
      split at h
      · cases h
        exact ⟨w, r, hw, ‹_›, rfl⟩
      · cases h
  · rintro ⟨w, r, hw, hnone, rfl⟩
    simp only [hw, hnone]

/-- Only the last three alternatives of a term can fail. -/
theorem termAt_eq_error_iff : termAt resolve s = .error e ↔
    (readMacro resolve s).plain = .error e ∨ (readAbs resolve s).plain = .error e ∨
      (readParens resolve s).plain = .error e := by
  simp only [termAt_eq, orTry_eq_error_iff]
  constructor
  · rw [readDots_plain, readVar_plain]
    rintro (h | ⟨-, h | ⟨-, h | ⟨-, h | ⟨-, h⟩⟩⟩⟩)
    · cases h
    · cases h
    · exact Or.inl h
    · exact Or.inr (Or.inl h)
    · exact Or.inr (Or.inr h)
  · rintro (h | h | h)
    · obtain ⟨w, r, hw, -, -⟩ := readMacro_eq_error_iff.mp h
      obtain ⟨hd, hv⟩ := atoms_plain_of_macro hw
      exact Or.inr ⟨hd, Or.inr ⟨hv, Or.inl h⟩⟩
    · cases hl : Lexeme.lambda.read s with
      | none => simp [readAbs_plain, hl] at h
      | some p =>
        obtain ⟨hd, hv, hm⟩ := atoms_plain_of_lambda hl resolve
        exact Or.inr ⟨hd, Or.inr ⟨hv, Or.inr ⟨hm, Or.inl h⟩⟩⟩
    · cases ho : Lexeme.openParen.read s with
      | none => simp [readParens_plain, ho] at h
      | some p =>
        obtain ⟨hd, hv, hm, habs⟩ := others_plain_of_openParen ho resolve
        exact Or.inr ⟨hd, Or.inr ⟨hv, Or.inr ⟨hm, Or.inr ⟨habs, h⟩⟩⟩⟩

/-! ### The rules -/

/-- **How a part of a text fails**, with what is left of the text where it does. -/
inductive Fails (resolve : String → Option Term) : Part → List Char → Fault → List Char → Prop
  | unknown {s w r : List Char} : Lexeme.macroName.read (dropBlank s) = some (w, r) →
    resolve (String.ofList w) = none → Fails resolve .term s .unknownMacro (dropBlank s)
  | binder {s l r : List Char} : Lexeme.lambda.read (dropBlank s) = some (l, r) →
    Lexeme.varName.read (dropBlank r) = none →
    Fails resolve .term s .expectedBinder (dropBlank r)
  | dot {s l x r₁ r₂ : List Char} : Lexeme.lambda.read (dropBlank s) = some (l, r₁) →
    Lexeme.varName.read (dropBlank r₁) = some (x, r₂) →
    Lexeme.dot.read (dropBlank r₂) = none → Fails resolve .term s .expectedDot (dropBlank r₂)
  | body {s l x d r₁ r₂ r₃ rest : List Char} {fault : Fault} :
    Lexeme.lambda.read (dropBlank s) = some (l, r₁) →
    Lexeme.varName.read (dropBlank r₁) = some (x, r₂) →
    Lexeme.dot.read (dropBlank r₂) = some (d, r₃) → Fails resolve .expr r₃ fault rest →
    Fails resolve .term s fault rest
  | inner {s o r rest : List Char} {fault : Fault} :
    Lexeme.openParen.read (dropBlank s) = some (o, r) → Fails resolve .expr r fault rest →
    Fails resolve .term s fault rest
  | unclosed {s o r₁ r₂ : List Char} {t : Term} :
    Lexeme.openParen.read (dropBlank s) = some (o, r₁) → Reads resolve .expr r₁ t r₂ →
    Lexeme.closeParen.read r₂ = none → Fails resolve .term s .unbalanced r₂
  /-- A row of terms without a first one. -/
  | missing {s : List Char} : termAt resolve (dropBlank s) = .ok none →
    Fails resolve .expr s .expectedTerm (dropBlank s)
  /-- A row of terms whose first one fails. -/
  | first {s rest : List Char} {fault : Fault} : Fails resolve .term s fault rest →
    Fails resolve .expr s fault rest
  /-- A row of terms that fails behind the first one. -/
  | expr {s r rest : List Char} {f : Term} {fault : Fault} : Reads resolve .term s f r →
    Fails resolve (.args f) r fault rest → Fails resolve .expr s fault rest
  | arg {s rest : List Char} {f : Term} {fault : Fault} : Fails resolve .term s fault rest →
    Fails resolve (.args f) s fault rest
  | args {s r rest : List Char} {f a : Term} {fault : Fault} : Reads resolve .term s a r →
    Fails resolve (.args (.app f a)) r fault rest → Fails resolve (.args f) s fault rest

/-- What the reader of a part returns where it fails. -/
def Part.Refuses (resolve : String → Option Term) (s : List Char) (e : Stuck) : Part → Prop
  | .term => termAt resolve (dropBlank s) = .error e
  | .expr => exprAt resolve s = .error e
  | .args f => argsAt resolve f (dropBlank s) = .error e

/-- **A fault is returned** with the number of characters that are left. -/
theorem Fails.refuses (h : Fails resolve part s fault rest) :
    part.Refuses resolve s ⟨fault, rest.length⟩ := by
  induction h with
  | unknown hw hnone =>
    exact termAt_eq_error_iff.mpr (Or.inl (readMacro_eq_error_iff.mpr ⟨_, _, hw, hnone, rfl⟩))
  | binder hl hx =>
    refine termAt_eq_error_iff.mpr (Or.inr (Or.inl ?_))
    rw [readAbs_plain]
    simp only [hl, hx]
  | dot hl hx hd =>
    refine termAt_eq_error_iff.mpr (Or.inr (Or.inl ?_))
    rw [readAbs_plain]
    simp only [hl, hx, hd]
  | body hl hx hd _ ih =>
    have hbody : exprAt resolve _ = .error _ := ih
    refine termAt_eq_error_iff.mpr (Or.inr (Or.inl ?_))
    rw [readAbs_plain]
    simp only [hl, hx, hd, hbody]
    rfl
  | inner ho _ ih =>
    have hinner : exprAt resolve _ = .error _ := ih
    refine termAt_eq_error_iff.mpr (Or.inr (Or.inr ?_))
    rw [readParens_plain]
    simp only [ho, hinner]
  | unclosed ho ht hc =>
    have hinner : exprAt resolve _ = .ok _ := ht.finds
    refine termAt_eq_error_iff.mpr (Or.inr (Or.inr ?_))
    rw [readParens_plain]
    simp only [ho, hinner, hc]
  | missing hnone => rw [Part.Refuses, exprAt_eq, hnone]
  | first _ ih => rw [Part.Refuses, exprAt_eq, ih]
  | expr hf _ ih =>
    rw [Part.Refuses, exprAt_eq, hf.finds]
    exact ih
  | arg _ ih => rw [Part.Refuses, argsAt_eq, ih]
  | args ha _ ih =>
    rw [Part.Refuses, argsAt_eq, ha.finds]
    exact ih

/-! ### No other faults -/

/-- Whether a fault that is returned for a part is by the rules. -/
def Part.FailsWith (resolve : String → Option Term) (s : List Char) (e : Stuck) (part : Part) :
    Prop :=
  ∃ rest, e.left = rest.length ∧ Fails resolve part s e.fault rest

/-- A term fails by the rules, if the expressions do that its rule reads. -/
theorem failsWith_of_termAt (h : termAt resolve (dropBlank s) = .error e)
    (ih : ∀ s' e', s'.length < s.length → exprAt resolve s' = .error e' →
      Part.expr.FailsWith resolve s' e') : Part.term.FailsWith resolve s e := by
  have hle := length_dropBlank_le s
  rcases termAt_eq_error_iff.mp h with h | h | h
  · obtain ⟨w, r, hw, hnone, rfl⟩ := readMacro_eq_error_iff.mp h
    exact ⟨_, rfl, .unknown hw hnone⟩
  · rw [readAbs_plain] at h
    split at h
    · cases h
    · rename_i l r₁ hl
      have hlt₁ := Lexeme.length_lt_of_read (by decide) hl
      split at h
      · rename_i hx
        cases h
        exact ⟨_, rfl, .binder hl hx⟩
      · rename_i x r₂ hx
        have hlt₂ := Lexeme.length_lt_of_read (by decide) hx
        have hle₁ := length_dropBlank_le r₁
        split at h
        · rename_i hd
          cases h
          exact ⟨_, rfl, .dot hl hx hd⟩
        · rename_i d r₃ hd
          have hlt₃ := Lexeme.length_lt_of_read (by decide) hd
          have hle₂ := length_dropBlank_le r₂
          cases hb : exprAt resolve r₃ with
          | ok p => simp [hb, Except.map] at h
          | error e' =>
            rw [hb] at h
            cases h
            obtain ⟨rest, hrest, hfails⟩ := ih r₃ e (by omega) hb
            exact ⟨rest, hrest, .body hl hx hd hfails⟩
  · rw [readParens_plain] at h
    split at h
    · cases h
    · rename_i o r₁ ho
      have hlt₁ := Lexeme.length_lt_of_read (by decide) ho
      split at h
      · rename_i e' he
        cases h
        obtain ⟨rest, hrest, hfails⟩ := ih r₁ e (by omega) he
        exact ⟨rest, hrest, .inner ho hfails⟩
      · rename_i t r₂ ht
        split at h
        · rename_i hc
          cases h
          exact ⟨r₂, rfl, .unclosed ho (reads_of_exprAt ht) hc⟩
        · cases h

/-- So do the arguments of a term. -/
theorem failsWith_of_argsAt {n : ℕ}
    (ih : ∀ s e, s.length < n → exprAt resolve s = .error e → Part.expr.FailsWith resolve s e)
    (hs : s.length ≤ n) (h : argsAt resolve f (dropBlank s) = .error e) :
    (Part.args f).FailsWith resolve s e := by
  -- on the length of what is left, as for the arguments that are read
  induction hlen : s.length using Nat.strong_induction_on generalizing f s with
  | _ m ihm =>
    rw [argsAt_eq] at h
    split at h
    · rename_i e' he
      cases h
      obtain ⟨rest, hrest, hfails⟩ := failsWith_of_termAt he fun s' e' hs' =>
        ih s' e' (by omega)
      exact ⟨rest, hrest, .arg hfails⟩
    · cases h
    · rename_i a r ha
      have hlt := length_lt_of_termAt ha
      have hle := length_dropBlank_le s
      obtain ⟨rest, hrest, hfails⟩ := ihm _ (by omega) (by omega) h rfl
      have hread := reads_of_termAt (termAt_sound ha) fun s' u r _ => reads_of_exprAt
      exact ⟨rest, hrest, .args hread hfails⟩

/-- **A fault that is returned is by the rules.** -/
theorem failsWith_of_exprAt (h : exprAt resolve s = .error e) :
    Part.expr.FailsWith resolve s e := by
  induction hlen : s.length using Nat.strong_induction_on generalizing s e with
  | _ n ihn =>
    have ih : ∀ s' e', s'.length < n → exprAt resolve s' = .error e' →
        Part.expr.FailsWith resolve s' e' := fun s' e' hs' he => ihn _ hs' he rfl
    rw [exprAt_eq] at h
    split at h
    · rename_i e' he
      cases h
      obtain ⟨rest, hrest, hfails⟩ := failsWith_of_termAt he fun s' e' hs' => ih s' e' (by omega)
      exact ⟨rest, hrest, .first hfails⟩
    · rename_i hnone
      cases h
      exact ⟨_, rfl, .missing hnone⟩
    · rename_i t r ht
      have hlt := length_lt_of_termAt ht
      have hle := length_dropBlank_le s
      obtain ⟨rest, hrest, hfails⟩ := failsWith_of_argsAt ih (by omega) h
      have hread := reads_of_termAt (termAt_sound ht) fun s' u r _ => reads_of_exprAt
      exact ⟨rest, hrest, .expr hread hfails⟩

/-! ### Whole texts -/

/-- **How a whole text fails**: as an expression, or because something is left behind one. -/
def Rejected (resolve : String → Option Term) (s : List Char) (fault : Fault)
    (rest : List Char) : Prop :=
  Fails resolve .expr s fault rest ∨
    fault = .unexpectedToken ∧ rest ≠ [] ∧ ∃ t, Reads resolve .expr s t rest

/-- **A text that is not read is rejected**, at the place that the error names. -/
theorem parse_eq_error_iff {source : String} {e : SyntaxError} :
    parse resolve source = .error e ↔ ∃ rest, e = Stuck.toError ⟨e.fault, rest.length⟩ source ∧
      Rejected resolve source.toList e.fault rest := by
  rw [parse_eq]
  constructor
  · intro h
    split at h
    · rename_i e' he
      cases h
      obtain ⟨rest, hrest, hfails⟩ := failsWith_of_exprAt he
      exact ⟨rest, by rw [← hrest]; rfl, Or.inl hfails⟩
    · cases h
    · rename_i t c r ht
      cases h
      exact ⟨c :: r, rfl, Or.inr ⟨rfl, by simp, t, reads_of_exprAt ht⟩⟩
  · rintro ⟨rest, he, hfails | ⟨hfault, hne, t, ht⟩⟩
    · have hrefuses : exprAt resolve source.toList = .error _ := hfails.refuses
      rw [hrefuses]
      exact congrArg Except.error he.symm
    · have hfinds : exprAt resolve source.toList = .ok _ := ht.finds
      obtain ⟨c, r, rfl⟩ := List.exists_cons_of_ne_nil hne
      rw [hfault] at he
      rw [hfinds]
      exact congrArg Except.error he.symm

end LambdaTrace
