import LambdaTrace.Proofs.Reading.Accepted
import LambdaTrace.Proofs.Reading.RoundTrip
import LambdaTrace.Proofs.Text.Cut

/-!
# What is read alike

Two texts that begin alike are read alike up to where they part, and sometimes a little less
far. A lexeme other than a name is read alike whatever follows it, and a name if its class of
characters does not go on (`LambdaTrace.Lexeme.exists_frame`). A row of terms is read alike if no
term follows. What may follow instead of something else is told by `LambdaTrace.EndsAlike`, and
then everything that is read is read alike (`LambdaTrace.Reads.exists_frame`).

Most often the two texts go on with the same character. That is enough unless it is a dot, for
one dot is not the start of a term, and three are.
-/

namespace LambdaTrace

variable {resolve : String → Option Term} {part : Part} {k : Lexeme} {c : Char}
  {s r r' p w b : List Char} {t f : Term}

/-! ### Where a lexeme ends -/

/-- Whether a lexeme of a kind ends where the text goes on like this. Only names can go on. -/
def Lexeme.EndsAt (r : List Char) : Lexeme → Prop
  | .varName => StartsOutside isVarChar r
  | .macroName => StartsOutside isMacroChar r
  | _ => True

theorem Lexeme.endsAt_of_read (h : k.read s = some (w, r)) : k.EndsAt r := by
  cases k with
  | varName => exact startsOutside_of_readRun h
  | macroName => exact startsOutside_of_readRun h
  | _ => trivial

theorem Lexeme.endsAt_blank (k : Lexeme) (r : List Char) : k.EndsAt (' ' :: r) := by
  cases k with
  | varName => exact startsOutside_cons (by decide) r
  | macroName => exact startsOutside_cons (by decide) r
  | _ => trivial

theorem Lexeme.endsAt_of_closes (k : Lexeme) (h : Closes r) : k.EndsAt r := by
  have hends : Ends r := Or.inl h
  cases k with
  | varName => exact hends.startsOutside_isVarChar
  | macroName => exact hends.startsOutside_isMacroChar
  | _ => trivial

/-- Where a lexeme ends is told by the next character. -/
theorem Lexeme.EndsAt.of_cons (h : k.EndsAt (c :: r)) (r' : List Char) : k.EndsAt (c :: r') := by
  cases k with
  | varName => exact startsOutside_cons (h c rfl) r'
  | macroName => exact startsOutside_cons (h c rfl) r'
  | _ => trivial

theorem Lexeme.EndsAt.append (h : k.EndsAt (p ++ r)) (hr : k.EndsAt r → k.EndsAt r') :
    k.EndsAt (p ++ r') := by
  cases p with
  | nil => exact hr h
  | cons c p => exact h.of_cons (p ++ r')

/-- A lexeme is read alike where it ends. -/
theorem Lexeme.read_append_of_endsAt (hk : k ≠ .blank) (h : k.read s = some (w, r))
    (hr : k.EndsAt r') : k.read (w ++ r') = some (w, r') := by
  unfold Lexeme.read at h
  split at h
  case h_1 => exact readRun_append_of_all (of_readRun h).1.1 (of_readRun h).1.2 hr
  case h_2 => exact readRun_append_of_all (of_readRun h).1.1 (of_readRun h).1.2 hr
  case h_7 => exact absurd rfl hk
  all_goals simp at h
  all_goals obtain ⟨rfl, -⟩ := h
  all_goals rfl

theorem dropBlank_blanks (hb : ∀ c ∈ b, isBlank c = true) (hr : StartsOutside isBlank r) :
    dropBlank (b ++ r) = r := by
  rw [dropBlank_append_of_blank hb, dropBlank_of_startsOutside hr]

/-- The blanks in front of a text are those in front of another that goes on with the same
character. -/
theorem exists_blank_frame (s : List Char) : ∃ b, (∀ c ∈ b, isBlank c = true) ∧
    s = b ++ dropBlank s ∧
      ∀ c r, dropBlank s = c :: r → ∀ r', dropBlank (b ++ c :: r') = c :: r' := by
  obtain ⟨b, hb, hs⟩ := exists_blank_append s
  refine ⟨b, hb, hs, fun c r hc r' => dropBlank_blanks hb (startsOutside_cons ?_ r')⟩
  exact startsOutside_dropBlank s c (by rw [hc]; rfl)

/-- **A lexeme is read alike** together with the blanks in front of it. -/
theorem Lexeme.exists_frame (hk : k ≠ .blank) (h : k.read (dropBlank s) = some (w, r)) :
    ∃ p, p ≠ [] ∧ s = p ++ r ∧
      ∀ r', k.EndsAt r' → k.read (dropBlank (p ++ r')) = some (w, r') := by
  obtain ⟨b, hb, hs⟩ := exists_blank_append s
  have happ : w ++ r = dropBlank s := Lexeme.read_append h
  obtain ⟨d, w, rfl⟩ : ∃ d w', w = d :: w' := by
    refine List.exists_cons_of_ne_nil ?_
    rintro rfl
    have hlt := Lexeme.length_lt_of_read hk h
    rw [← happ] at hlt
    exact absurd hlt (Nat.lt_irrefl _)
  have hd : isBlank d = false := by
    have hstart := startsOutside_dropBlank s
    rw [← happ] at hstart
    exact hstart d rfl
  refine ⟨b ++ d :: w, by simp, by rw [List.append_assoc, happ, ← hs], fun r' hr' => ?_⟩
  rw [List.append_assoc, List.cons_append, dropBlank_blanks hb (startsOutside_cons hd _)]
  exact Lexeme.read_append_of_endsAt hk h hr'

/-- The head of an abstraction is read alike whatever the body. -/
theorem exists_frame_head {l x d r₁ r₂ r₃ : List Char}
    (hl : Lexeme.lambda.read (dropBlank s) = some (l, r₁))
    (hx : Lexeme.varName.read (dropBlank r₁) = some (x, r₂))
    (hd : Lexeme.dot.read (dropBlank r₂) = some (d, r₃)) :
    ∃ p, s = p ++ r₃ ∧ ∀ r₃', ∃ r₁' r₂',
      Lexeme.lambda.read (dropBlank (p ++ r₃')) = some (l, r₁') ∧
        Lexeme.varName.read (dropBlank r₁') = some (x, r₂') ∧
          Lexeme.dot.read (dropBlank r₂') = some (d, r₃') := by
  obtain ⟨p₁, -, rfl, hp₁⟩ := Lexeme.exists_frame (by decide) hl
  obtain ⟨p₂, -, rfl, hp₂⟩ := Lexeme.exists_frame (by decide) hx
  obtain ⟨p₃, hne₃, rfl, hp₃⟩ := Lexeme.exists_frame (by decide) hd
  refine ⟨p₁ ++ (p₂ ++ p₃), by simp, fun r₃' => ?_⟩
  refine ⟨p₂ ++ (p₃ ++ r₃'), p₃ ++ r₃', ?_, hp₂ _ ?_, hp₃ _ trivial⟩
  · simpa using hp₁ (p₂ ++ (p₃ ++ r₃')) trivial
  · obtain ⟨c, p₃, rfl⟩ := List.exists_cons_of_ne_nil hne₃
    exact (Lexeme.endsAt_of_read hx).of_cons _

/-! ### What may follow instead -/

/-- Whether a row of terms stops where the text goes on like this. -/
def StopsAt (resolve : String → Option Term) (r : List Char) : Prop :=
  dropBlank r = r ∧ termAt resolve r = .ok none

/-- **Whether what is read in front of the one text ends in front of the other alike.** -/
structure EndsAlike (resolve : String → Option Term) (r r' : List Char) : Prop where
  lexeme : ∀ k : Lexeme, k.EndsAt r → k.EndsAt r'
  row : StopsAt resolve r → StopsAt resolve r'

theorem stopsAt_of_closes (h : Closes r) : StopsAt resolve r :=
  ⟨h.dropBlank, termAt_eq_none h⟩

theorem endsAlike_of_closes (h : Closes r') : EndsAlike resolve r r' where
  lexeme k _ := k.endsAt_of_closes h
  row _ := stopsAt_of_closes h

/-- Whether a term starts is told by the next character, unless that is a dot. -/
theorem termAt_cons_eq_none_iff (hc : c ≠ '.') : termAt resolve (c :: r) = .ok none ↔
    isVarChar c = false ∧ isMacroChar c = false ∧ c ≠ '\\' ∧ c ≠ 'λ' ∧ c ≠ '(' := by
  rw [termAt_eq_none_iff]
  constructor
  · rintro ⟨-, hvar, hmacro, hlambda, hopen⟩
    refine ⟨?_, ?_, ?_, ?_, ?_⟩
    · rw [Bool.eq_false_iff]
      intro hv
      rw [Lexeme.read, readRun_cons hv] at hvar
      cases hvar
    · rw [Bool.eq_false_iff]
      intro hm
      rw [Lexeme.read, readRun_cons hm] at hmacro
      cases hmacro
    · rintro rfl
      cases hlambda
    · rintro rfl
      cases hlambda
    · rintro rfl
      cases hopen
  · rintro ⟨hv, hm, hb, hl, ho⟩
    exact ⟨dots_read_of_ne hc r, varName_read_of_not hv r, macroName_read_of_not hm r,
      lambda_read_of_ne hb hl r, openParen_read_of_ne ho r⟩

theorem endsAlike_cons (hc : c ≠ '.') : EndsAlike resolve (c :: r) (c :: r') where
  lexeme _ h := h.of_cons r'
  row h := by
    have hblank : StartsOutside isBlank (c :: r) := h.1 ▸ startsOutside_dropBlank (c :: r)
    refine ⟨dropBlank_of_startsOutside (startsOutside_cons (hblank c rfl) r'), ?_⟩
    exact (termAt_cons_eq_none_iff hc).mpr ((termAt_cons_eq_none_iff hc).mp h.2)

/-- What ends alike behind the arguments of a term ends alike in front of them: where there are
any, a term starts there, and the row does not stop. -/
theorem EndsAlike.args (ha : EndsAlike resolve r r') (h : Reads resolve (.args f) (p ++ r) t r) :
    EndsAlike resolve (p ++ r) (p ++ r') where
  lexeme k hk := hk.append (ha.lexeme k)
  row hstops := by
    have hfinds : argsAt resolve f (dropBlank (p ++ r)) = .ok (t, r) := h.finds
    rw [hstops.1, argsAt_eq, hstops.2] at hfinds
    have hsame : p ++ r = r := (Prod.mk.inj (Except.ok.inj hfinds)).2
    obtain rfl : p = [] := by simpa using hsame
    exact ha.row hstops

/-- **What is read is read alike** where it ends alike. -/
theorem Reads.exists_frame (h : Reads resolve part s t r) :
    ∃ p, s = p ++ r ∧ ∀ r', EndsAlike resolve r r' → Reads resolve part (p ++ r') t r' := by
  induction h with
  | dots hw =>
    obtain ⟨p, -, rfl, hp⟩ := Lexeme.exists_frame (by decide) hw
    exact ⟨p, rfl, fun r' _ => .dots (hp r' trivial)⟩
  | var hw =>
    obtain ⟨p, -, rfl, hp⟩ := Lexeme.exists_frame (by decide) hw
    exact ⟨p, rfl, fun r' ha => .var (hp r' (ha.lexeme _ (Lexeme.endsAt_of_read hw)))⟩
  | ref hw ht =>
    obtain ⟨p, -, rfl, hp⟩ := Lexeme.exists_frame (by decide) hw
    exact ⟨p, rfl, fun r' ha => .ref (hp r' (ha.lexeme _ (Lexeme.endsAt_of_read hw))) ht⟩
  | abs hl hx hd _ ih =>
    obtain ⟨p₁, rfl, hp₁⟩ := exists_frame_head hl hx hd
    obtain ⟨p₂, rfl, hp₂⟩ := ih
    refine ⟨p₁ ++ p₂, (List.append_assoc ..).symm, fun r' ha => ?_⟩
    obtain ⟨r₁', r₂', hl', hx', hd'⟩ := hp₁ (p₂ ++ r')
    rw [List.append_assoc]
    exact .abs hl' hx' hd' (hp₂ r' ha)
  | parens ho _ hc ih =>
    obtain ⟨p₁, -, rfl, hp₁⟩ := Lexeme.exists_frame (by decide) ho
    obtain ⟨p₂, rfl, hp₂⟩ := ih
    obtain rfl := closeParen_read_eq_some hc
    refine ⟨p₁ ++ (p₂ ++ [')']), by simp, fun r' _ => ?_⟩
    have hbody := hp₂ (')' :: r') (endsAlike_cons (by decide))
    have hopen := hp₁ (p₂ ++ ')' :: r') trivial
    simpa using Reads.parens hopen hbody rfl
  | expr _ hargs ih iha =>
    obtain ⟨p₂, rfl, hp₂⟩ := iha
    obtain ⟨p₁, rfl, hp₁⟩ := ih
    refine ⟨p₁ ++ p₂, (List.append_assoc ..).symm, fun r' ha => ?_⟩
    rw [List.append_assoc]
    exact .expr (hp₁ _ (ha.args hargs)) (hp₂ r' ha)
  | arg _ hargs ih iha =>
    obtain ⟨p₂, rfl, hp₂⟩ := iha
    obtain ⟨p₁, rfl, hp₁⟩ := ih
    refine ⟨p₁ ++ p₂, (List.append_assoc ..).symm, fun r' ha => ?_⟩
    rw [List.append_assoc]
    exact .arg (hp₁ _ (ha.args hargs)) (hp₂ r' ha)
  | @done s f hnone =>
    obtain ⟨b, hb, hs⟩ := exists_blank_append s
    refine ⟨b, hs, fun r' ha => ?_⟩
    obtain ⟨hblank, hstop⟩ := ha.row ⟨dropBlank_dropBlank s, hnone⟩
    have hr' : dropBlank (b ++ r') = r' := by rw [dropBlank_append_of_blank hb, hblank]
    have hdone : Reads resolve (.args f) (b ++ r') f (dropBlank (b ++ r')) :=
      .done (by rw [hr', hstop])
    rwa [hr'] at hdone

end LambdaTrace
