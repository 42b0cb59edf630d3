import LambdaTrace.Proofs.Reading.Rules
import Mathlib.Data.List.DropRight

/-!
# Cutting a text into tokens

The readers ask for one lexeme after another and never see a list of tokens. Here is the
list: a text is cut from the front, blanks being dropped before each token, and a token is
taken as long as it can be. Three dots are the placeholder, so the only place where the
readers do not follow that rule is the dot that ends the head of an abstraction: they take
it alone, whatever stands behind it, and `λx....` is the abstraction of a placeholder. The
cut therefore knows what of a head stands right before it (`LambdaTrace.Before`), and
`LambdaTrace.tokens?` is the one that the readers follow, `LambdaTrace.munchedTokens?` the
one that does not look back.

What a token is to the readers is told by `LambdaTrace.read_of_tokens?` and
`LambdaTrace.tokens?_of_read`: it is the lexeme of its kind that follows the blanks.
-/

namespace LambdaTrace

/-! ### Tokens -/

/-- The tokens that terms are written with. -/
inductive Token where
  /-- The placeholder. -/
  | dots
  /-- The name of a variable. -/
  | name (x : String)
  /-- The name of a macro. -/
  | macroName (n : String)
  /-- The sign of an abstraction. -/
  | lambda
  /-- The dot after a binder. -/
  | dot
  /-- The opening parenthesis. -/
  | openParen
  /-- The closing parenthesis. -/
  | closeParen
  deriving DecidableEq

/-- **The longest token** in front of a text, and what follows it. -/
def Token.longest? : List Char → Option (Token × List Char)
  | '.' :: '.' :: '.' :: s => some (.dots, s)
  | '.' :: s => some (.dot, s)
  | '\\' :: s => some (.lambda, s)
  | 'λ' :: s => some (.lambda, s)
  | '(' :: s => some (.openParen, s)
  | ')' :: s => some (.closeParen, s)
  | c :: s =>
    if isVarChar c then
      some (.name (String.ofList (c :: s.takeWhile isVarChar)), s.dropWhile isVarChar)
    else if isMacroChar c then
      some (.macroName (String.ofList (c :: s.takeWhile isMacroChar)), s.dropWhile isMacroChar)
    else none
  | [] => none

/-- What of the head of an abstraction stands right before a place in a text. -/
inductive Before where
  | nothing
  /-- The sign of the abstraction. -/
  | sign
  /-- The sign and the binder. -/
  | binder
  deriving DecidableEq

/-- What stands before the place after a token. -/
def Before.next : Before → Token → Before
  | _, .lambda => .sign
  | .sign, .name _ => .binder
  | _, _ => .nothing

/-- The token that is cut off a text: the longest one, but a single dot after a binder. -/
def Token.next? : Before → List Char → Option (Token × List Char)
  | .binder, '.' :: s => some (.dot, s)
  | _, s => Token.longest? s

theorem Token.length_lt_of_longest? {k : Token} {s r : List Char}
    (h : Token.longest? s = some (k, r)) : r.length < s.length := by
  unfold Token.longest? at h
  split at h
  case h_7 c s _ _ _ _ _ _ =>
    have hvar := dropWhile_length_le isVarChar s
    have hmacro := dropWhile_length_le isMacroChar s
    split at h
    · obtain ⟨-, rfl⟩ := by simpa using h
      simp only [List.length_cons]
      omega
    · split at h
      · obtain ⟨-, rfl⟩ := by simpa using h
        simp only [List.length_cons]
        omega
      · cases h
  all_goals simp at h
  all_goals obtain ⟨-, rfl⟩ := h
  all_goals simp only [List.length_cons]
  all_goals omega

theorem Token.length_lt_of_next? {b : Before} {k : Token} {s r : List Char}
    (h : Token.next? b s = some (k, r)) : r.length < s.length := by
  unfold Token.next? at h
  split at h
  · obtain ⟨-, rfl⟩ := by simpa using h
    simp
  · exact Token.length_lt_of_longest? h

/-- The tokens of a text, if it can be cut into tokens to the end; `next` says what is
known at each place of what stands before it. -/
def cut (next : Before → Token → Before) (b : Before) (s : List Char) : Option (List Token) :=
  match dropBlank s, length_dropBlank_le s with
  | [], _ => some []
  | c :: cs, hs =>
    match h : Token.next? b (c :: cs) with
    | none => none
    | some (k, r) =>
      have : r.length < s.length := Nat.lt_of_lt_of_le (Token.length_lt_of_next? h) hs
      (cut next (next b k) r).map (k :: ·)
termination_by s.length

/-- The tokens of a text, each as long as it can be. -/
def munchedTokens? (s : List Char) : Option (List Token) :=
  cut (fun _ _ => .nothing) .nothing s

/-- **The tokens of a text**, each as long as it can be, but for the dot after a binder. -/
def tokens? (b : Before) (s : List Char) : Option (List Token) :=
  cut .next b s

example : tokens? .nothing "λx.... (FOO  y1)".toList = some [.lambda, .name "x", .dot, .dots,
    .openParen, .macroName "FOO", .name "y1", .closeParen] := by
  decide +kernel

/-! ### Tokens and lexemes -/

/-- The lexeme that a token is for the readers. -/
def Token.kind : Token → Lexeme
  | .dots => .dots
  | .name _ => .varName
  | .macroName _ => .macroName
  | .lambda => .lambda
  | .dot => .dot
  | .openParen => .openParen
  | .closeParen => .closeParen

/-- Whether a token has these characters. Only names are told apart by them. -/
def Token.IsSpelled : Token → List Char → Prop
  | .name x, w => x = String.ofList w
  | .macroName n, w => n = String.ofList w
  | _, _ => True

variable {k : Token} {b : Before} {s r w : List Char} {ts : List Token}

theorem readRun_cons {p : Char → Bool} {c : Char} (h : p c = true) (s : List Char) :
    readRun p (c :: s) = some (c :: s.takeWhile p, s.dropWhile p) := by
  rw [readRun, List.takeWhile_cons, if_pos h, List.dropWhile_cons, if_pos h]

theorem closeParen_read_eq_some (h : Lexeme.closeParen.read s = some (w, r)) : s = ')' :: r := by
  unfold Lexeme.read at h
  split at h <;> simp_all

theorem dot_read_eq_some (h : Lexeme.dot.read s = some (w, r)) : s = '.' :: r := by
  unfold Lexeme.read at h
  split at h <;> simp_all

/-- The longest token is the lexeme of its kind. -/
theorem read_of_longest? (h : Token.longest? s = some (k, r)) :
    ∃ w, k.kind.read s = some (w, r) ∧ k.IsSpelled w := by
  unfold Token.longest? at h
  split at h
  case h_7 c s _ _ _ _ _ _ =>
    split at h
    · rename_i hc
      cases h
      exact ⟨_, readRun_cons hc s, rfl⟩
    · split at h
      · rename_i hc
        cases h
        exact ⟨_, readRun_cons hc s, rfl⟩
      · cases h
  all_goals cases h
  all_goals exact ⟨_, rfl, trivial⟩

/-- In front of a letter or a digit there is a name. -/
theorem longest?_cons {c : Char} (h : isVarChar c = true ∨ isMacroChar c = true) (s : List Char) :
    Token.longest? (c :: s) =
      if isVarChar c then
        some (.name (String.ofList (c :: s.takeWhile isVarChar)), s.dropWhile isVarChar)
      else if isMacroChar c then
        some (.macroName (String.ofList (c :: s.takeWhile isMacroChar)), s.dropWhile isMacroChar)
      else none := by
  have hne : ∀ d : Char, isVarChar d = false → isMacroChar d = false → c ≠ d := by
    rintro d hv hm rfl
    simp [hv, hm] at h
  unfold Token.longest?
  split
  case h_7 heq =>
    cases heq
    rfl
  case h_8 heq => cases heq
  all_goals
    rename_i heq
    exact absurd (List.cons.inj heq).1 (hne _ (by decide) (by decide))

/-- A lexeme is the longest token of its kind, unless that is a dot. -/
theorem longest?_of_read (hk : k ≠ .dot) (h : k.kind.read s = some (w, r))
    (hw : k.IsSpelled w) : Token.longest? s = some (k, r) := by
  cases k with
  | dots => rw [dots_read_eq_some h]; rfl
  | dot => exact absurd rfl hk
  | openParen => rw [openParen_read_eq_some h]; rfl
  | closeParen => rw [closeParen_read_eq_some h]; rfl
  | lambda => rcases lambda_read_eq_some h with rfl | rfl <;> rfl
  | name x =>
    obtain ⟨-, c, cs, rfl, hc⟩ := of_readRun h
    obtain ⟨rfl, rfl⟩ := Prod.mk.inj (Option.some.inj ((readRun_cons hc cs).symm.trans h))
    rw [longest?_cons (Or.inl hc), if_pos hc, hw]
  | macroName n =>
    obtain ⟨-, c, cs, rfl, hc⟩ := of_readRun h
    obtain ⟨rfl, rfl⟩ := Prod.mk.inj (Option.some.inj ((readRun_cons hc cs).symm.trans h))
    have hv : ¬isVarChar c = true := by simp [isVarChar_of_isMacroChar hc]
    rw [longest?_cons (Or.inr hc), if_neg hv, if_pos hc, hw]

/-- What is cut off is the lexeme of its kind. -/
theorem read_of_next? (h : Token.next? b s = some (k, r)) :
    ∃ w, k.kind.read s = some (w, r) ∧ k.IsSpelled w := by
  unfold Token.next? at h
  split at h
  · cases h
    exact ⟨_, rfl, trivial⟩
  · exact read_of_longest? h

/-- A lexeme is cut off as the token of its kind, a dot where a binder stands before it. -/
theorem next?_of_read (hk : k = .dot ↔ b = .binder) (h : k.kind.read s = some (w, r))
    (hw : k.IsSpelled w) : Token.next? b s = some (k, r) := by
  by_cases hdot : k = .dot
  · rw [hk.mp hdot]
    subst hdot
    rw [dot_read_eq_some h, Token.next?]
  · have hb : b ≠ .binder := fun hb => hdot (hk.mpr hb)
    rw [← longest?_of_read hdot h hw, Token.next?]
    exact fun _ hbinder => absurd hbinder hb

/-! ### The tokens of a text -/

theorem tokens?_eq (b : Before) (s : List Char) : tokens? b s =
    match dropBlank s with
    | [] => some []
    | c :: cs =>
      (Token.next? b (c :: cs)).bind fun p => (tokens? (b.next p.1) p.2).map (p.1 :: ·) := by
  rw [tokens?, cut]
  split
  · simp_all
  · rename_i heq _
    simp only [heq]
    split <;> simp_all [tokens?]

theorem tokens?_eq_nil_iff : tokens? b s = some [] ↔ dropBlank s = [] := by
  rw [tokens?_eq]
  split
  · simp_all
  · rename_i hs
    simp [hs, Option.bind_eq_some_iff]

theorem dropBlank_dropBlank (s : List Char) : dropBlank (dropBlank s) = dropBlank s :=
  List.dropWhile_idempotent isBlank s

/-- Blanks in front of a text do not matter. -/
theorem tokens?_dropBlank (b : Before) (s : List Char) : tokens? b (dropBlank s) = tokens? b s := by
  rw [tokens?_eq, tokens?_eq b s, dropBlank_dropBlank]

/-- **The first token of a text** is a lexeme after the blanks. -/
theorem read_of_tokens? (h : tokens? b s = some (k :: ts)) :
    ∃ w r, k.kind.read (dropBlank s) = some (w, r) ∧ k.IsSpelled w ∧
      tokens? (b.next k) r = some ts := by
  rw [tokens?_eq] at h
  split at h
  · cases h
  · rename_i hs
    obtain ⟨⟨k', r⟩, hnext, hrest⟩ := Option.bind_eq_some_iff.mp h
    obtain ⟨ts', hts, heq⟩ := Option.map_eq_some_iff.mp hrest
    cases heq
    obtain ⟨w, hread, hw⟩ := read_of_next? hnext
    exact ⟨w, r, hs ▸ hread, hw, hts⟩

/-- **A lexeme after the blanks** is the first token. -/
theorem tokens?_of_read (hk : k = .dot ↔ b = .binder) (h : k.kind.read (dropBlank s) = some (w, r))
    (hw : k.IsSpelled w) (hts : tokens? (b.next k) r = some ts) : tokens? b s = some (k :: ts) := by
  have hnext := next?_of_read hk h hw
  have hlt := Token.length_lt_of_next? hnext
  rw [tokens?_eq]
  split
  · rename_i hs
    rw [hs] at hlt
    exact absurd hlt (Nat.not_lt_zero _)
  · rename_i hs
    rw [← hs, hnext, Option.bind_some, hts]
    rfl

end LambdaTrace
