import LambdaTrace.Text.Blank

/-!
# Lexemes

The kinds of token that source text is made of, and how each is read off the front
of a text. A name is read greedily, as far as its class of characters goes; so is
blank space, which is the one lexeme that may be empty. There is no table of
tokens in between: a reader asks for the lexeme it can use next, and whether
`...` is a placeholder or a dot followed by two more depends on what was asked for.

`LambdaTrace.Cursor` is a place in a source text, for reading one lexeme after
another.
-/

namespace LambdaTrace

/-- A character of a variable name. -/
def isVarChar (c : Char) : Bool :=
  ('a' ≤ c && c ≤ 'z') || ('0' ≤ c && c ≤ '9')

/-- A character of a macro name. -/
def isMacroChar (c : Char) : Bool :=
  'A' ≤ c && c ≤ 'Z'

/-- The kinds of token. -/
inductive Lexeme where
  /-- The name of a variable. -/
  | varName
  /-- The name of a macro. -/
  | macroName
  /-- The sign of an abstraction, `λ` or a backslash. -/
  | lambda
  /-- The sign of a definition, `≜` or `:=`. -/
  | declare
  /-- Blank space, possibly none. -/
  | blank
  /-- The dot after a binder. -/
  | dot
  /-- The placeholder. -/
  | dots
  /-- The opening parenthesis. -/
  | openParen
  /-- The closing parenthesis. -/
  | closeParen
  deriving DecidableEq

/-- The longest run of characters of a class in front of a text, if there is one,
and what follows it. -/
def readRun (p : Char → Bool) (s : List Char) : Option (List Char × List Char) :=
  match s.takeWhile p with
  | [] => none
  | c :: cs => some (c :: cs, s.dropWhile p)

/-- The lexeme of a kind in front of a text, and what follows it. -/
def Lexeme.read : Lexeme → List Char → Option (List Char × List Char)
  | .varName, s => readRun isVarChar s
  | .macroName, s => readRun isMacroChar s
  | .lambda, '\\' :: s => some (['\\'], s)
  | .lambda, 'λ' :: s => some (['λ'], s)
  | .declare, '≜' :: s => some (['≜'], s)
  | .declare, ':' :: '=' :: s => some ([':', '='], s)
  | .blank, s => some (s.takeWhile isBlank, dropBlank s)
  | .dot, '.' :: s => some (['.'], s)
  | .dots, '.' :: '.' :: '.' :: s => some (['.', '.', '.'], s)
  | .openParen, '(' :: s => some (['('], s)
  | .closeParen, ')' :: s => some ([')'], s)
  | _, _ => none

/-! ### What reading leaves -/

theorem takeWhile_append_dropWhile_eq {α : Type} (p : α → Bool) (s : List α) :
    s.takeWhile p ++ s.dropWhile p = s := by
  induction s with
  | nil => rfl
  | cons c s ih =>
    by_cases h : p c = true
    · simp [h]
    · simp [h]

/-- A run and what follows it make up the text. -/
theorem readRun_append {p : Char → Bool} {s w r : List Char} (h : readRun p s = some (w, r)) :
    w ++ r = s := by
  unfold readRun at h
  split at h
  · exact absurd h (by simp)
  · rename_i c cs htake
    obtain ⟨rfl, rfl⟩ := by simpa using h
    rw [← htake]
    exact takeWhile_append_dropWhile_eq p s

/-- A run is not empty. -/
theorem readRun_ne_nil {p : Char → Bool} {s w r : List Char} (h : readRun p s = some (w, r)) :
    w ≠ [] := by
  unfold readRun at h
  split at h
  · exact absurd h (by simp)
  · obtain ⟨rfl, -⟩ := by simpa using h
    simp

/-- A lexeme and what follows it make up the text. -/
theorem Lexeme.read_append {k : Lexeme} {s w r : List Char} (h : k.read s = some (w, r)) :
    w ++ r = s := by
  unfold Lexeme.read at h
  split at h
  case h_1 => exact readRun_append h
  case h_2 => exact readRun_append h
  case h_7 =>
    obtain ⟨rfl, rfl⟩ := by simpa using h
    exact takeWhile_append_dropWhile_eq isBlank s
  all_goals simp at h
  all_goals obtain ⟨rfl, rfl⟩ := h
  all_goals rfl

/-- Every lexeme but blank space takes at least one character. -/
theorem Lexeme.length_lt_of_read {k : Lexeme} {s w r : List Char} (hk : k ≠ .blank)
    (h : k.read s = some (w, r)) : r.length < s.length := by
  have hne : w ≠ [] := by
    unfold Lexeme.read at h
    split at h
    case h_1 => exact readRun_ne_nil h
    case h_2 => exact readRun_ne_nil h
    case h_7 => exact absurd rfl hk
    all_goals simp at h
    all_goals obtain ⟨rfl, -⟩ := h
    all_goals simp
  have hlen : s.length = w.length + r.length := by
    rw [← Lexeme.read_append h, List.length_append]
  have hpos : 0 < w.length := List.length_pos_iff.mpr hne
  omega

/-! ### A place in a source text -/

/-- A source text and how many of its characters have been read. A negative number
is a place in front of the text: reading starts at the beginning, and the place
stays where it is until something is read. -/
structure Cursor where
  source : String
  offset : Int
  deriving DecidableEq, Inhabited

namespace Cursor

/-- The start of a text. -/
def ofSource (source : String) : Cursor :=
  ⟨source, 0⟩

/-- The characters still to be read. -/
def unread (c : Cursor) : List Char :=
  c.source.toList.drop c.offset.toNat

/-- The characters after the place. A place in front of the text is counted from the
end of it. -/
def rest (c : Cursor) : List Char :=
  c.source.toList.drop (if c.offset < 0 then c.source.length + c.offset else c.offset).toNat

/-- Whether everything has been read. -/
def done (c : Cursor) : Bool :=
  (c.source.length : Int) ≤ c.offset

/-- The place in the same text where this many characters are left. -/
def withLeft (c : Cursor) (left : Nat) : Cursor :=
  { c with offset := (c.source.length - left : Nat) }

/-- Reads a lexeme: its text and the place after it. -/
def read? (c : Cursor) (k : Lexeme) : Option (String × Cursor) :=
  (k.read c.unread).map fun (w, r) => (String.ofList w, c.withLeft r.length)

/-- The place after the blank space, if any, at this one. -/
def skipBlank (c : Cursor) : Cursor :=
  c.withLeft (dropBlank c.unread).length

end Cursor

end LambdaTrace
