import LambdaTrace.Source.Lexeme
import LambdaTrace.Term.Basic

/-!
# Reading terms

A recursive-descent reader for

    expr ::= term+                       application, associating to the left
    term ::= "..."                       a placeholder
           | [a-z0-9]+                   a variable
           | [A-Z]+                      a macro
           | ("\" | "λ") name "." expr   an abstraction, extending as far as it can
           | "(" expr ")"

with blank space allowed between any two tokens. The alternatives of a term are
tried in this order, and each of them is told from the others by its first
character, so nothing is ever read twice.

A macro name is resolved as soon as it is read, by a function from names to the
terms they stand for; the tree holds the expansion from then on.

Every rule returns what is left of the text together with the fact that it is
shorter, which is what the recursion ends by. A rule that gives up says what it
missed and how much was left at that point (`LambdaTrace.Stuck`); counted from the
front of the source that is the offset of a `LambdaTrace.SyntaxError`.
-/

namespace LambdaTrace

/-- What was wrong with a source text. -/
inductive Fault where
  /-- No term where one has to stand. -/
  | expectedTerm
  /-- Something is left after the whole expression. -/
  | unexpectedToken
  /-- An opening parenthesis without its closing one. -/
  | unbalanced
  /-- A macro name that nothing is known of. -/
  | unknownMacro
  /-- No variable name after the sign of an abstraction. -/
  | expectedBinder
  /-- No dot after the name of a binder. -/
  | expectedDot
  /-- A definition that does not start with a name and the sign of a definition. -/
  | malformedDefinition
  /-- A definition of a term that is not closed. -/
  | openDefinition
  deriving DecidableEq

/-- The wording of a fault. -/
def Fault.message : Fault → String
  | .expectedTerm => "expected term"
  | .unexpectedToken => "unexpected token"
  | .unbalanced => "unbalanced parentheses"
  | .unknownMacro => "macro undefined"
  | .expectedBinder => "expected variable name after lambda"
  | .expectedDot => "expected dot after variable name"
  | .malformedDefinition => "improperly formatted macro definition"
  | .openDefinition => "macros must be closed terms"

/-- A source text that could not be read, with the place of the fault. -/
structure SyntaxError where
  fault : Fault
  /-- The number of characters before the fault; negative for a place in front of the
  text. -/
  offset : Int
  source : String
  deriving DecidableEq

/-- A fault, and how many characters were left when it was met. -/
structure Stuck where
  fault : Fault
  left : Nat
  deriving DecidableEq

/-- A term and a rest that is shorter than the text both were read from. -/
abbrev ReadFrom (s : List Char) := { p : Term × List Char // p.2.length < s.length }

/-- What a rule makes of a text: it gives up, it finds no term of its kind, or it
finds one. -/
abbrev Reading (s : List Char) := Except Stuck (Option (ReadFrom s))

namespace Reading

/-- The next alternative, where this one finds nothing. -/
def orTry {s : List Char} (r : Reading s) (next : Unit → Reading s) : Reading s :=
  match r with
  | .ok none => next ()
  | .ok (some p) => .ok (some p)
  | .error e => .error e

end Reading

/-! ### The atoms -/

/-- A placeholder. -/
def readDots (s : List Char) : Reading s :=
  match h : Lexeme.dots.read s with
  | some (_, r) => .ok (some ⟨(Term.dots, r), Lexeme.length_lt_of_read (by decide) h⟩)
  | none => .ok none

/-- A variable. -/
def readVar (s : List Char) : Reading s :=
  match h : Lexeme.varName.read s with
  | some (w, r) => .ok (some ⟨(.var (String.ofList w), r), Lexeme.length_lt_of_read (by decide) h⟩)
  | none => .ok none

/-- A macro, with what it stands for. -/
def readMacro (resolve : String → Option Term) (s : List Char) : Reading s :=
  match h : Lexeme.macroName.read s with
  | some (w, r) =>
    match resolve (String.ofList w) with
    | some t =>
      .ok (some ⟨(.ref (String.ofList w) t, r), Lexeme.length_lt_of_read (by decide) h⟩)
    | none => .error ⟨.unknownMacro, s.length⟩
  | none => .ok none

/-! ### The recursive rules -/

mutual

/-- One term, not an application. -/
def readTerm (resolve : String → Option Term) (s : List Char) : Reading s :=
  (readDots s).orTry fun _ => (readVar s).orTry fun _ => (readMacro resolve s).orTry fun _ =>
    (readAbs resolve s).orTry fun _ => readParens resolve s
termination_by 4 * s.length + 1

/-- An abstraction. -/
def readAbs (resolve : String → Option Term) (s : List Char) : Reading s :=
  match h₁ : Lexeme.lambda.read s with
  | none => .ok none
  | some (_, r₁) =>
    match h₂ : Lexeme.varName.read (dropBlank r₁) with
    | none => .error ⟨.expectedBinder, (dropBlank r₁).length⟩
    | some (x, r₂) =>
      match h₃ : Lexeme.dot.read (dropBlank r₂) with
      | none => .error ⟨.expectedDot, (dropBlank r₂).length⟩
      | some (_, r₃) =>
        have hr₃ : r₃.length < s.length := by
          have l₁ := Lexeme.length_lt_of_read (by decide) h₁
          have l₂ := Lexeme.length_lt_of_read (by decide) h₂
          have l₃ := Lexeme.length_lt_of_read (by decide) h₃
          have b₁ := length_dropBlank_le r₁
          have b₂ := length_dropBlank_le r₂
          omega
        match readExpr resolve r₃ with
        | .error e => .error e
        | .ok ⟨(b, r₄), h₄⟩ => .ok (some ⟨(.abs (String.ofList x) b, r₄), Nat.lt_trans h₄ hr₃⟩)
termination_by 4 * s.length + 0

/-- An expression in parentheses. -/
def readParens (resolve : String → Option Term) (s : List Char) : Reading s :=
  match h₁ : Lexeme.openParen.read s with
  | none => .ok none
  | some (_, r₁) =>
    have hr₁ : r₁.length < s.length := Lexeme.length_lt_of_read (by decide) h₁
    match readExpr resolve r₁ with
    | .error e => .error e
    | .ok ⟨(t, r₂), h₂⟩ =>
      match h₃ : Lexeme.closeParen.read r₂ with
      | none => .error ⟨.unbalanced, r₂.length⟩
      | some (_, r₃) =>
        .ok (some ⟨(t, r₃),
          Nat.lt_trans (Nat.lt_trans (Lexeme.length_lt_of_read (by decide) h₃) h₂) hr₁⟩)
termination_by 4 * s.length + 0

/-- A row of terms, each the argument of what stands before it. -/
def readExpr (resolve : String → Option Term) (s : List Char) : Except Stuck (ReadFrom s) :=
  have hs : (dropBlank s).length ≤ s.length := length_dropBlank_le s
  match readTerm resolve (dropBlank s) with
  | .error e => .error e
  | .ok none => .error ⟨.expectedTerm, (dropBlank s).length⟩
  | .ok (some ⟨(t, r), h⟩) =>
    have hr : (dropBlank r).length < s.length := by
      have hb := length_dropBlank_le r
      have hlt : r.length < (dropBlank s).length := h
      omega
    match readArgs resolve t (dropBlank r) with
    | .error e => .error e
    | .ok ⟨p, hp⟩ => .ok ⟨p, Nat.lt_of_le_of_lt hp hr⟩
termination_by 4 * s.length + 3

/-- The arguments that follow a term, as far as they go. -/
def readArgs (resolve : String → Option Term) (fn : Term) (s : List Char) :
    Except Stuck { p : Term × List Char // p.2.length ≤ s.length } :=
  match readTerm resolve s with
  | .error e => .error e
  | .ok none => .ok ⟨(fn, s), Nat.le_refl _⟩
  | .ok (some ⟨(t, r), h⟩) =>
    have hr : (dropBlank r).length < s.length := Nat.lt_of_le_of_lt (length_dropBlank_le r) h
    match readArgs resolve (.app fn t) (dropBlank r) with
    | .error e => .error e
    | .ok ⟨p, hp⟩ => .ok ⟨p, Nat.le_trans hp (Nat.le_of_lt hr)⟩
termination_by 4 * s.length + 2

end

/-! ### Whole texts -/

/-- A fault met with some characters left, as an error of the source. -/
def Stuck.toError (e : Stuck) (source : String) : SyntaxError :=
  ⟨e.fault, (source.length - e.left : Nat), source⟩

/-- Reads everything after the first `start` characters as one expression. -/
def parseFrom (resolve : String → Option Term) (source : String) (start : Nat) :
    Except SyntaxError Term :=
  match readExpr resolve (source.toList.drop start) with
  | .error e => .error (e.toError source)
  | .ok ⟨(t, []), _⟩ => .ok t
  | .ok ⟨(_, c :: r), _⟩ => .error (Stuck.toError ⟨.unexpectedToken, (c :: r).length⟩ source)

/-- **Reading**: the term that a whole source text is. -/
def parse (resolve : String → Option Term) (source : String) : Except SyntaxError Term :=
  parseFrom resolve source 0

/-- The grammar without macros. -/
def noMacros : String → Option Term :=
  fun _ => none

/-! ### Single rules -/

/-- The rules of the grammar that can be asked for by name. -/
inductive Rule where
  | expr
  | term
  | dots
  | var
  | macroName
  | abs
  deriving DecidableEq

/-- What a rule makes of a text. -/
def Rule.read (rule : Rule) (resolve : String → Option Term) (s : List Char) : Reading s :=
  match rule with
  | .expr => (readExpr resolve s).map some
  | .term => readTerm resolve s
  | .dots => readDots s
  | .var => readVar s
  | .macroName => readMacro resolve s
  | .abs => readAbs resolve s

/-- A fault met by a rule that was applied at a place. A macro name that nothing is
known of is given back, so the place is that of the fault if the name stands there. -/
def Rule.errorAt (rule : Rule) (e : Stuck) (c : Cursor) : SyntaxError :=
  let error := e.toError c.source
  if rule ≠ .expr ∧ e.left = c.unread.length then { error with offset := c.offset } else error

/-- Applies a rule at a place in a text. Where the rule finds nothing, the place
stays what it was. -/
def Rule.readAt (rule : Rule) (resolve : String → Option Term) (c : Cursor) :
    Except SyntaxError (Option Term × Cursor) :=
  match rule.read resolve c.unread with
  | .error e => .error (rule.errorAt e c)
  | .ok none => .ok (none, c)
  | .ok (some ⟨(t, r), _⟩) => .ok (some t, c.withLeft r.length)

end LambdaTrace
