import LambdaTrace.Text.Blank
import LambdaTrace.Text.Find

/-!
# Statements

A line of a session is one of three kinds of statement: the import of a file, the
definition of a macro, or a term to be run. The kind is settled by a glance at the
line – a definition is any line with the sign of a definition in it – and what is
inside is only read when the statement is carried out.

Lines are made into statements by `LambdaTrace.Grouping`: a comment is cut off, and
a line with more opening than closing parentheses goes on in the next one.
-/

namespace LambdaTrace

/-- The kinds of statement. -/
inductive StatementKind where
  /-- `#import "FILE"`: the macros of another file. -/
  | importing
  /-- `NAME ≜ TERM`: a macro. -/
  | definition
  /-- A term to be run. -/
  | execution
  deriving DecidableEq, Inhabited

/-- What a kind of statement is called. -/
def StatementKind.name : StatementKind → String
  | .importing => "ImportStmt"
  | .definition => "MacroStmt"
  | .execution => "ExecStmt"

/-- A statement: its kind, its text without surrounding blanks, and the line as it
was given. -/
structure Statement where
  kind : StatementKind
  text : String
  line : String
  deriving DecidableEq, Inhabited

/-- Why a line is no statement. -/
inductive StatementError where
  /-- An import without a file name in quotes. -/
  | malformedImport (line : String)
  /-- A blank line. -/
  | blank (line : String)
  deriving DecidableEq

namespace Statement

/-- The signs of a definition, in the order in which they are looked for. -/
def declarators : List String :=
  ["≜", ":="]

/-- The word an import starts with. -/
def importWord : String := "#import"

/-! ### The parts of an import -/

/-- A text up to its first space, and what follows that space. -/
def splitAtSpace (s : List Char) : List Char × List Char :=
  (s.takeWhile (· != ' '), (s.dropWhile (· != ' ')).drop 1)

/-- What follows the first word of a statement, without surrounding blanks. -/
def afterFirstWord (text : String) : List Char :=
  stripChars (splitAtSpace text.toList).2

/-- A text without its first and its last character. -/
def inner (s : List Char) : List Char :=
  (s.drop 1).dropLast

/-- Whether a text stands in double quotes. -/
def isQuoted (s : List Char) : Bool :=
  2 ≤ s.length && s.head? == some '"' && s.getLast? == some '"'

/-! ### Telling the kinds apart -/

/-- Whether a line is an import; one that starts like an import has to be one. -/
def checkImport (line : String) : Except StatementError Bool :=
  let text := strip line
  if !importWord.toList.isPrefixOf text.toList then .ok false
  else if (splitAtSpace text.toList).1 == importWord.toList && isQuoted (afterFirstWord text) then
    .ok true
  else .error (.malformedImport line)

/-- Whether a line is a definition. -/
def isDefinition (line : String) : Bool :=
  declarators.any (occursIn · line)

/-- **The statement that a line is.** -/
def infer (line : String) : Except StatementError Statement :=
  match checkImport line with
  | .error e => .error e
  | .ok true => .ok ⟨.importing, strip line, line⟩
  | .ok false =>
    if isDefinition line then .ok ⟨.definition, strip line, line⟩
    else if (strip line).isEmpty then .error (.blank line)
    else .ok ⟨.execution, strip line, line⟩

/-- A statement of a given kind, whatever the line holds. -/
def ofKind (kind : StatementKind) (line : String) : Statement :=
  ⟨kind, strip line, strip line⟩

/-! ### What a statement holds -/

/-- The file that an import names. -/
def importPath (s : Statement) : String :=
  String.ofList (inner (afterFirstWord s.text))

/-- The name that a definition is for: what stands before the first sign of a
definition of the first kind that occurs. -/
def definedName? (s : Statement) : Option String :=
  (declarators.find? (occursIn · s.text)).map fun d =>
    String.ofList (stripChars (before d s.text.toList))

/-- Whether two statements are the same, wherever their lines came from. -/
def same (s t : Statement) : Bool :=
  s.kind == t.kind && s.text == t.text

/-- The statement in words. -/
def summary (s : Statement) : String :=
  s.kind.name ++ "('" ++ s.text ++ "')"

end Statement

/-! ### Grouping lines -/

namespace Grouping

/-- What a comment starts with. -/
def commentMark : String := ";;"

/-- A line without its comment and without surrounding blanks. -/
def clean (line : String) : String :=
  String.ofList (stripChars (before commentMark line.toList))

/-- Whether a text has more opening than closing parentheses, so that it goes on in
the next line. -/
def goesOn (text : String) : Bool :=
  text.toList.count ')' < text.toList.count '('

/-- The statements collected so far with their line numbers, and whether the last
one goes on. -/
structure Progress where
  statements : List (String × Int)
  more : Bool
  deriving DecidableEq

/-- Adds a line. Returns the text of the statement that the line belongs to as far
as it is known, or the line itself if it is blank. -/
def add (p : Progress) (line : String) (number : Int) : String × Progress :=
  let line := clean line
  match p.more, p.statements.getLast? with
  | true, some (previous, first) =>
    let joined := strip (previous ++ " " ++ line)
    (joined, ⟨p.statements.dropLast ++ [(joined, first)], goesOn joined⟩)
  | _, _ =>
    (line,
      ⟨if line.isEmpty then p.statements else p.statements ++ [(line, number)], goesOn line⟩)

/-- Adds lines whose numbers follow each other. -/
def addAll (p : Progress) (number : Int) : List String → Progress
  | [] => p
  | line :: lines => addAll (add p line number).2 (number + 1) lines

/-- **The statements of a list of lines**, each with the number of its first line. -/
def statements (lines : List String) : List (String × Int) :=
  (addAll ⟨[], false⟩ 1 lines).statements

end Grouping

end LambdaTrace
