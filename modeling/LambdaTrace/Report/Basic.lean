import LambdaTrace.Source.Parser
import LambdaTrace.Template.Fill

/-!
# Reports

What is told to the user when something is wrong: a message, the source text it is
about, and the span of that text to point at. Every error of the program has such
a report; the error types themselves speak of causes.
-/

namespace LambdaTrace

/-- The three families of errors. -/
inductive ReportKind where
  /-- An error of no special family. -/
  | general
  /-- A source text that could not be read, with the offset of the fault. -/
  | reading (offset : Int)
  /-- A definition that cannot be added to a table of macros. -/
  | definition
  deriving DecidableEq

/-- **A report**: a message about a source text. -/
structure Report where
  kind : ReportKind
  message : String
  /-- The source text that the message is about, empty if there is none. -/
  expr : String
  /-- The span of the source text that is pointed at. -/
  start : Int
  stop : Int
  /-- Whether the source text is shown under the message. -/
  diagnosis : Bool
  /-- Whether the error is the program's own fault. -/
  internal : Bool
  deriving DecidableEq

namespace Report

/-- A message about a source text, all of which is pointed at. -/
def about (message expr : String) (diagnosis : Bool) : Report :=
  ⟨.general, message, expr, 0, expr.length, diagnosis, false⟩

/-- A message about no source text. -/
def plain (message : String) : Report :=
  about message "" true

/-- A message about a place in a source text. The span is the one character there; two
places in front of the text it would end at `-1`, which is no end, so it ends at the
beginning. -/
def reading (message : String) (offset : Int) (source : String) : Report :=
  let stop := if offset + 1 = -1 then 0 else offset + 1
  ⟨.reading offset, message, source, offset, stop, source != "", false⟩

/-- A message written as a template, filled with the source text and further
texts. Without an end, or with the end `-1`, the span goes to the end of the
source text. -/
def ofTemplate (kind : ReportKind) (template : String) (exprs : List String) (start stop : Int)
    (diagnosis internal : Bool) : Except TemplateError Report :=
  match fillTemplate template exprs with
  | .error e => .error e
  | .ok message =>
    match exprs with
    | [] => .error .noSubject
    | expr :: _ =>
      let stop := if stop = -1 then (expr.length : Int) else stop
      .ok ⟨kind, message, expr, start, stop, diagnosis, internal⟩

/-- A message written as a template of one empty text, about a place in a source
text. -/
def readingOfTemplate (template : String) (offset : Int) (source : String) :
    Except TemplateError Report :=
  (fillTemplate template [""]).map fun message => reading message offset source

end Report

/-- The report of a source text that could not be read. -/
def SyntaxError.report (e : SyntaxError) : Report :=
  Report.reading e.fault.message e.offset e.source

end LambdaTrace
