import LambdaTrace.Report.Basic
import LambdaTrace.Text.Find
import LambdaTrace.Text.Ink

/-!
# Showing reports

A **reporter** keeps, for each file in the order in which the files were first
met, the statement of it that is being worked on, and writes reports to the
output. A warning is prefixed with the place of the innermost statement; an error
lists all statements that led to it, outermost first. Under the message comes the
source text it is about, with the span in question underlined. What is drawn in an ink
is given to the reporter's painter.

An error is either fatal, and the program stops with code 1, or it is *suppressed*:
all statements are forgotten, the files stay listed, and the program goes on.
-/

namespace LambdaTrace

/-! ### Pointing at a span -/

/-- A place in a text of the given length; a negative one counts from the end. -/
def placeIn (length : Nat) (i : Int) : Nat :=
  if i < 0 then (length + i).toNat else min i.toNat length

/-- The part of a text between two places. -/
def sliceChars (s : List Char) (i j : Int) : List Char :=
  (s.take (placeIn s.length j)).drop (placeIn s.length i)

namespace Report

/-- Where the span that is shown begins. An error at the end of a text points at
its last character. -/
def shownStart (r : Report) : Int :=
  min r.start (max ((r.expr.length : Int) - 1) 0)

/-- Where the span that is shown ends: it holds at least one character. -/
def shownStop (r : Report) : Int :=
  max (min r.stop r.expr.length) (r.shownStart + 1)

/-- The source text with the span highlighted, and a line of marks under it. -/
def diagnose (r : Report) (paint : Painter) (colour : Colour) : String :=
  let start := r.shownStart
  let stop := r.shownStop
  let s := r.expr.toList
  let part (i j : Int) := String.ofList (sliceChars s i j)
  let mark := "^" ++ String.ofList (List.replicate (stop - start - 1).toNat '~')
  "  " ++ part 0 start ++ paint (.boldIn colour) (part start stop) ++
    part stop s.length ++ "\n  " ++ String.ofList (List.replicate start.toNat ' ') ++
    paint (.boldIn colour) mark

end Report

/-! ### The statements being worked on -/

/-- The statement of a file that is being worked on, with its line number. -/
abbrev Traceback := List (String × Option (String × Int))

namespace Traceback

/-- The files that are listed. -/
def paths (t : Traceback) : List String :=
  t.map (·.1)

/-- Sets what is known of a file. A file that is listed keeps its place. -/
def set : Traceback → String → Option (String × Int) → Traceback
  | [], path, line => [(path, line)]
  | (q, l) :: rest, path, line =>
    if q == path then (path, line) :: rest else (q, l) :: set rest path line

/-- Takes a file off the list. -/
def erase (t : Traceback) (path : String) : Traceback :=
  t.filter (·.1 != path)

/-- Forgets all statements; the files stay listed. -/
def clear (t : Traceback) : Traceback :=
  t.map fun (path, _) => (path, none)

/-- The statements being worked on, outermost first. An empty one does not count. -/
def active (t : Traceback) : List (String × String × Int) :=
  t.filterMap fun (path, line) => line.bind fun (text, num) =>
    if text.isEmpty then none else some (path, text, num)

end Traceback

/-! ### The reporter -/

/-- Keeps the statements being worked on, and writes reports to the output. -/
structure Reporter where
  /-- Whether an error stops the program. -/
  fatal : Bool
  /-- How the output is painted. -/
  paint : Painter
  traceback : Traceback
  /-- What has been written so far. -/
  output : String
  deriving Inhabited

namespace Reporter

/-- A reporter that has seen and written nothing. -/
def start (fatal : Bool) (paint : Painter) : Reporter :=
  ⟨fatal, paint, [], ""⟩

/-- Writes a text. -/
def write (h : Reporter) (text : String) : Reporter :=
  { h with output := h.output ++ text }

/-- Writes a text and ends the line. -/
def writeLine (h : Reporter) (text : String) : Reporter :=
  h.write (text ++ "\n")

/-- Lists a file, none of whose statements is being worked on. -/
def registerFile (h : Reporter) (path : String) : Reporter :=
  { h with traceback := h.traceback.set path none }

/-- Notes the statement of a file that is about to be worked on. -/
def registerLine (h : Reporter) (path line : String) (number : Int) : Reporter :=
  { h with traceback := h.traceback.set path (some (line, number)) }

/-- Notes that the statement of a file is done. -/
def removeLine (h : Reporter) (path : String) : Reporter :=
  h.registerFile path

/-- Takes a file off the list. -/
def removeFile (h : Reporter) (path : String) : Reporter :=
  { h with traceback := h.traceback.erase path }

/-- The colour of errors. -/
def errorColour : Colour := .red

/-- The colour of warnings. -/
def warningColour : Colour := .magenta

/-- File, line and column of the innermost statement, before a warning. -/
def location (h : Reporter) (r : Report) : String :=
  match h.traceback.active.getLast? with
  | none => ""
  | some (path, line, number) =>
    let column := ((findIn? r.expr line).getD 0 : Int) + r.start
    h.paint .bold (path ++ ":" ++ toString number ++ ":" ++ toString column ++ ": ")

/-- Writes the source text a report is about, if it is to be shown. -/
def showDiagnosis (h : Reporter) (r : Report) (colour : Colour) : Reporter :=
  if !r.internal && !r.expr.isEmpty && r.diagnosis then
    h.writeLine (r.diagnose h.paint colour)
  else h

/-- Writes a warning. -/
def warn (h : Reporter) (r : Report) : Reporter :=
  (h.writeLine (h.location r ++ h.paint (.boldIn warningColour) "warning: " ++
    r.message)).showDiagnosis r warningColour

/-- Where an error came from: the statements that led to it, under a heading if
there are several. -/
def origin (h : Reporter) : String :=
  let lines := h.traceback.active.map fun (path, line, number) =>
    "  File '" ++ path ++ "', line " ++ toString number ++ ":\n    " ++ line ++ "\n"
  (if lines.length > 1 then "Traceback:\n" else "") ++ String.join lines

/-- Writes an error. -/
def writeError (h : Reporter) (r : Report) : Reporter :=
  let flag := if r.internal then h.paint (.boldIn errorColour) "[internal] " else ""
  (h.writeLine (h.origin ++ flag ++ h.paint (.boldIn errorColour) "error: " ++
    r.message)).showDiagnosis r errorColour

/-- Writes an error, and forgets all statements unless the error is fatal. -/
def throw (h : Reporter) (r : Report) : Reporter :=
  let h := h.writeError r
  if h.fatal then h else { h with traceback := h.traceback.clear }

end Reporter

/-! ### Errors on their way to the user -/

/-- What can come out of a piece of work instead of a result. -/
inductive Failure where
  /-- An error with a report of its own. -/
  | reported (r : Report)
  /-- The user interrupted the work. -/
  | interrupted
  /-- A term is nested too deeply for the machine. -/
  | tooDeep
  /-- The program wants to stop. -/
  | leave
  /-- Anything else, which is the program's own fault. -/
  | unknown (kind text : String)
  deriving DecidableEq

/-- What becomes of a failure that reaches the reporter. -/
inductive Verdict where
  /-- It was written, and the program goes on. -/
  | suppressed
  /-- It was written, and the program stops with code 1. -/
  | stop
  /-- It goes on its way out of the program. -/
  | escape
  /-- It could not be written, because its message is no template. -/
  | unwritable (e : TemplateError)
  deriving DecidableEq

namespace Reporter

/-- What becomes of an error that was written. -/
def verdict (h : Reporter) (otherwise : Verdict) : Verdict :=
  if h.fatal then .stop else otherwise

/-- **The end of a failure** at the reporter. -/
def close (h : Reporter) : Failure → Verdict × Reporter
  | .reported r => (h.verdict .suppressed, h.throw r)
  | .interrupted => (h.verdict .suppressed, h.throw (.plain "keyboard interrupt"))
  | .tooDeep => (h.verdict .suppressed, h.throw (.plain "term is nested too deeply to reduce"))
  | .leave => (.escape, h)
  | .unknown kind text =>
    match Report.ofTemplate .general ("unknown error: '" ++ kind ++ ": " ++ text ++ "'") [""]
        0 (-1) true true with
    | .error e => (.unwritable e, h)
    | .ok r => (h.verdict .escape, h.throw r)

end Reporter

end LambdaTrace
