/-!
# Lines

A line of a file ends with a line feed, a carriage return, or the two together; a
line that is typed ends with a line feed only. No other character ends a line. What
follows the last line end is a line if it is not empty.
-/

namespace LambdaTrace

/-- The lines of a text, without their ends, where `line` holds the characters of
the current line read so far, the last one first. -/
def splitLines (line : List Char) : List Char → List (List Char)
  | [] => if line.isEmpty then [] else [line.reverse]
  | '\r' :: '\n' :: s => line.reverse :: splitLines [] s
  | '\r' :: s => line.reverse :: splitLines [] s
  | '\n' :: s => line.reverse :: splitLines [] s
  | c :: s => splitLines (c :: line) s

/-- The lines of a file. -/
def linesOf (s : String) : List String :=
  (splitLines [] s.toList).map String.ofList

/-- The lines of a text that end with a line feed, where `line` is as above. -/
def splitFeeds (line : List Char) : List Char → List (List Char)
  | [] => if line.isEmpty then [] else [line.reverse]
  | '\n' :: s => line.reverse :: splitFeeds [] s
  | c :: s => splitFeeds (c :: line) s

/-- The lines that were typed. -/
def typedLines (s : String) : List String :=
  (splitFeeds [] s.toList).map String.ofList

end LambdaTrace
