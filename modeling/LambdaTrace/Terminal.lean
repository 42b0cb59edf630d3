import LambdaTrace.Text.Ink

/-!
# Painting on a terminal

Terminals draw a piece of text by escape sequences around it. The emphasis is switched
on first, then the colour, and one sequence at the end switches everything off.
-/

namespace LambdaTrace

/-- The number a terminal knows a colour by. -/
def Colour.code : Colour → String
  | .red => "31"
  | .green => "32"
  | .blue => "34"
  | .magenta => "35"

/-- The number a terminal knows an emphasis by. -/
def Emphasis.code : Emphasis → String
  | .bold => "1"
  | .underline => "4"

/-- The escape sequence of a terminal code. -/
def escape (code : String) : String :=
  "\x1b[" ++ code ++ "m"

/-- The sequences that switch an ink on. -/
def Ink.opening (ink : Ink) : String :=
  (ink.emphasis.elim "" fun a => escape a.code) ++ (ink.colour.elim "" fun c => escape c.code)

/-- The painter of a terminal. -/
def Painter.terminal : Painter :=
  fun ink text => ink.opening ++ text ++ escape "0"

end LambdaTrace
