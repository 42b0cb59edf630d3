/-!
# Inks

What a piece of text is drawn with: at most one emphasis and at most one colour. How it
is drawn is left to a *painter*, which the program is given along with its output
(`LambdaTrace.Painter`).
-/

namespace LambdaTrace

/-- The colours in use. -/
inductive Colour where
  | red
  | green
  | blue
  | magenta
  deriving DecidableEq

/-- The kinds of emphasis in use. -/
inductive Emphasis where
  | bold
  | underline
  deriving DecidableEq

/-- What a piece of text is drawn with. -/
structure Ink where
  emphasis : Option Emphasis
  colour : Option Colour
  deriving DecidableEq

namespace Ink

def bold : Ink :=
  ⟨some .bold, none⟩

def underline : Ink :=
  ⟨some .underline, none⟩

def boldIn (c : Colour) : Ink :=
  ⟨some .bold, some c⟩

def plainIn (c : Colour) : Ink :=
  ⟨none, some c⟩

end Ink

/-- **A painter**: what is written for a piece of text that is drawn in an ink. -/
abbrev Painter :=
  Ink → String → String

/-- The painter of an output without colours, which writes texts as they are. -/
def Painter.plain : Painter :=
  fun _ text => text

end LambdaTrace
