import LambdaTrace.Template.Error
import LambdaTrace.Text.DecimalDigit

/-!
# Layouts

How a value is fitted into a message. A layout is written as

    layout ::= [[fill] side] [sign] ["z"] ["#"] ["0"] [width] [","] ["_"]
               ["." precision] [presentation]

where the side is `<`, `>`, `^` or `=`, for a value on the left, on the right, in the
middle or on the right with its sign on the left, and the fill is any character. The
sign is `+`, `-` or a space, and the presentation one character. A zero in front of
the width, where no fill is given, makes zeros the fill. What is not given depends on
the kind of the value.

A text (`LambdaTrace.Template.Layout.applyText`) is cut to the precision and filled up
to the width. It has no sign and no other presentation than `s`.
-/

namespace LambdaTrace.Template

/-- Where a value stands in a field that is wider than the value. -/
inductive Side where
  | left
  | right
  | middle
  /-- On the right, but with the sign on the left. -/
  | afterSign
  deriving DecidableEq

/-- The side that a sign stands for. -/
def Side.ofSign? : Char → Option Side
  | '<' => some .left
  | '>' => some .right
  | '^' => some .middle
  | '=' => some .afterSign
  | _ => none

/-- How a value is fitted into a message. -/
structure Layout where
  fill : Char
  side : Side
  /-- How numbers that are not negative are signed: `+`, `-` or a space. -/
  sign? : Option Char
  /-- Whether a negative zero loses its sign. -/
  unsignedZero : Bool
  /-- Whether the presentation shows what it is. -/
  alternate : Bool
  /-- The length that something shorter is filled up to. -/
  width : Nat
  /-- The mark between groups of digits. -/
  mark? : Option Char
  precision? : Option Nat
  presentation : Char
  deriving DecidableEq

/-- The largest number that a layout or a slot may give. -/
def maxWritten : Nat := Nat.pow 2 63 - 1

/-- The greatest width that a value is filled up to. -/
def maxWidth : Nat := Nat.pow 2 32

namespace Layout

/-! ### Reading a layout -/

/-- Reads the fill and the side in front of a layout, if they are given. The fill
comes before its side, so the second character decides. -/
def readSide (s : List Char) : Option Char × Option Side × List Char :=
  let alone := match s with
    | c :: rest => match Side.ofSign? c with
      | some side => (none, some side, rest)
      | none => (none, none, s)
    | [] => (none, none, [])
  match s with
  | fill :: c :: rest =>
    match Side.ofSign? c with
    | some side => (some fill, some side, rest)
    | none => alone
  | _ => alone

/-- Reads a sign, if there is one. -/
def readSign : List Char → Option Char × List Char
  | '+' :: s => (some '+', s)
  | '-' :: s => (some '-', s)
  | ' ' :: s => (some ' ', s)
  | s => (none, s)

/-- Reads a character, if it comes next. -/
def readChar (c : Char) : List Char → Bool × List Char
  | [] => (false, [])
  | d :: s => if d == c then (true, s) else (false, d :: s)

/-- Reads a number, if there is one, of any length but not of any size. -/
def readNumber (s : List Char) : Except TemplateError (Option Nat × List Char) :=
  match takeDigits 0 s with
  | (n, count, rest) =>
    if maxWritten < n then .error (.malformed .hugeNumber)
    else .ok (if count == 0 then none else some n, rest)

/-- Reads the mark between groups of digits. There is only one, but a second comma is
left for what follows. -/
def readMark (s : List Char) : Except TemplateError (Option Char × List Char) :=
  match s with
  | ',' :: '_' :: _ | '_' :: ',' :: _ => .error (.malformed .twoMarks)
  | ',' :: s => .ok (some ',', s)
  | '_' :: s => .ok (some '_', s)
  | s => .ok (none, s)

/-- Reads a point and the precision after it. -/
def readPrecision (s : List Char) : Except TemplateError (Option Nat × List Char) :=
  match s with
  | '.' :: s =>
    match readNumber s with
    | .ok (none, _) => .error (.malformed .noPrecision)
    | r => r
  | s => .ok (none, s)

/-- The presentation of values of a kind, where none is given. -/
def usualPresentation : Kind → Char
  | .text => 's'
  | _ => 'd'

/-- The side of values of a kind, where none is given. -/
def usualSide : Kind → Side
  | .text => .left
  | _ => .right

/-- Whether a mark between groups of digits goes with a presentation: commas only where
the base is ten. -/
def marks (mark presentation : Char) : Bool :=
  ['d', 'e', 'f', 'g', 'E', 'G', '%', 'F'].contains presentation ||
    (mark == '_' && ['b', 'o', 'x', 'X'].contains presentation)

/-- Reads the presentation, which ends the layout. -/
def readPresentation (k : Kind) (whole s : List Char) : Except TemplateError Char :=
  match s with
  | [] => .ok (usualPresentation k)
  | [c] => .ok c
  | _ => .error (.malformed (.layout (String.ofList whole) k))

/-- **The layout that a text is**, for a value of a kind. -/
def parse (k : Kind) (whole : List Char) : Except TemplateError Layout := do
  let (fill?, side?, s) := readSide whole
  let (sign?, s) := readSign s
  let (unsignedZero, s) := readChar 'z' s
  let (alternate, s) := readChar '#' s
  let (zeros, s) := if fill?.isNone then readChar '0' s else (false, s)
  let (width?, s) ← readNumber s
  let (mark?, s) ← readMark s
  let (precision?, s) ← readPrecision s
  let presentation ← readPresentation k whole s
  if let some mark := mark? then
    if !marks mark presentation then throw (.malformed (.markWith mark presentation))
  let usual := if zeros && usualSide k == .right then .afterSign else usualSide k
  return ⟨if zeros then '0' else fill?.getD ' ', side?.getD usual, sign?, unsignedZero, alternate,
    width?.getD 0, mark?, precision?, presentation⟩

/-! ### Laying out -/

/-- A text filled up to the width. What is in front of it stays on the left where the
side is after the sign. -/
def pad (l : Layout) (front text : List Char) : List Char :=
  let space := l.width - (front.length + text.length)
  let fill := fun n => List.replicate n l.fill
  match l.side with
  | .left => front ++ text ++ fill space
  | .right => fill space ++ front ++ text
  | .middle => fill (space / 2) ++ front ++ text ++ fill (space - space / 2)
  | .afterSign => front ++ fill space ++ text

/-- What a layout asks for that a text does not have. -/
def textFault? (l : Layout) : Option Malformed :=
  if l.presentation != 's' then some (.unknownPresentation l.presentation .text)
  else if l.sign? == some ' ' then some .spaceForText
  else if l.sign?.isSome then some .signForText
  else if l.unsignedZero then some .zeroForText
  else if l.alternate then some .alternateForText
  else if l.side == .afterSign then some .afterSignForText
  else none

/-- **A text laid out.** -/
def applyText (l : Layout) (text : List Char) : Except TemplateError (List Char) :=
  match l.textFault? with
  | some fault => .error (.malformed fault)
  | none =>
    if maxWidth < l.width then .error .tooWide
    else .ok (l.pad [] ((l.precision?.map text.take).getD text))

end Layout

end LambdaTrace.Template
