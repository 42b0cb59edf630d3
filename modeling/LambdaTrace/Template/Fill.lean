import LambdaTrace.Template.Access
import LambdaTrace.Template.Number
import LambdaTrace.Template.Slot
import LambdaTrace.Text.Blank

/-!
# Filling templates

A slot of a message template asks for a text, or for something that is reached from
it:

    field ::= [number] (item | "." name)*
    item  ::= "[" (number | name) "]"

It asks for the next text or for the one with its number, and the two kinds cannot
be mixed. Where it leads is looked up with `LambdaTrace.Template.Value.property` and the
functions for items. The value that is found can be turned into a text (`s`), or into
its quoted text (`r`, or `a` with nothing but ASCII in it), before it is laid out.
Texts that no slot asks for are ignored.

Templates are filled from left to right, so of several faults the first one counts,
and nothing after a fault is looked at.
-/

namespace LambdaTrace

namespace Template

/-! ### What a slot asks for -/

/-- The number that a text writes, if all of it is digits. Enormous numbers are
malformed, whatever follows. -/
def index? (s : List Char) : Except TemplateError (Option Nat) :=
  match takeDigits 0 s with
  | (n, count, rest) =>
    if maxWritten < n then .error (.malformed .hugeNumber)
    else .ok (if count != 0 && rest.isEmpty then some n else none)

/-- The item of a value that is named in brackets. -/
def item (v : Value) (name : List Char) : Except TemplateError Value :=
  match index? name with
  | .error e => .error e
  | .ok (some n) => v.itemAt n
  | .ok none =>
    if name.isEmpty then .error (.malformed .emptyName) else v.itemNamed (String.ofList name)

/-- The property of a value that is named after a point. -/
def property (v : Value) (name : List Char) : Except TemplateError Value :=
  if name.isEmpty then .error (.malformed .emptyName) else v.property (String.ofList name)

/-- Whether a character belongs to a name, and does not lead on from it. -/
def isNameChar (c : Char) : Bool :=
  c != '.' && c != '['

/-- Follows the items and properties that a field asks for after its number. -/
def follow (v : Value) (s : List Char) : Except TemplateError Value :=
  match s with
  | [] => .ok v
  | '.' :: s =>
    match property v (s.takeWhile isNameChar) with
    | .error e => .error e
    | .ok v => follow v (s.dropWhile isNameChar)
  | '[' :: s =>
    match h : s.dropWhile (· != ']') with
    | [] => .error (.malformed .unclosedItem)
    | _ :: rest =>
      have : rest.length < s.length := by
        have hle := dropWhile_length_le (· != ']') s
        rw [h, List.length_cons] at hle
        exact hle
      match item v (s.takeWhile (· != ']')) with
      | .error e => .error e
      | .ok v => follow v rest
  | _ => .error (.malformed .strayAfterItem)
termination_by s.length
decreasing_by
  · have := dropWhile_length_le isNameChar s
    simp only [List.length_cons]
    omega
  · simp only [List.length_cons]
    omega

/-- How the slots met so far were numbered. -/
inductive Numbering where
  /-- No slot yet. -/
  | undecided
  /-- Slots take the texts in turn; this many have been taken. -/
  | inTurn (count : Nat)
  /-- Slots give the number of the text. -/
  | given
  deriving DecidableEq

/-- The number of the text that a slot asks for by what comes before the first item or
property, and how the slots are numbered from there on. -/
def Numbering.next (numbering : Numbering) (first : List Char) :
    Except TemplateError (Nat × Numbering) :=
  match index? first, numbering with
  | .error e, _ => .error e
  | .ok (some _), .inTurn _ => .error (.malformed .numberAfterTurn)
  | .ok (some n), _ => .ok (n, .given)
  | .ok none, numbering =>
    if first.isEmpty then
      match numbering with
      | .undecided => .ok (0, .inTurn 1)
      | .inTurn n => .ok (n, .inTurn (n + 1))
      | .given => .error (.malformed .turnAfterNumber)
    else .error (.unknownName (String.ofList first))

/-- What a slot asks for, and how the slots are numbered from there on. -/
def lookUp (texts : List String) (numbering : Numbering) (field : List Char) :
    Except TemplateError (Value × Numbering) :=
  match numbering.next (field.takeWhile isNameChar) with
  | .error e => .error e
  | .ok (n, numbering) =>
    match texts[n]? with
    | none => .error (.noText n)
    | some text =>
      (follow (.text text) (field.dropWhile isNameChar)).map fun v => (v, numbering)

/-! ### Filling the slots -/

/-- A value in the form that a slot asks for. The character zero stands for no form. -/
def inForm (v : Value) : Option Char → Except TemplateError Value
  | none => .ok v
  | some '\x00' => .ok v
  | some 's' => .ok (.text v.shown)
  | some 'r' => .ok (.text v.quoted)
  | some 'a' => .ok (.text (inAscii v.quoted))
  | some form => .error (.malformed (.unknownForm form))

/-- A value laid out as a slot asks for. Only texts and numbers have layouts, besides
the empty one, in which a value is shown as it is. -/
def layOut (layout : List Char) (v : Value) : Except TemplateError (List Char) :=
  if layout.isEmpty then .ok v.shown.toList
  else
    match v with
    | .text s => (Layout.parse .text layout).bind fun l => l.applyText s.toList
    | .number n => (Layout.parse .number layout).bind fun l => l.applyNumber .number n
    | .truth b =>
      (Layout.parse .truth layout).bind fun l => l.applyNumber .truth (if b then 1 else 0)
    | v => .error (.noLayout v.kindOf)

/-- What a slot is filled with, and how the slots are numbered after it. The slots of
its layout are filled by `fill`. -/
def fillSlot (fill : Numbering → List Char → Except TemplateError (List Char × Numbering))
    (texts : List String) (numbering : Numbering) (slot : Slot) :
    Except TemplateError (List Char × Numbering) := do
  let (v, numbering) ← lookUp texts numbering slot.field
  let v ← inForm v slot.form
  let (layout, numbering) ←
    if slot.layout.contains '\x7b' then fill numbering slot.layout
    else pure (slot.layout, numbering)
  return (← layOut layout v, numbering)

/-- The pieces of a template with their slots filled. -/
def fillPieces (fill : Numbering → List Char → Except TemplateError (List Char × Numbering))
    (texts : List String) (numbering : Numbering) :
    List Piece → Except TemplateError (List Char × Numbering)
  | [] => .ok ([], numbering)
  | .fault m :: _ => .error (.malformed m)
  | .literal c :: ps =>
    (fillPieces fill texts numbering ps).map fun (s, numbering) => (c :: s, numbering)
  | .slot slot :: ps =>
    match fillSlot fill texts numbering slot with
    | .error e => .error e
    | .ok (text, numbering) =>
      (fillPieces fill texts numbering ps).map fun (s, numbering) => (text ++ s, numbering)

/-- Fills the slots of a template, which may be nested in each other to a depth. -/
def fillNested (texts : List String) :
    Nat → Numbering → List Char → Except TemplateError (List Char × Numbering)
  | 0, _, _ => .error (.malformed .tooDeep)
  | depth + 1, numbering, s => fillPieces (fillNested texts depth) texts numbering (pieces s)

/-- How deep slots are nested: there may be slots in a layout, but none in theirs. -/
def maxDepth : Nat := 2

end Template

/-- **A template with its slots filled.** -/
def fillTemplate (template : String) (texts : List String) : Except TemplateError String :=
  (Template.fillNested texts Template.maxDepth .undecided template.toList).map
    fun (s, _) => String.ofList s

end LambdaTrace
