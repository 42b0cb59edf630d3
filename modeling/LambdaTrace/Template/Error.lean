import LambdaTrace.Template.Kind
import LambdaTrace.Text.Quoted

/-!
# What can be wrong with a template

The causes for which a message template cannot be filled, and what is said about each
of them. Most are faults of the writing, `LambdaTrace.Template.Malformed`; the others
come up only when a slot is filled with the values that are there.
-/

namespace LambdaTrace

namespace Template

/-- A character as it is named in a message, in base sixteen unless it is one of the
ASCII characters up to the given one. -/
def spelled (last c : Char) : String :=
  if ' ' < c && c ≤ last then c.toString
  else "\\x" ++ String.ofList (Nat.toDigits 16 c.toNat)

/-- How a template can be written wrongly. -/
inductive Malformed where
  /-- A closing brace without its partner. -/
  | loneClosing
  /-- An opening brace at the end. -/
  | loneOpening
  /-- An opening brace in what a slot asks for. -/
  | openingInField
  /-- A slot that ends before its form. -/
  | noForm
  /-- A form that something else than a layout follows. -/
  | noLayoutAfterForm
  /-- A slot that ends in its layout. -/
  | unclosedLayout
  /-- A slot that ends in what it asks for. -/
  | unclosedSlot
  /-- A slot in the layout of a slot of a layout. -/
  | tooDeep
  /-- A number that is too large to be one. -/
  | hugeNumber
  /-- A slot without a number after one with a number. -/
  | turnAfterNumber
  /-- A slot with a number after one without. -/
  | numberAfterTurn
  /-- An item that does not end. -/
  | unclosedItem
  /-- Something else than an item or a property after an item. -/
  | strayAfterItem
  /-- An item or a property without a name. -/
  | emptyName
  | unknownForm (form : Char)
  /-- A layout that goes on where it should end. -/
  | layout (text : String) (k : Kind)
  /-- A layout with two marks between groups of digits. -/
  | twoMarks
  /-- A layout in which the mark between groups does not go with the presentation. -/
  | markWith (mark presentation : Char)
  /-- A layout with a point after which there is no number. -/
  | noPrecision
  | unknownPresentation (presentation : Char) (k : Kind)
  /-- A layout of a text that asks for a space in place of a sign. -/
  | spaceForText
  | signForText
  | zeroForText
  | alternateForText
  /-- A layout of a text that has a place after the sign. -/
  | afterSignForText
  | precisionForNumber
  | zeroForNumber
  | signForCharacter
  | alternateForCharacter
  | hugePrecision
  deriving DecidableEq

/-- What is said about a template that is written wrongly. -/
def Malformed.message : Malformed → String
  | .loneClosing => "Single '\x7d' encountered in format string"
  | .loneOpening => "Single '\x7b' encountered in format string"
  | .openingInField => "unexpected '\x7b' in field name"
  | .noForm => "end of string while looking for conversion specifier"
  | .noLayoutAfterForm => "expected ':' after conversion specifier"
  | .unclosedLayout => "unmatched '\x7b' in format spec"
  | .unclosedSlot => "expected '\x7d' before end of string"
  | .tooDeep => "Max string recursion exceeded"
  | .hugeNumber => "Too many decimal digits in format string"
  | .turnAfterNumber =>
    "cannot switch from manual field specification to automatic field numbering"
  | .numberAfterTurn =>
    "cannot switch from automatic field numbering to manual field specification"
  | .unclosedItem => "Missing ']' in format string"
  | .strayAfterItem => "Only '.' or '[' may follow ']' in format field specifier"
  | .emptyName => "Empty attribute in format string"
  | .unknownForm form => "Unknown conversion specifier " ++ spelled '~' form
  | .layout text k =>
    "Invalid format specifier '" ++ text ++ "' for object of type '" ++ k.name ++ "'"
  | .twoMarks => "Cannot specify both ',' and '_'."
  | .markWith mark presentation =>
    "Cannot specify '" ++ mark.toString ++ "' with '" ++ spelled '\x7f' presentation ++ "'."
  | .noPrecision => "Format specifier missing precision"
  | .unknownPresentation presentation k =>
    "Unknown format code '" ++ spelled '\x7f' presentation ++ "' for object of type '" ++
      k.name ++ "'"
  | .spaceForText => "Space not allowed in string format specifier"
  | .signForText => "Sign not allowed in string format specifier"
  | .zeroForText => "Negative zero coercion (z) not allowed in string format specifier"
  | .alternateForText => "Alternate form (#) not allowed in string format specifier"
  | .afterSignForText => "'=' alignment not allowed in string format specifier"
  | .precisionForNumber => "Precision not allowed in integer format specifier"
  | .zeroForNumber => "Negative zero coercion (z) not allowed in integer format specifier"
  | .signForCharacter => "Sign not allowed with integer format specifier 'c'"
  | .alternateForCharacter =>
    "Alternate form (#) not allowed with integer format specifier 'c'"
  | .hugePrecision => "precision too big"

end Template

/-- Why a template could not be filled. -/
inductive TemplateError where
  /-- A slot asks for a text that is not there. -/
  | noText (number : Nat)
  /-- A slot asks for a character beyond the end of a text. -/
  | noCharacter
  /-- A slot asks for an item beyond the end of a row. -/
  | noItem
  /-- A message without the text that it is about. -/
  | noSubject
  /-- A slot asks for a text, or for an item, by a name that there is none of. -/
  | unknownName (name : String)
  /-- A slot asks for an item by a number where there are only names. -/
  | unknownNumber (number : Nat)
  /-- A slot asks for a character of a text by a name. -/
  | namedCharacter
  /-- A slot asks for an item of a row by a name. -/
  | namedItem
  /-- A slot asks for an item of a value that has none. -/
  | noItems (k : Template.Kind)
  /-- A slot applies a kind that cannot be applied. -/
  | notApplicable (k : Template.Kind)
  /-- A slot applies a kind that is applied already. -/
  | notGeneric (shown : String)
  /-- A slot lays out a value that has no layout. -/
  | noLayout (k : Template.Kind)
  /-- A slot asks for a property that values of a kind do not have. -/
  | noProperty (k : Template.Kind) (name : String)
  /-- A slot asks for a property that a kind does not have. -/
  | noKindProperty (k : Template.Kind) (name : String)
  /-- A slot asks for the actions that a kind leaves open. -/
  | nothingOpen
  /-- The template is written wrongly. -/
  | malformed (fault : Template.Malformed)
  /-- A layout with an enormous width. -/
  | tooWide
  /-- A number is to be laid out as a character, and there is no such character. -/
  | noCodePoint
  deriving DecidableEq

/-- What is said about a template that cannot be filled. -/
def TemplateError.message : TemplateError → String
  | .noText number =>
    "Replacement index " ++ toString number ++ " out of range for positional args tuple"
  | .noCharacter => "string index out of range"
  | .noItem => "tuple index out of range"
  | .noSubject => "list index out of range"
  | .unknownName name => quoted name
  | .unknownNumber number => toString number
  | .namedCharacter => "string indices must be integers, not 'str'"
  | .namedItem => "tuple indices must be integers or slices, not str"
  | .noItems k => "'" ++ k.name ++ "' object is not subscriptable"
  | .notApplicable k => "type '" ++ k.name ++ "' is not subscriptable"
  | .notGeneric shown => shown ++ " is not a generic class"
  | .noLayout k => "unsupported format string passed to " ++ k.name ++ ".__format__"
  | .noProperty k name => "'" ++ k.name ++ "' object has no attribute '" ++ name ++ "'"
  | .noKindProperty k name =>
    "type object '" ++ k.name ++ "' has no attribute '" ++ name ++ "'"
  | .nothingOpen => "__abstractmethods__"
  | .malformed fault => fault.message
  | .tooWide => ""
  | .noCodePoint => "%c arg not in range(0x110000)"

end LambdaTrace
