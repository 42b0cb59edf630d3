/-!
# Kinds of values

A message template fills its slots with texts, but a slot may go on from a text to
what is known about it: its kind, the kinds this one extends, the features they
have. So there are values of several **kinds**. Each kind has a name that is shown
and extends another one, up to `LambdaTrace.Template.Kind.object`, which extends none.
-/

namespace LambdaTrace.Template

/-- What sort of value a value is. -/
inductive Kind where
  | text
  /-- What all kinds extend. -/
  | object
  /-- The kinds are values themselves. -/
  | kind
  /-- A row of values. -/
  | row
  | number
  | truth
  /-- The absence of a value. -/
  | nothing
  /-- An action bound to a value. -/
  | action
  /-- An operation bound to a value. -/
  | operation
  /-- An operation as a feature of a kind. -/
  | operationFeature
  /-- An action as a feature of a kind. -/
  | actionFeature
  /-- An action of the kind itself, as a feature of the kind. -/
  | kindActionFeature
  /-- A feature that is computed. -/
  | computedFeature
  /-- A feature that is stored. -/
  | storedFeature
  /-- An action that is bound to no value. -/
  | standalone
  /-- The features of a kind, by their names. -/
  | overview
  | dictionary
  /-- A kind applied to an argument. -/
  | applied
  deriving DecidableEq

namespace Kind

/-- What is known about a kind, besides its features. -/
structure Facts where
  shortName : String
  /-- Where the kind is at home. -/
  home : String
  /-- The bytes that a value takes. -/
  size : Nat
  /-- The bytes that each item of a value takes on top. -/
  itemSize : Nat
  flags : Nat
  /-- Where a value keeps features of its own, zero if nowhere. -/
  dictionaryPlace : Nat
  /-- Where a value keeps the references to it, zero if nowhere. -/
  referencePlace : Nat
  signature : Option String

/-- What is known about a kind. -/
def facts : Kind → Facts
  | .text => ⟨"str", "builtins", 80, 0, 273159424, 0, 0, none⟩
  | .object => ⟨"object", "builtins", 16, 0, 529664, 0, 0, some "()"⟩
  | .kind => ⟨"type", "builtins", 904, 40, 2148031744, 264, 368, none⟩
  | .row => ⟨"tuple", "builtins", 24, 8, 71849248, 0, 0, some "(iterable=(), /)"⟩
  | .number => ⟨"int", "builtins", 24, 4, 21501184, 0, 0, none⟩
  | .truth => ⟨"bool", "builtins", 32, 4, 21500160, 0, 0, none⟩
  | .nothing => ⟨"NoneType", "builtins", 16, 0, 528640, 0, 0, none⟩
  | .action => ⟨"builtin_function_or_method", "builtins", 56, 0, 547200, 0, 40, none⟩
  | .operation => ⟨"method-wrapper", "builtins", 32, 0, 545152, 0, 0, none⟩
  | .operationFeature => ⟨"wrapper_descriptor", "builtins", 56, 0, 676224, 0, 0, none⟩
  | .actionFeature => ⟨"method_descriptor", "builtins", 56, 0, 678272, 0, 0, none⟩
  | .kindActionFeature => ⟨"classmethod_descriptor", "builtins", 56, 0, 545152, 0, 0, none⟩
  | .computedFeature => ⟨"getset_descriptor", "builtins", 48, 0, 545152, 0, 0, none⟩
  | .storedFeature => ⟨"member_descriptor", "builtins", 48, 0, 545152, 0, 0, none⟩
  | .standalone => ⟨"staticmethod", "builtins", 32, 0, 546048, 24, 0, none⟩
  | .overview => ⟨"mappingproxy", "builtins", 24, 0, 545088, 0, 0, none⟩
  | .dictionary => ⟨"dict", "builtins", 48, 0, 541611328, 0, 0, none⟩
  | .applied => ⟨"GenericAlias", "types", 64, 0, 548096, 0, 40, none⟩

/-- The home of the kinds that are named without it. -/
def builtHome : String := "builtins"

/-- The name of a kind, after its home unless that goes without saying. -/
def name (k : Kind) : String :=
  if k.facts.home == builtHome then k.facts.shortName
  else k.facts.home ++ "." ++ k.facts.shortName

/-- A kind and the kinds that it extends, nearest first. -/
def ancestors : Kind → List Kind
  | .object => [.object]
  | .truth => [.truth, .number, .object]
  | k => [k, .object]

/-- The kind that a kind extends. -/
def base? (k : Kind) : Option Kind :=
  k.ancestors.tail.head?

/-- A description that a kind has besides the remark among its features: the kind of
kinds, in which that name stands for the descriptions of all kinds. -/
def description? : Kind → Option String
  | .kind => some "type(object) -> the object's type\ntype(name, bases, dict, **kwds) -> a new type"
  | _ => none

/-- Whether a kind can be applied to an argument. -/
def isGeneric : Kind → Bool
  | .kind | .row | .overview | .dictionary => true
  | _ => false

end Kind

end LambdaTrace.Template
