/-!
# Features

A **feature** is what all values of a kind have under one name: an action or an
operation that can be done with a value, something known about a value, or a remark
on the kind. Features are described by a text and, if they can be called, by a
signature.

Operations are the same for all kinds: `LambdaTrace.Template.operationTable` describes
them once.
-/

namespace LambdaTrace.Template

/-- The part that a feature plays. -/
inductive Feature.Role where
  /-- An action that a value does. -/
  | action
  /-- An action that the kind does. -/
  | kindAction
  /-- An action that needs no value. -/
  | standalone
  /-- The action that makes values of the kind. -/
  | maker
  /-- An action that a sign stands for, or a construct. -/
  | operation
  /-- Something computed from a value. -/
  | computed
  /-- Something stored in a value. -/
  | stored
  /-- A text about the kind, which its description holds, or the absence of one. -/
  | remark
  deriving DecidableEq

/-- What all values of a kind have under one name. -/
structure Feature where
  role : Feature.Role
  name : String
  /-- How an action is called, if that is known. -/
  signature : Option String
  description : Option String
  deriving DecidableEq

/-- The operations, with their descriptions, by signature. -/
def operationTable : List (String × List (String × String)) := [
  ("($self, /)", [
    ("__repr__", "Return repr(self)."),
    ("__hash__", "Return hash(self)."),
    ("__str__", "Return str(self)."),
    ("__iter__", "Implement iter(self)."),
    ("__len__", "Return len(self)."),
    ("__neg__", "-self"),
    ("__pos__", "+self"),
    ("__abs__", "abs(self)"),
    ("__bool__", "True if self else False"),
    ("__invert__", "~self"),
    ("__int__", "int(self)"),
    ("__float__", "float(self)"),
    ("__index__",
      "Return self converted to an integer, " ++
      "if self is suitable for use as an index into a list.")]),
  ("($self, name, /)", [
    ("__getattribute__", "Return getattr(self, name)."),
    ("__delattr__", "Implement delattr(self, name).")]),
  ("($self, value, /)", [
    ("__lt__", "Return self<value."),
    ("__le__", "Return self<=value."),
    ("__eq__", "Return self==value."),
    ("__ne__", "Return self!=value."),
    ("__gt__", "Return self>value."),
    ("__ge__", "Return self>=value."),
    ("__mod__", "Return self%value."),
    ("__rmod__", "Return value%self."),
    ("__add__", "Return self+value."),
    ("__mul__", "Return self*value."),
    ("__rmul__", "Return value*self."),
    ("__or__", "Return self|value."),
    ("__ror__", "Return value|self."),
    ("__radd__", "Return value+self."),
    ("__sub__", "Return self-value."),
    ("__rsub__", "Return value-self."),
    ("__divmod__", "Return divmod(self, value)."),
    ("__rdivmod__", "Return divmod(value, self)."),
    ("__lshift__", "Return self<<value."),
    ("__rlshift__", "Return value<<self."),
    ("__rshift__", "Return self>>value."),
    ("__rrshift__", "Return value>>self."),
    ("__and__", "Return self&value."),
    ("__rand__", "Return value&self."),
    ("__xor__", "Return self^value."),
    ("__rxor__", "Return value^self."),
    ("__floordiv__", "Return self//value."),
    ("__rfloordiv__", "Return value//self."),
    ("__truediv__", "Return self/value."),
    ("__rtruediv__", "Return value/self."),
    ("__ior__", "Return self|=value.")]),
  ("($self, key, /)", [
    ("__getitem__", "Return self[key]."),
    ("__contains__", "Return key in self."),
    ("__delitem__", "Delete self[key].")]),
  ("($self, name, value, /)", [
    ("__setattr__", "Implement setattr(self, name, value).")]),
  ("($self, /, *args, **kwargs)", [
    ("__init__", "Initialize self.  See help(type(self)) for accurate signature."),
    ("__call__", "Call self as a function.")]),
  ("($self, value, mod=None, /)", [
    ("__pow__", "Return pow(self, value, mod)."),
    ("__rpow__", "Return pow(value, self, mod).")]),
  ("($self, instance, owner=None, /)", [
    ("__get__", "Return an attribute of instance, which is of type owner.")]),
  ("($self, instance, value, /)", [
    ("__set__", "Set an attribute of instance to value.")]),
  ("($self, instance, /)", [
    ("__delete__", "Delete an attribute of instance.")]),
  ("($self, key, value, /)", [
    ("__setitem__", "Set self[key] to value.")])]

namespace Feature

/-- The text of some lines, if there are any. -/
def ofLines : List String → Option String
  | [] => none
  | lines => some ("\n".intercalate lines)

/-- An action that a value does. An empty signature is none. -/
def action (name signature : String) (lines : List String) : Feature :=
  ⟨.action, name, if signature.isEmpty then none else some signature, ofLines lines⟩

/-- An action that the kind does. -/
def kindAction (name signature : String) (lines : List String) : Feature :=
  { action name signature lines with role := .kindAction }

/-- An action that needs no value. -/
def standalone (name signature : String) (lines : List String) : Feature :=
  { action name signature lines with role := .standalone }

/-- The action that makes values of a kind. -/
def maker : Feature :=
  ⟨.maker, "__new__", some "($type, *args, **kwargs)",
    some "Create and return a new object.  See help(type) for accurate signature."⟩

/-- Something computed from a value. -/
def computed (name : String) (lines : List String) : Feature :=
  ⟨.computed, name, none, ofLines lines⟩

/-- Something stored in a value. -/
def stored (name : String) (lines : List String) : Feature :=
  ⟨.stored, name, none, ofLines lines⟩

/-- A text about a kind. -/
def remark (name : String) (lines : List String) : Feature :=
  ⟨.remark, name, none, ofLines lines⟩

/-- The operation of a name. -/
def operation (name : String) : Feature :=
  let found := operationTable.findSome? fun (signature, group) =>
    (group.lookup name).map fun description => (signature, description)
  ⟨.operation, name, found.map (·.1), found.map (·.2)⟩

/-- The operations of some names. -/
def operations (names : List String) : List Feature :=
  names.map operation

/-- Whether a feature is a fact about a value, rather than something to be done with it. -/
def isFact (f : Feature) : Bool :=
  f.role == .computed || f.role == .stored

end Feature

end LambdaTrace.Template
