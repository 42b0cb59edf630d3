import LambdaTrace.Template.Feature

/-!
# The features of collections

What rows, overviews and dictionaries have in common.
-/

namespace LambdaTrace.Template

open Feature (operations)

/-- Every row has these. -/
def rowFeatures : List Feature :=
  .flatten [
    [.maker],
    operations ["__repr__", "__hash__", "__getattribute__", "__lt__", "__le__", "__eq__", "__ne__",
      "__gt__", "__ge__", "__iter__", "__len__", "__getitem__", "__add__", "__mul__",
      "__rmul__", "__contains__"],
    [.action "__getnewargs__" "($self, /)" [],
      .action "index" "($self, value, start=0, stop=sys.maxsize, /)" [
        "Return first index of value.",
        "",
        "Raises ValueError if the value is not present."],
      .action "count" "($self, value, /)" ["Return number of occurrences of value."],
      .kindAction "__class_getitem__" "" ["See PEP 585"],
      .remark "__doc__" [
        "Built-in immutable sequence.",
        "",
        "If no argument is given, the constructor returns an empty tuple.",
        "If iterable is specified the tuple is initialized from iterable's items.",
        "",
        "If the argument is a tuple, the return value is the same object."]]]

/-- Every overview of features has these. -/
def overviewFeatures : List Feature :=
  .flatten [
    [.maker],
    operations ["__repr__", "__str__", "__getattribute__", "__lt__", "__le__", "__eq__", "__ne__",
      "__gt__", "__ge__", "__iter__", "__or__", "__ror__", "__ior__", "__len__",
      "__getitem__", "__contains__"],
    [.action "get" "" ["D.get(k[,d]) -> D[k] if k in D, else d.  d defaults to None."],
      .action "keys" "" ["D.keys() -> a set-like object providing a view on D's keys"],
      .action "values" "" ["D.values() -> an object providing a view on D's values"],
      .action "items" "" ["D.items() -> a set-like object providing a view on D's items"],
      .action "copy" "" ["D.copy() -> a shallow copy of D"],
      .kindAction "__class_getitem__" "" ["See PEP 585"],
      .action "__reversed__" "" ["D.__reversed__() -> reverse iterator"],
      .remark "__doc__" [],
      .remark "__hash__" []]]

/-- Every dictionary has these. -/
def dictionaryFeatures : List Feature :=
  .flatten [
    [.maker],
    operations ["__repr__"],
    [.remark "__hash__" []],
    operations ["__getattribute__", "__lt__", "__le__", "__eq__", "__ne__", "__gt__", "__ge__",
      "__iter__", "__init__", "__or__", "__ror__", "__ior__", "__len__"],
    [.action "__getitem__" "" ["x.__getitem__(y) <==> x[y]"]],
    operations ["__setitem__", "__delitem__"],
    [.action "__contains__" "($self, key, /)" [
        "True if the dictionary has the specified key, else False."],
      .action "__sizeof__" "" ["D.__sizeof__() -> size of D in memory, in bytes"],
      .action "get" "($self, key, default=None, /)" [
        "Return the value for key if key is in the dictionary, else default."],
      .action "setdefault" "($self, key, default=None, /)" [
        "Insert key with a value of default if key is not in the dictionary.",
        "",
        "Return the value for key if key is in the dictionary, else default."],
      .action "pop" "($self, key, default=<unrepresentable>, /)" [
        "D.pop(k[,d]) -> v, remove specified key and return the corresponding value.",
        "",
        "If the key is not found, return the default if given; otherwise,",
        "raise a KeyError."],
      .action "popitem" "($self, /)" [
        "Remove and return a (key, value) pair as a 2-tuple.",
        "",
        "Pairs are returned in LIFO (last-in, first-out) order.",
        "Raises KeyError if the dict is empty."],
      .action "keys" "" ["D.keys() -> a set-like object providing a view on D's keys"],
      .action "items" "" ["D.items() -> a set-like object providing a view on D's items"],
      .action "values" "" ["D.values() -> an object providing a view on D's values"],
      .action "update" "" [
        "D.update([E, ]**F) -> None.  Update D from dict/iterable E and F.",
        "If E is present and has a .keys() method, then does:  for k in E: D[k] = E[k]",
        "If E is present and lacks a .keys() method, then does:  for k, v in E: D[k] = v",
        "In either case, this is followed by: for k in F:  D[k] = F[k]"],
      .kindAction "fromkeys" "($type, iterable, value=None, /)" [
        "Create a new dictionary with keys from iterable and values set to value."],
      .action "clear" "" ["D.clear() -> None.  Remove all items from D."],
      .action "copy" "" ["D.copy() -> a shallow copy of D"],
      .action "__reversed__" "($self, /)" ["Return a reverse iterator over the dict keys."],
      .kindAction "__class_getitem__" "" ["See PEP 585"],
      .remark "__doc__" [
        "dict() -> new empty dictionary",
        "dict(mapping) -> new dictionary initialized from a mapping object's",
        "    (key, value) pairs",
        "dict(iterable) -> new dictionary initialized as if via:",
        "    d = \x7b\x7d",
        "    for k, v in iterable:",
        "        d[k] = v",
        "dict(**kwargs) -> new dictionary initialized with the name=value pairs",
        "    in the keyword argument list.  For example:  dict(one=1, two=2)"]]]

end LambdaTrace.Template
