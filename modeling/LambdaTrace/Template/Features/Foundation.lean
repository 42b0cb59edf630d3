import LambdaTrace.Template.Feature

/-!
# The features of all values

What all values have in common, what kinds have in common, and what kinds applied to an
argument have in common.
-/

namespace LambdaTrace.Template

open Feature (operations)

/-- Every value has these. -/
def objectFeatures : List Feature :=
  .flatten [
    [.maker],
    operations ["__repr__", "__hash__", "__str__", "__getattribute__", "__setattr__",
      "__delattr__", "__lt__", "__le__", "__eq__", "__ne__", "__gt__", "__ge__",
      "__init__"],
    [.action "__reduce_ex__" "($self, protocol, /)" ["Helper for pickle."],
      .action "__reduce__" "($self, /)" ["Helper for pickle."],
      .action "__getstate__" "($self, /)" ["Helper for pickle."],
      .kindAction "__subclasshook__" "" [
        "Abstract classes can override this to customize issubclass().",
        "",
        "This is invoked early on by abc.ABCMeta.__subclasscheck__().",
        "It should return True, False or NotImplemented.  If it returns",
        "NotImplemented, the normal algorithm is used.  Otherwise, it",
        "overrides the normal algorithm (and the outcome is cached).",
        ""],
      .kindAction "__init_subclass__" "" [
        "This method is called when a class is subclassed.",
        "",
        "The default implementation does nothing. It may be",
        "overridden to extend subclasses.",
        ""],
      .action "__format__" "($self, format_spec, /)" ["Default object formatter."],
      .action "__sizeof__" "($self, /)" ["Size of object in memory, in bytes."],
      .action "__dir__" "($self, /)" ["Default dir() implementation."],
      .computed "__class__" ["the object's class"],
      .remark "__doc__" [
        "The base class of the class hierarchy.",
        "",
        "When called, it accepts no arguments and returns a new featureless",
        "instance that has no instance attributes and cannot be given any.",
        ""]]]

/-- Every kind has these. -/
def kindFeatures : List Feature :=
  .flatten [
    [.maker],
    operations ["__repr__", "__call__", "__getattribute__", "__setattr__", "__delattr__",
      "__init__", "__or__", "__ror__"],
    [.action "mro" "($self, /)" ["Return a type's method resolution order."],
      .action "__subclasses__" "($self, /)" ["Return a list of immediate subclasses."],
      .kindAction "__prepare__" "" [
        "__prepare__() -> dict",
        "used to create the namespace for the class statement"],
      .action "__instancecheck__" "($self, instance, /)" ["Check if an object is an instance."],
      .action "__subclasscheck__" "($self, subclass, /)" ["Check if a class is a subclass."],
      .action "__dir__" "($self, /)" ["Specialized __dir__ implementation for types."],
      .action "__sizeof__" "($self, /)" ["Return memory consumption of the type object."],
      .stored "__basicsize__" [],
      .stored "__itemsize__" [],
      .stored "__flags__" [],
      .stored "__weakrefoffset__" [],
      .stored "__base__" [],
      .stored "__dictoffset__" [],
      .stored "__mro__" [],
      .computed "__name__" [],
      .computed "__qualname__" [],
      .computed "__bases__" [],
      .computed "__module__" [],
      .computed "__abstractmethods__" [],
      .computed "__dict__" [],
      .computed "__doc__" [],
      .computed "__text_signature__" [],
      .computed "__annotations__" []]]

/-- Every kind applied to an argument has these. -/
def appliedFeatures : List Feature :=
  .flatten [
    [.maker],
    operations ["__repr__", "__hash__", "__call__", "__getattribute__", "__lt__", "__le__",
      "__eq__", "__ne__", "__gt__", "__ge__", "__iter__", "__or__", "__ror__",
      "__getitem__"],
    [.action "__mro_entries__" "" [],
      .action "__instancecheck__" "" [],
      .action "__subclasscheck__" "" [],
      .action "__reduce__" "" [],
      .action "__dir__" "" [],
      .stored "__origin__" [],
      .stored "__args__" [],
      .stored "__unpacked__" [],
      .computed "__parameters__" ["Type variables in the GenericAlias."],
      .computed "__typing_unpacked_tuple_args__" [],
      .remark "__doc__" [
        "Represent a PEP 585 generic type",
        "",
        "E.g. for t = list[int], t.__origin__ is list and t.__args__ is (int,)."]]]

end LambdaTrace.Template
