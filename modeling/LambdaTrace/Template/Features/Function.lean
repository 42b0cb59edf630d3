import LambdaTrace.Template.Feature

/-!
# The features of functions

What functions have in common, bound ones and free ones.
-/

namespace LambdaTrace.Template

open Feature (operations)

/-- Every bound action has these. -/
def actionFeatures : List Feature :=
  .flatten [
    operations ["__repr__", "__hash__", "__call__", "__getattribute__", "__lt__", "__le__",
      "__eq__", "__ne__", "__gt__", "__ge__"],
    [.action "__reduce__" "" [],
      .stored "__module__" [],
      .computed "__doc__" [],
      .computed "__name__" [],
      .computed "__qualname__" [],
      .computed "__self__" [],
      .computed "__text_signature__" []]]

/-- Every bound operation has these. -/
def operationFeatures : List Feature :=
  .flatten [
    operations ["__repr__", "__hash__", "__call__", "__getattribute__", "__lt__", "__le__",
      "__eq__", "__ne__", "__gt__", "__ge__"],
    [.action "__reduce__" "" [],
      .stored "__self__" [],
      .computed "__objclass__" [],
      .computed "__name__" [],
      .computed "__qualname__" [],
      .computed "__doc__" [],
      .computed "__text_signature__" []]]

/-- Every action that stands alone has these. -/
def standaloneFeatures : List Feature :=
  .flatten [
    [.maker],
    operations ["__repr__", "__call__", "__get__", "__init__"],
    [.stored "__func__" [],
      .stored "__wrapped__" [],
      .computed "__isabstractmethod__" [],
      .computed "__dict__" [],
      .remark "__doc__" [
        "staticmethod(function) -> method",
        "",
        "Convert a function to be a static method.",
        "",
        "A static method does not receive an implicit first argument.",
        "To declare a static method, use this idiom:",
        "",
        "     class C:",
        "         @staticmethod",
        "         def f(arg1, arg2, argN):",
        "             ...",
        "",
        "It can be called either on the class (e.g. C.f()) or on an instance",
        "(e.g. C().f()). Both the class and the instance are ignored, and",
        "neither is passed implicitly as the first argument to the method.",
        "",
        "Static methods in Python are similar to those found in Java or C++.",
        "For a more advanced concept, see the classmethod builtin."]]]

end LambdaTrace.Template
