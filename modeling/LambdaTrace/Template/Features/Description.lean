import LambdaTrace.Template.Feature

/-!
# The features of features

What the features of a kind have themselves in common, by the role they play.
-/

namespace LambdaTrace.Template

open Feature (operations)

/-- Every operation has these. -/
def operationFeatureFeatures : List Feature :=
  .flatten [
    operations ["__repr__", "__call__", "__getattribute__", "__get__"],
    [.action "__reduce__" "" [],
      .stored "__objclass__" [],
      .stored "__name__" [],
      .computed "__doc__" [],
      .computed "__qualname__" [],
      .computed "__text_signature__" []]]

/-- Every action has these. -/
def actionFeatureFeatures : List Feature :=
  .flatten [
    operations ["__repr__", "__call__", "__getattribute__", "__get__"],
    [.action "__reduce__" "" [],
      .stored "__objclass__" [],
      .stored "__name__" [],
      .computed "__doc__" [],
      .computed "__qualname__" [],
      .computed "__text_signature__" []]]

/-- Every action of a kind has these. -/
def kindActionFeatureFeatures : List Feature :=
  .flatten [
    operations ["__repr__", "__call__", "__getattribute__", "__get__"],
    [.stored "__objclass__" [],
      .stored "__name__" [],
      .computed "__doc__" [],
      .computed "__qualname__" [],
      .computed "__text_signature__" []]]

/-- Every computed feature has these. -/
def computedFeatureFeatures : List Feature :=
  .flatten [
    operations ["__repr__", "__getattribute__", "__get__", "__set__", "__delete__"],
    [.stored "__objclass__" [],
      .stored "__name__" [],
      .computed "__doc__" [],
      .computed "__qualname__" []]]

/-- Every stored feature has these. -/
def storedFeatureFeatures : List Feature :=
  .flatten [
    operations ["__repr__", "__getattribute__", "__get__", "__set__", "__delete__"],
    [.action "__reduce__" "" [],
      .stored "__objclass__" [],
      .stored "__name__" [],
      .computed "__doc__" [],
      .computed "__qualname__" []]]

end LambdaTrace.Template
