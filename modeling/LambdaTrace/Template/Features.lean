import LambdaTrace.Template.Kind
import LambdaTrace.Template.Features.Collection
import LambdaTrace.Template.Features.Description
import LambdaTrace.Template.Features.Foundation
import LambdaTrace.Template.Features.Function
import LambdaTrace.Template.Features.Number
import LambdaTrace.Template.Features.Text

/-!
# The features of a kind

A kind has features of its own and those of the kinds it extends. Where both have
one of the same name, the nearer one counts: `LambdaTrace.Template.Kind.find?`.
-/

namespace LambdaTrace.Template.Kind

/-- The features that a kind has on its own. -/
def features : Kind → List Feature
  | .text => textFeatures
  | .object => objectFeatures
  | .kind => kindFeatures
  | .row => rowFeatures
  | .number => numberFeatures
  | .truth => truthFeatures
  | .nothing => nothingFeatures
  | .action => actionFeatures
  | .operation => operationFeatures
  | .operationFeature => operationFeatureFeatures
  | .actionFeature => actionFeatureFeatures
  | .kindActionFeature => kindActionFeatureFeatures
  | .computedFeature => computedFeatureFeatures
  | .storedFeature => storedFeatureFeatures
  | .standalone => standaloneFeatures
  | .overview => overviewFeatures
  | .dictionary => dictionaryFeatures
  | .applied => appliedFeatures

/-- The feature of a name that a kind has on its own. -/
def ownFeature? (k : Kind) (name : String) : Option Feature :=
  k.features.find? (·.name == name)

/-- **The feature of a name**, with the kind that has it on its own. -/
def find? (k : Kind) (name : String) : Option (Kind × Feature) :=
  k.ancestors.findSome? fun owner => (owner.ownFeature? name).map fun f => (owner, f)

end LambdaTrace.Template.Kind
