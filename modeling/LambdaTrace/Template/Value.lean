import LambdaTrace.Template.Features
import LambdaTrace.Text.Quoted

/-!
# Values

What a slot of a template can come to. It starts from a text and leads on to the
kinds of values, to their features, and to what these hold. An action or an operation
that is reached from a value is bound to that value.

A value has two texts: `LambdaTrace.Template.Value.shown`, which stands in a message,
and `LambdaTrace.Template.Value.quoted`, in which texts are in quotes.
-/

namespace LambdaTrace.Template

/-- What a slot of a template can come to. -/
inductive Value where
  | text (s : String)
  | number (n : Int)
  | truth (b : Bool)
  /-- The absence of a value. -/
  | nothing
  /-- A row of values. -/
  | row (values : List Value)
  | kind (k : Kind)
  /-- The features of a kind, by their names. -/
  | overview (k : Kind)
  /-- A dictionary without entries. -/
  | dictionary
  /-- A feature that a kind has on its own. -/
  | feature (owner : Kind) (f : Feature)
  /-- An action bound to a value. -/
  | action (f : Feature) (actor : Value)
  /-- An operation bound to a value. -/
  | operation (owner : Kind) (f : Feature) (operand : Value)
  /-- A kind applied to an argument. -/
  | applied (k : Kind) (argument : Value)

/-- The kind of the feature that plays a part. -/
def Feature.Role.kind : Feature.Role → Kind
  | .action => .actionFeature
  | .kindAction => .kindActionFeature
  | .standalone => .standalone
  | .maker => .action
  | .operation => .operationFeature
  | .computed => .computedFeature
  | .stored => .storedFeature
  | .remark => .text

/-- What a feature is called when it is shown. -/
def Feature.Role.noun : Feature.Role → String
  | .operation => "slot wrapper"
  | .computed => "attribute"
  | .stored => "member"
  | _ => "method"

namespace Value

/-- The kind of a value. -/
def kindOf : Value → Kind
  | .text _ => .text
  | .number _ => .number
  | .truth _ => .truth
  | .nothing => .nothing
  | .row _ => .row
  | .kind _ => .kind
  | .overview _ => .overview
  | .dictionary => .dictionary
  | .feature _ f => f.role.kind
  | .action _ _ => .action
  | .operation _ _ _ => .operation
  | .applied _ _ => .applied

/-- A description, or a signature, as a value. -/
def ofText? : Option String → Value
  | some s => .text s
  | none => .nothing

/-- What a kind holds under the name of a feature. -/
def held (owner : Kind) (f : Feature) : Value :=
  match f.role with
  | .maker => .action f (.kind owner)
  | .remark => ofText? f.description
  | _ => .feature owner f

/-! ### The texts of a value -/

/-- Where a bound action or operation is kept. The places are not told apart. -/
def place : String := "0x0"

/-- An action that is bound to a value of a kind, as it is shown. -/
def boundAction (name : String) (k : Kind) : String :=
  "<built-in method " ++ name ++ " of " ++ k.name ++ " object at " ++ place ++ ">"

/-- A feature, as it is shown. -/
def featureText (owner : Kind) (f : Feature) : String :=
  match f.role with
  | .standalone => "<staticmethod(" ++ boundAction f.name .kind ++ ")>"
  | role => "<" ++ role.noun ++ " '" ++ f.name ++ "' of '" ++ owner.name ++ "' objects>"

/-- A row of values that are quoted already. One alone has a comma after it. -/
def rowText : List String → String
  | [s] => "(" ++ s ++ ",)"
  | ss => "(" ++ ", ".intercalate ss ++ ")"

/-- What a kind holds under the name of a feature, quoted. -/
def heldText (owner : Kind) (f : Feature) : String :=
  match f.role with
  | .maker => boundAction f.name .kind
  | .remark => (f.description.map LambdaTrace.quoted).getD "None"
  | _ => featureText owner f

/-- The features of a kind with their names, as they are shown. -/
def overviewText (k : Kind) : String :=
  let entries := k.features.map fun f => LambdaTrace.quoted f.name ++ ": " ++ heldText k f
  "\x7b" ++ ", ".intercalate entries ++ "\x7d"

mutual

/-- A value as it stands inside another one. -/
def quoted : Value → String
  | .text s => LambdaTrace.quoted s
  | .number n => toString n
  | .truth b => if b then "True" else "False"
  | .nothing => "None"
  | .row values => rowText (quotedAll values)
  | .kind k => "<class '" ++ k.name ++ "'>"
  | .overview k => "mappingproxy(" ++ overviewText k ++ ")"
  | .dictionary => "\x7b\x7d"
  | .feature owner f => featureText owner f
  | .action f actor => boundAction f.name actor.kindOf
  | .operation _ f operand =>
    "<method-wrapper '" ++ f.name ++ "' of " ++ operand.kindOf.name ++ " object at " ++ place ++
      ">"
  | .applied k argument => k.name ++ "[" ++ quoted argument ++ "]"

/-- The values of a row as they stand in it. -/
def quotedAll : List Value → List String
  | [] => []
  | v :: vs => quoted v :: quotedAll vs

end

/-- **A value as it stands in a message.** -/
def shown : Value → String
  | .text s => s
  | .overview k => overviewText k
  | v => v.quoted

end Value

end LambdaTrace.Template
