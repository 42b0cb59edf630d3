import LambdaTrace.Template.Error
import LambdaTrace.Template.Value

/-!
# Properties and items

A slot leads from a value to one of its **properties**, by name, or to one of its
**items**, by number or by name.

The properties of a value are the features of its kind, bound to the value
(`LambdaTrace.Template.Value.bound`) or computed from it
(`LambdaTrace.Template.Value.computed`). A kind, being a value itself, has also the
features of its values as properties, and they come before those that its own kind
adds. A kind applied to an argument passes on to the kind what it does not answer
itself.
-/

namespace LambdaTrace.Template.Value

/-! ### Computed properties -/

/-- What is computed from a kind under a name. -/
def ofKind (k : Kind) (name : String) : Except TemplateError Value :=
  let facts := k.facts
  match name with
  | "__name__" | "__qualname__" => .ok (.text facts.shortName)
  | "__module__" => .ok (.text facts.home)
  | "__doc__" =>
    .ok (match k.description?, k.ownFeature? name with
      | some s, _ => .text s
      | none, some f => held k f
      | none, none => .nothing)
  | "__text_signature__" => .ok (ofText? facts.signature)
  | "__basicsize__" => .ok (.number facts.size)
  | "__itemsize__" => .ok (.number facts.itemSize)
  | "__flags__" => .ok (.number facts.flags)
  | "__dictoffset__" => .ok (.number facts.dictionaryPlace)
  | "__weakrefoffset__" => .ok (.number facts.referencePlace)
  | "__mro__" => .ok (.row (k.ancestors.map .kind))
  | "__bases__" => .ok (.row (k.base?.toList.map .kind))
  | "__base__" => .ok ((k.base?.map .kind).getD .nothing)
  | "__dict__" => .ok (.overview k)
  | "__abstractmethods__" => .error .nothingOpen
  | _ => .error (.noKindProperty k name)

/-- What is computed from a feature, or from what is bound to a value, under a name:
`owner` has the feature on its own. -/
def ofFeature (owner : Kind) (f : Feature) (name : String) : Except TemplateError Value :=
  match name with
  | "__name__" => .ok (.text f.name)
  | "__qualname__" => .ok (.text (owner.facts.shortName ++ "." ++ f.name))
  | "__doc__" => .ok (ofText? f.description)
  | "__text_signature__" => .ok (ofText? f.signature)
  | "__objclass__" => .ok (.kind owner)
  | _ => .error (.noProperty f.role.kind name)

/-- What is computed from an action that needs no value. -/
def ofStandalone (owner : Kind) (f : Feature) (name : String) : Except TemplateError Value :=
  match name with
  | "__func__" | "__wrapped__" => .ok (.action f (.kind owner))
  | "__isabstractmethod__" => .ok (.truth false)
  | "__dict__" => .ok .dictionary
  | _ => .error (.noProperty .standalone name)

/-- What is computed from a number. -/
def ofNumber (n : Int) (name : String) : Except TemplateError Value :=
  match name with
  | "real" | "numerator" => .ok (.number n)
  | "imag" => .ok (.number 0)
  | "denominator" => .ok (.number 1)
  | _ => .error (.noProperty .number name)

/-- What is computed from an action that is bound to a value. One that needs no value
is bound to the kind all the same, but does not show it. -/
def ofAction (f : Feature) (actor : Value) (name : String) : Except TemplateError Value :=
  let owner := match actor with
    | .kind k => k
    | v => v.kindOf
  match name with
  | "__self__" => .ok (if f.role == .standalone then .nothing else actor)
  | "__module__" => .ok .nothing
  | name => ofFeature owner f name

/-- What is computed from a kind that is applied to an argument. -/
def ofApplied (k : Kind) (argument : Value) (name : String) : Except TemplateError Value :=
  match name with
  | "__origin__" => .ok (.kind k)
  | "__args__" => .ok (.row [argument])
  | "__unpacked__" => .ok (.truth false)
  | "__parameters__" => .ok (.row [])
  | "__typing_unpacked_tuple_args__" => .ok .nothing
  | _ => .error (.noProperty .applied name)

/-- What is computed from a value under the name of one of its features. -/
def computed (v : Value) (name : String) : Except TemplateError Value :=
  if name == "__class__" then .ok (.kind v.kindOf)
  else
    match v with
    | .kind k => ofKind k name
    | .feature owner f =>
      if f.role == .standalone then ofStandalone owner f name else ofFeature owner f name
    | .number n => ofNumber n name
    | .truth b => ofNumber (if b then 1 else 0) name
    | .action f actor => ofAction f actor name
    | .operation owner f operand =>
      if name == "__self__" then .ok operand else ofFeature owner f name
    | .applied k argument => ofApplied k argument name
    | v => .error (.noProperty v.kindOf name)

/-! ### Properties -/

/-- A feature as a property of a value of its kind. -/
def bound (v : Value) (owner : Kind) (f : Feature) : Except TemplateError Value :=
  match f.role with
  | .action => .ok (.action f v)
  | .operation => .ok (.operation owner f v)
  | .kindAction => .ok (.action f (.kind v.kindOf))
  | .standalone => .ok (.action f (.kind owner))
  | .computed | .stored => computed v f.name
  | .maker | .remark => .ok (held owner f)

/-- A feature as a property of a kind whose values have it. -/
def unbound (k owner : Kind) (f : Feature) : Value :=
  match f.role with
  | .kindAction => .action f (.kind k)
  | .standalone => .action f (.kind owner)
  | _ => held owner f

/-- A property of a kind. Facts about the kind come first, then the features of its
values, then what kinds can do. -/
def kindProperty (k : Kind) (name : String) : Except TemplateError Value :=
  let added := Kind.kind.find? name
  match added, k.find? name with
  | some (owner, f), found =>
    if f.isFact then bound (.kind k) owner f
    else
      match found with
      | some (owner, f) => .ok (unbound k owner f)
      | none => bound (.kind k) owner f
  | none, some (owner, f) => .ok (unbound k owner f)
  | none, none => .error (.noKindProperty k name)

/-- A property of a value by the features of its kind. -/
def featureProperty (v : Value) (name : String) : Except TemplateError Value :=
  match v.kindOf.find? name with
  | some (owner, f) => bound v owner f
  | none => .error (.noProperty v.kindOf name)

/-- The properties for which a kind applied to an argument answers itself. -/
def answered : List String :=
  ["__class__", "__origin__", "__args__", "__unpacked__", "__parameters__",
    "__typing_unpacked_tuple_args__", "__mro_entries__", "__reduce_ex__", "__reduce__", "__copy__",
    "__deepcopy__"]

/-- **The property of a value** that has a name. -/
def property (v : Value) (name : String) : Except TemplateError Value :=
  match v with
  | .kind k => kindProperty k name
  | .applied k _ => if answered.contains name then featureProperty v name else kindProperty k name
  | v => featureProperty v name

/-! ### Items -/

/-- A kind, or an applied one, applied to an argument. -/
def apply (v argument : Value) : Except TemplateError Value :=
  match v with
  | .kind k => if k.isGeneric then .ok (.applied k argument) else .error (.notApplicable k)
  | .applied _ _ => .error (.notGeneric v.quoted)
  | v => .error (.noItems v.kindOf)

/-- **The item of a value** that has a number. -/
def itemAt (v : Value) (n : Nat) : Except TemplateError Value :=
  match v with
  | .text s => (s.toList[n]?).elim (.error .noCharacter) fun c => .ok (.text c.toString)
  | .row values => (values[n]?).elim (.error .noItem) .ok
  | .overview _ | .dictionary => .error (.unknownNumber n)
  | v => v.apply (.number n)

/-- **The item of a value** that has a name. -/
def itemNamed (v : Value) (name : String) : Except TemplateError Value :=
  match v with
  | .text _ => .error .namedCharacter
  | .row _ => .error .namedItem
  | .overview k =>
    match k.ownFeature? name with
    | some f => .ok (held k f)
    | none => .error (.unknownName name)
  | .dictionary => .error (.unknownName name)
  | v => v.apply (.text name)

end LambdaTrace.Template.Value
