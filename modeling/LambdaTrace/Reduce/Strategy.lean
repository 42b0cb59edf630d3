import LambdaTrace.Text.Blank
import LambdaTrace.Text.LowerCase
import LambdaTrace.Text.Quoted

/-!
# Evaluation strategies

The four strategies a term can be reduced under, with the names they are chosen
by. Each has one canonical name and one longer word for it.
-/

namespace LambdaTrace

/-- An evaluation strategy. -/
inductive Strategy where
  /-- Call by value: arguments first, nothing under a binder. -/
  | cbv
  /-- Call by name: arguments as they are, nothing under a binder. -/
  | cbn
  /-- Normal order: the leftmost outermost redex, also under binders. -/
  | normal
  /-- Applicative order: a function is reduced before it is applied. -/
  | applicative
  deriving DecidableEq, Inhabited

namespace Strategy

/-- The strategies in the order they are listed to the user. -/
def all : List Strategy :=
  [.cbv, .cbn, .normal, .applicative]

/-- The canonical name. -/
def name : Strategy → String
  | .cbv => "cbv"
  | .cbn => "cbn"
  | .normal => "normal"
  | .applicative => "applicative"

/-- The other word a strategy is chosen by. -/
def byname : Strategy → String
  | .cbv => "value"
  | .cbn => "name"
  | .normal => "full"
  | .applicative => "appl"

/-- The canonical names in a row, as shown to the user. -/
def listing : String :=
  ", ".intercalate (all.map name)

/-- The strategy of a given name, which is either of its two words. -/
def ofName? (word : String) : Option Strategy :=
  all.find? fun s => s.name == word || s.byname == word

/-- The word that a text asks for, without the blanks around it and in lower case. -/
def wordOf (text : String) : String :=
  lowerCase (strip text)

/-- **The strategy that a text asks for**, if there is one. -/
def parse? (text : String) : Option Strategy :=
  ofName? (wordOf text)

/-- What is said of a text that asks for no strategy. -/
def unknownMessage (text : String) : String :=
  quoted (wordOf text) ++ " is not a valid Strategy"

end Strategy

end LambdaTrace
