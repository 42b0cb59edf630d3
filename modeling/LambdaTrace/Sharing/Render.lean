import LambdaTrace.Sharing.Follow
import LambdaTrace.Term.Print

/-!
# Highlighting a step

A term is printed as by `LambdaTrace.Term.pretty`, with the parts that take part in
a step decorated. The abstraction of a contraction, its argument, the inserted
copies and the expanded reference are known by their numbers. The occurrences of
the variable are known by name: those inside the abstraction of the redex, unless
the variable has been bound again since.

How a part is decorated is up to a function of its kind and its text.
-/

namespace LambdaTrace

/-- The kinds of parts that are decorated. -/
inductive Highlight where
  | abstraction
  | occurrence
  | target
  | reference
  | substituted
  deriving DecidableEq

/-- What a kind of part is called. -/
def Highlight.name : Highlight → String
  | .abstraction => "abstraction"
  | .occurrence => "variable"
  | .target => "target"
  | .reference => "macro"
  | .substituted => "substituted"

/-- A way to decorate the text of a part. -/
abbrev Decoration := Highlight → String → String

/-- The decoration that leaves everything as it is. -/
def Decoration.none : Decoration :=
  fun _ text => text

/-- The decoration that puts a part into brackets with the name of its kind. -/
def Decoration.bracket : Decoration :=
  fun kind text => "[" ++ kind.name ++ ":" ++ text ++ "]"

/-- Decorates a text if a condition holds. -/
def Decoration.when (mark : Decoration) (condition : Bool) (kind : Highlight) (text : String) :
    String :=
  if condition then mark kind text else text

namespace Marks

/-- Whether a node is the abstraction of the contracted redex. -/
def isAbstraction (m : Option Marks) (i : Nat) : Bool :=
  match m with
  | some (.beta (some j) _ _ _) => i == j
  | _ => false

/-- Whether a node is the argument of the contracted redex. -/
def isTarget (m : Option Marks) (i : Nat) : Bool :=
  match m with
  | some (.beta _ (some j) _ _) => i == j
  | _ => false

/-- Whether a name is the variable of the contracted redex. -/
def isVariable (m : Option Marks) (x : String) : Bool :=
  match m with
  | some (.beta _ _ y _) => x == y
  | _ => false

/-- Whether a node is the expanded reference. -/
def isReference (m : Option Marks) (i : Nat) : Bool :=
  match m with
  | some (.expansion j) => i == j
  | _ => false

/-- Whether a node is an inserted copy. -/
def isCopy (m : Option Marks) (i : Nat) : Bool :=
  match m with
  | some (.beta _ _ _ copies) => copies.contains i
  | _ => false

end Marks

namespace Node

def isApp : Node → Bool
  | .app _ _ _ => true
  | _ => false

def isAbs : Node → Bool
  | .abs _ _ _ => true
  | _ => false

/-- A text in parentheses, if a condition holds. -/
def parenthesizedIf (condition : Bool) (text : String) : String :=
  if condition then "(" ++ text ++ ")" else text

/-- The printed node with the parts of a step decorated, where `bound` says that the
node stands inside the abstraction of the redex with the variable not bound again. -/
def renderUnder (m : Option Marks) (mark : Decoration) : Node → (bound : Bool) → String
  | .var i x, bound =>
    mark.when (Marks.isCopy m i) .substituted
      (mark.when (bound && Marks.isVariable m x) .occurrence x)
  | .abs i x b, bound =>
    let inner :=
      if Marks.isAbstraction m i then true else bound && !Marks.isVariable m x
    mark.when (Marks.isCopy m i) .substituted
      (mark.when (Marks.isAbstraction m i) .abstraction ("λ" ++ x) ++ ". " ++
        b.renderUnder m mark inner)
  | .ref i n _, _ =>
    mark.when (Marks.isCopy m i) .substituted (mark.when (Marks.isReference m i) .reference n)
  | .app i f a, bound =>
    mark.when (Marks.isCopy m i) .substituted
      (parenthesizedIf f.isAbs (f.renderUnder m mark bound) ++ " " ++
        mark.when (Marks.isTarget m a.id) .target
          (parenthesizedIf (a.isApp || a.isAbs) (a.renderUnder m mark bound)))

/-- **The printed node** with the parts of a step decorated. -/
def render (m : Option Marks) (mark : Decoration) (n : Node) : String :=
  n.renderUnder m mark false

end Node

/-- The mark in front of a line of a displayed trace; there is a blank where there
is no mark. -/
def Label.lead : Label → String
  | .start => " "
  | label => label.text

/-- The lines of a displayed trace. Each term is decorated with the step taken from
it, and the last one with the step that led to it. -/
def SharedEntry.lines (mark : Decoration) (previous : Option Marks) :
    List SharedEntry → List String
  | [] => []
  | entry :: rest =>
    let marks := entry.marks <|> previous
    (entry.label.lead ++ " " ++ entry.node.render marks mark) ::
      SharedEntry.lines mark entry.marks rest

/-- The lines of a trace without decoration. -/
def Trace.lines (trace : Trace) : List String :=
  trace.map fun entry => entry.label.lead ++ " " ++ entry.term.pretty

end LambdaTrace
