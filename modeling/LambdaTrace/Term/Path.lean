import LambdaTrace.Term.Basic

/-!
# Positions in a term

A position is the list of turns that leads from the root of a term to a subterm:
left or right at an application, into the body at an abstraction. There is no
turn into a reference: what a macro stands for is not part of the term that names
it.
-/

namespace LambdaTrace

/-- One turn on the way down a term. -/
inductive Turn where
  /-- To the function of an application. -/
  | left
  /-- To the argument of an application. -/
  | right
  /-- To the body of an abstraction. -/
  | body
  deriving DecidableEq, Inhabited

/-- The turns from the root to a subterm. -/
abbrev Path := List Turn

/-- The letter a turn is written with. -/
def Turn.letter : Turn → Char
  | .left => 'l'
  | .right => 'r'
  | .body => 'b'

/-- A position as a word of letters, the root being the empty word. -/
def Path.text (p : Path) : String :=
  String.ofList (p.map Turn.letter)

namespace Term

/-- The subterm at a position, if the position exists. -/
def at? : Term → Path → Option Term
  | t, [] => some t
  | .app f _, .left :: p => f.at? p
  | .app _ a, .right :: p => a.at? p
  | .abs _ b, .body :: p => b.at? p
  | _, _ :: _ => none

/-- The term with the subterm at a position replaced; unchanged if there is no
such position. -/
def replaceAt : Term → Path → Term → Term
  | _, [], u => u
  | .app f a, .left :: p, u => .app (f.replaceAt p u) a
  | .app f a, .right :: p, u => .app f (a.replaceAt p u)
  | .abs x b, .body :: p, u => .abs x (b.replaceAt p u)
  | t, _ :: _, _ => t

/-! ### Positions of the root and below -/

theorem at?_nil (t : Term) : t.at? [] = some t := by
  cases t <;> rfl

theorem replaceAt_nil (t u : Term) : t.replaceAt [] u = u := by
  cases t <;> rfl

/-- What was put at a position is there. -/
theorem at?_replaceAt {t u v : Term} {p : Path} (h : t.at? p = some u) :
    (t.replaceAt p v).at? p = some v := by
  induction p generalizing t with
  | nil => rw [replaceAt_nil, at?_nil]
  | cons turn p ih =>
    cases t with
    | app f a =>
      cases turn with
      | left => exact ih h
      | right => exact ih h
      | body => cases h
    | abs x b =>
      cases turn with
      | body => exact ih h
      | _ => cases h
    | _ => cases turn <;> cases h

/-- A variable or a reference has no other part than itself. -/
theorem at?_cons_of_children_eq_nil {t : Term} (h : t.children = []) (turn : Turn)
    (path : Path) : t.at? (turn :: path) = none := by
  cases t with
  | app f a => cases h
  | abs x b => cases h
  | _ => cases turn <;> rfl

theorem replaceAt_cons_of_children_eq_nil {t : Term} (h : t.children = []) (turn : Turn)
    (path : Path) (u : Term) : t.replaceAt (turn :: path) u = t := by
  cases t with
  | app f a => cases h
  | abs x b => cases h
  | _ => cases turn <;> rfl

end Term

end LambdaTrace
