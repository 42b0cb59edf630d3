/-!
# Finding a word in a text

The first place where a word occurs in a text, and the parts before and after it.
-/

namespace LambdaTrace

/-- The parts of a text before and after the first occurrence of a word. -/
def cutAt? (word : List Char) : List Char → Option (List Char × List Char)
  | [] => if word.isPrefixOf [] then some ([], []) else none
  | c :: s =>
    if word.isPrefixOf (c :: s) then some ([], (c :: s).drop word.length)
    else (cutAt? word s).map fun (before, after) => (c :: before, after)

/-- Whether a word occurs in a text. -/
def occursIn (word text : String) : Bool :=
  (cutAt? word.toList text.toList).isSome

/-- The number of characters before the first occurrence of a word. -/
def findIn? (word text : String) : Option Nat :=
  (cutAt? word.toList text.toList).map fun (before, _) => before.length

/-- The text before the first occurrence of a word, or all of it. -/
def before (word : String) (text : List Char) : List Char :=
  match cutAt? word.toList text with
  | some (s, _) => s
  | none => text

end LambdaTrace
