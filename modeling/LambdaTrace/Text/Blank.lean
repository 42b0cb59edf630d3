/-!
# Blank characters

Blank space separates tokens, surrounds statements and may be stripped from
them. The class is wider than the space bar: it holds the ASCII blanks, the four
separators between U+001C and U+001F, the next-line mark and the spaces of the
Unicode space block, but no zero-width character.

`LambdaTrace.dropBlank` removes the blank run in front of a text and
`LambdaTrace.strip` the runs at both ends. `LambdaTrace.length_dropBlank_le` is
what a reader that skips blanks before every token recurses on.
-/

namespace LambdaTrace

/-- Whether a character is blank space. -/
def isBlank (c : Char) : Bool :=
  let n := c.toNat
  (0x09 ≤ n && n ≤ 0x0D) || (0x1C ≤ n && n ≤ 0x20) || n == 0x85 || n == 0xA0 || n == 0x1680 ||
    (0x2000 ≤ n && n ≤ 0x200A) || n == 0x2028 || n == 0x2029 || n == 0x202F || n == 0x205F ||
    n == 0x3000

/-- The text after the blank run in front of it. -/
def dropBlank (s : List Char) : List Char :=
  s.dropWhile isBlank

/-- The text without the blank runs at its two ends. -/
def stripChars (s : List Char) : List Char :=
  (dropBlank (dropBlank s).reverse).reverse

/-- The string without the blank runs at its two ends. -/
def strip (s : String) : String :=
  String.ofList (stripChars s.toList)

/-! ### What is left after a blank run -/

theorem dropWhile_length_le {α : Type} (p : α → Bool) (s : List α) :
    (s.dropWhile p).length ≤ s.length := by
  induction s with
  | nil => exact Nat.le_refl _
  | cons c s ih =>
    rw [List.dropWhile_cons]
    split
    · exact Nat.le_succ_of_le ih
    · exact Nat.le_refl _

theorem length_dropBlank_le (s : List Char) : (dropBlank s).length ≤ s.length :=
  dropWhile_length_le isBlank s

end LambdaTrace
