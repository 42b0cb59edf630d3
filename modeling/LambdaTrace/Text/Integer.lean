import LambdaTrace.Text.Blank
import LambdaTrace.Text.DecimalDigit

/-!
# Reading whole numbers

A whole number is written with decimal digits of any script, possibly after one
sign. Single underscores may stand between digits, and blanks around the whole; the
four separators from U+001C to U+001F, blank elsewhere, are no blanks here. A text of
more than `LambdaTrace.maxDigits` digits is not taken for a number.
-/

namespace LambdaTrace

/-- The value of a row of digits read after the value `n`, the last character
having been a digit. -/
def digitsValue? (n : Nat) : List Char → Option Nat
  | [] => some n
  | '_' :: c :: s => (decimalDigit? c).bind fun d => digitsValue? (10 * n + d) s
  | c :: s => (decimalDigit? c).bind fun d => digitsValue? (10 * n + d) s

/-- The digits that a number may have. -/
def maxDigits : Nat := 4300

/-- The value of a row of digits, which has at least one and not too many. -/
def natural? : List Char → Option Nat
  | [] => none
  | c :: s =>
    if maxDigits < (c :: s).length - s.count '_' then none
    else (decimalDigit? c).bind fun d => digitsValue? d s

/-- The value of a row of digits after a sign. -/
def signed? : List Char → Option Int
  | '-' :: s => (natural? s).map fun n => -(n : Int)
  | '+' :: s => (natural? s).map fun n => (n : Int)
  | s => (natural? s).map fun n => (n : Int)

/-- Whether a character is a blank that may stand before or after a number. -/
def isBlankAroundNumber (c : Char) : Bool :=
  isBlank c && !(0x1C ≤ c.toNat && c.toNat ≤ 0x1F)

/-- **The whole number that a text is**, if it is one. -/
def integer? (s : String) : Option Int :=
  signed? (((s.toList.dropWhile isBlankAroundNumber).reverse.dropWhile
    isBlankAroundNumber).reverse)

end LambdaTrace
