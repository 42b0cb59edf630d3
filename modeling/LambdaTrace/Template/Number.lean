import LambdaTrace.Template.Layout

/-!
# Numbers in a message

How a whole number is laid out. It is presented in one of the bases two, eight, ten
and sixteen, as the character of its code point, or as a fraction: with a number of
places after the point, with an exponent, or in percent. The presentation takes the
number apart into a front, its digits, which may be marked off in groups, and a rest
(`LambdaTrace.Template.Presented`).
-/

namespace LambdaTrace.Template

/-- A number as it is presented, without its sign. -/
structure Presented where
  /-- What tells the base. -/
  front : List Char
  /-- The digits that can be marked off in groups. -/
  digits : List Char
  /-- What follows them. -/
  rest : List Char
  deriving DecidableEq

/-! ### Digits in groups -/

/-- Digits marked off in groups of a size, from the last to the first, with zeros after
them if there are fewer than asked for. Marks count among what is asked for. No more
groups are made than `fuel`. -/
def markGroups (size : Nat) (mark : Char) :
    (fuel least : Nat) → (digits : List Char) → List Char
  | 0, _, digits => digits
  | fuel + 1, least, digits =>
    let count := min size (max (max digits.length least) 1)
    let group := digits.take count ++ List.replicate (count - digits.length) '0'
    let digits := digits.drop count
    let least := least - count
    if digits.isEmpty && least == 0 then group
    else group ++ mark :: markGroups size mark fuel (least - 1) digits

/-- How many digits of a presentation make a group. -/
def groupSize (presentation : Char) : Nat :=
  if ['b', 'o', 'x', 'X'].contains presentation then 4 else 3

/-- The digits as a layout asks for them, at least as many characters as given. -/
def groupDigits (l : Layout) (least : Nat) (digits : List Char) : List Char :=
  match l.mark? with
  | none => List.replicate (least - digits.length) '0' ++ digits
  | some mark =>
    (markGroups (groupSize l.presentation) mark (digits.length + least + 1) least
      digits.reverse).reverse

/-! ### Fractions -/

/-- The quotient of two numbers to the nearest whole number, halves to the even one. -/
def roundedQuotient (n d : Nat) : Nat :=
  let q := n / d
  let r := 2 * (n % d)
  if d < r || (r == d && q % 2 == 1) then q + 1 else q

/-- The number of fifty-three binary digits and zeros after them that is nearest to a
number. Fractions have no more digits. -/
def nearestBinary (n : Nat) : Nat :=
  let unit := Nat.pow 2 (n.log2 + 1 - 53)
  roundedQuotient n unit * unit

/-- The first digits of a number, as many as asked for and rounded, and the exponent of
the first one. -/
def leadingDigits (count n : Nat) : List Char × Nat :=
  let digits := Nat.toDigits 10 n
  if digits.length ≤ count then
    (digits ++ List.replicate (count - digits.length) '0', digits.length - 1)
  else
    let rounded := Nat.toDigits 10 (roundedQuotient n (Nat.pow 10 (digits.length - count)))
    (rounded.take count, digits.length - 1 + (rounded.length - count))

/-- The places after a point. Without any there is no point either, unless asked for. -/
def afterPoint (always : Bool) (places : List Char) : List Char :=
  if places.isEmpty && !always then [] else '.' :: places

/-- An exponent, with two digits at least. -/
def exponentText (letter : Char) (n : Nat) : List Char :=
  let digits := Nat.toDigits 10 n
  letter :: '+' :: (List.replicate (2 - digits.length) '0' ++ digits)

/-- A number with a number of places after the point, which are zeros. -/
def fixedPoint (l : Layout) (precision n : Nat) (rest : List Char) : Presented :=
  ⟨[], Nat.toDigits 10 n, afterPoint l.alternate (List.replicate precision '0') ++ rest⟩

/-- Digits with an exponent. -/
def withExponent (always : Bool) (letter : Char) (exponent : Nat) : List Char → Presented
  | [] => ⟨[], [], []⟩
  | d :: places => ⟨[], [d], afterPoint always places ++ exponentText letter exponent⟩

/-- A text without the zeros at its end. -/
def dropLastZeros (s : List Char) : List Char :=
  (s.reverse.dropWhile (· == '0')).reverse

/-- A number with as many digits as asked for, and an exponent if these do not reach
to the point. Zeros at the end are left out, unless the layout shows them. -/
def generalPoint (l : Layout) (letter : Char) (count n : Nat) : Presented :=
  let places := fun s => if l.alternate then s else dropLastZeros s
  match leadingDigits count n with
  | (digits, exponent) =>
    if exponent < count then
      ⟨[], digits.take (exponent + 1),
        afterPoint l.alternate (places (digits.drop (exponent + 1)))⟩
    else withExponent l.alternate letter exponent (digits.take 1 ++ places (digits.drop 1))

/-- The largest precision that a fraction may have. -/
def maxPrecision : Nat := Nat.pow 2 31 - 1

/-- The precision of a fraction, where none is given. -/
def usualPrecision : Nat := 6

/-- A number as a fraction. -/
def presentFraction (l : Layout) (n : Nat) : Except TemplateError Presented :=
  let n := nearestBinary n
  let precision := l.precision?.getD usualPrecision
  if maxPrecision < precision then .error (.malformed .hugePrecision)
  else
    match l.presentation with
    | '%' => .ok (fixedPoint l precision (nearestBinary (100 * n)) ['%'])
    | 'e' | 'E' =>
      match leadingDigits (precision + 1) n with
      | (digits, exponent) => .ok (withExponent l.alternate l.presentation exponent digits)
    | 'g' => .ok (generalPoint l 'e' (max precision 1) n)
    | 'G' => .ok (generalPoint l 'E' (max precision 1) n)
    | _ => .ok (fixedPoint l precision n [])

/-! ### Whole numbers -/

/-- A number in a base. What tells the base is left out unless asked for. -/
def presentBase (l : Layout) (base : Nat) (letter : Char) (n : Nat) : Presented :=
  ⟨if l.alternate then ['0', letter] else [], Nat.toDigits base n, []⟩

/-- The character of a code point. -/
def presentCharacter (l : Layout) (n : Int) : Except TemplateError Presented :=
  if l.sign?.isSome then .error (.malformed .signForCharacter)
  else if l.alternate then .error (.malformed .alternateForCharacter)
  else if n < 0 || 0x10FFFF < n then .error .noCodePoint
  else .ok ⟨[], [], [Char.ofNat n.toNat]⟩

/-- A number as a whole number. -/
def presentWhole (l : Layout) (n : Int) : Except TemplateError Presented :=
  if l.precision?.isSome then .error (.malformed .precisionForNumber)
  else if l.unsignedZero then .error (.malformed .zeroForNumber)
  else
    match l.presentation with
    | 'c' => presentCharacter l n
    | 'b' => .ok (presentBase l 2 'b' n.natAbs)
    | 'o' => .ok (presentBase l 8 'o' n.natAbs)
    | 'x' => .ok (presentBase l 16 'x' n.natAbs)
    | 'X' =>
      let p := presentBase l 16 'X' n.natAbs
      .ok { p with digits := p.digits.map Char.toUpper }
    | _ => .ok ⟨[], Nat.toDigits 10 n.natAbs, []⟩

/-- A number as the presentation of a layout asks for it; the kind is named if there is
no such presentation. -/
def present (l : Layout) (k : Kind) (n : Int) : Except TemplateError Presented :=
  if ['b', 'c', 'd', 'o', 'x', 'X', 'n'].contains l.presentation then presentWhole l n
  else if ['e', 'E', 'f', 'F', 'g', 'G', '%'].contains l.presentation then
    presentFraction l n.natAbs
  else .error (.malformed (.unknownPresentation l.presentation k))

/-! ### Laying out -/

/-- The sign of a number. -/
def signText (l : Layout) (n : Int) : List Char :=
  if n < 0 then ['-']
  else
    match l.sign? with
    | some '+' => ['+']
    | some ' ' => [' ']
    | _ => []

/-- **A number laid out**, where the kind is that of the value. Zeros that fill up a
number after its sign are digits of the number. -/
def Layout.applyNumber (l : Layout) (k : Kind) (n : Int) : Except TemplateError (List Char) :=
  match present l k n with
  | .error e => .error e
  | .ok p =>
    if maxWidth < l.width then .error .tooWide
    else
      let front := signText l n ++ p.front
      let least :=
        if l.fill == '0' && l.side == .afterSign then l.width - (front.length + p.rest.length)
        else 0
      let digits := if p.digits.isEmpty then [] else groupDigits l least p.digits
      .ok (l.pad front (digits ++ p.rest))

end LambdaTrace.Template
