import LambdaTrace.Text.Printable

/-!
# Quoted text

A text as it is quoted in a message: in single quotes, or in double quotes if that
saves escaping. What is not printable is written as its code point.
-/

namespace LambdaTrace

/-- The digits of a number in base sixteen, in lower case, at least as many as
asked for. -/
def hexDigits (width n : Nat) : List Char :=
  let digits := Nat.toDigits 16 n
  List.replicate (width - digits.length) '0' ++ digits

/-- The code point of a character, with as many digits as its size calls for. -/
def codePoint (c : Char) : List Char :=
  if c.toNat < 0x100 then '\\' :: 'x' :: hexDigits 2 c.toNat
  else if c.toNat < 0x10000 then '\\' :: 'u' :: hexDigits 4 c.toNat
  else '\\' :: 'U' :: hexDigits 8 c.toNat

/-- A character as it stands inside the given quotes. -/
def quoteChar (quote c : Char) : List Char :=
  if c == quote || c == '\\' then ['\\', c]
  else if c == '\t' then ['\\', 't']
  else if c == '\n' then ['\\', 'n']
  else if c == '\r' then ['\\', 'r']
  else if isPrintable c then [c]
  else codePoint c

/-- A text in quotes. -/
def quoted (s : String) : String :=
  let quote := if s.toList.contains '\x27' && !s.toList.contains '"' then '"' else '\x27'
  String.ofList (quote :: s.toList.flatMap (quoteChar quote) ++ [quote])

/-- A text in which whatever is not ASCII is written as its code point. -/
def inAscii (s : String) : String :=
  String.ofList (s.toList.flatMap fun c => if c.toNat < 0x80 then [c] else codePoint c)

end LambdaTrace
