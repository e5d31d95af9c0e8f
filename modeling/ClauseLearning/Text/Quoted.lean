import ClauseLearning.Text.GraphemeExtend
import ClauseLearning.Text.Printable

/-!
# Quoted text

`quoted s` puts `s` between double quotes. Quotes, backslashes and characters that would not show on their own are
written as escapes (`escaped`), everything else stands for itself.
-/

namespace ClauseLearning

/-- The lower case hexadecimal digits of a number, without leading zeros. -/
def hexadecimal (n : Nat) : List Char := Nat.toDigits 16 n

/-- A character by its code point. -/
def byCodePoint (c : Char) : List Char := ['\\', 'u', '\x7b'] ++ hexadecimal c.toNat ++ ['\x7d']

/-- A character as it stands between quotes. -/
def escaped (c : Char) : List Char :=
  if c = '"' then ['\\', '"']
  else if c = '\\' then ['\\', '\\']
  else if c = '\n' then ['\\', 'n']
  else if c = '\r' then ['\\', 'r']
  else if c = '\t' then ['\\', 't']
  else if c.toNat = 0 then ['\\', '0']
  else if extendsGrapheme c || !isPrintable c then byCodePoint c
  else [c]

/-- A text between double quotes. -/
def quoted (s : String) : String := String.ofList ('"' :: s.toList.flatMap escaped ++ ['"'])

end ClauseLearning
