import Multiway.Text.Unprintable

/-!
# Quoted text

A text between double quotes, with a backslash before what would end it or not show: the quote and
the backslash themselves, the usual line characters, and any other character without a printed form,
which is written by its number.

* `escape`: one character in a quoted text;
* `quote`: the whole text.
-/

namespace Multiway.Text

/-- The digits of a number in base sixteen. -/
def hexDigits (n : Nat) : String := String.ofList (Nat.toDigits 16 n)

/-- A character as it is written between quotes. -/
def escape (c : Char) : String :=
  if c = '"' then "\\\""
  else if c = '\\' then "\\\\"
  else if c = '\n' then "\\n"
  else if c = '\t' then "\\t"
  else if c = '\r' then "\\r"
  else if c = '\x00' then "\\0"
  else if isUnprintable c then "\\u\x7b" ++ hexDigits c.toNat ++ "\x7d"
  else c.toString

/-- A text between double quotes. -/
def quote (s : String) : String := "\"" ++ String.join (s.toList.map escape) ++ "\""

end Multiway.Text
