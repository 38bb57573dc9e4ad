/-!
# Failures of reading JSON

A reader takes the characters of a text and gives what stands at the front and the characters after
it, or the first failure from left to right.

* `Failure`: why a text cannot be read;
* `Position`: a place in a text, by line and column;
* `skipBlanks`: the text after its blanks.
-/

namespace Multiway.Json

/-- Why a JSON text cannot be read. -/
inductive Failure where
  /-- The text ends too early. -/
  | earlyEnd
  /-- The text is not JSON. -/
  | malformed
  /-- The text is JSON so far, but not of the type asked for. -/
  | wrongType
deriving DecidableEq

/-- A place in a text: the number of its line, counted from one, and how many characters of the line
stand before it. -/
structure Position where
  line : Nat
  column : Nat
deriving DecidableEq

/-- The place a character further on. -/
def Position.next (p : Position) (c : Char) : Position :=
  if c = '\n' then ⟨p.line + 1, 0⟩ else ⟨p.line, p.column + 1⟩

/-- The place at the end of a text. -/
def Position.after (text : List Char) : Position := text.foldl Position.next ⟨1, 0⟩

/-- Whether a character may stand between the parts of a JSON text. -/
def isBlank (c : Char) : Bool := c = ' ' || c = '\n' || c = '\t' || c = '\r'

/-- The text after the blanks at its front. -/
def skipBlanks (text : List Char) : List Char := text.dropWhile isBlank

theorem length_skipBlanks_le (text : List Char) : (skipBlanks text).length ≤ text.length :=
  (List.dropWhile_sublist _).length_le

end Multiway.Json
