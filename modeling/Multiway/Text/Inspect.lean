import Multiway.Text.Decimal
import Multiway.Text.Quoted
import Multiway.Tree.Basic

/-!
# Trees as text for the eye

A tree is shown as its entries in order between braces, on one line or with one entry a line.

* `Inspect`: the text of a key or a value;
* `Tree.inspectLines`, `Tree.inspect`: the text of a tree;
* `Tree.inspectTransient`: the text of a transient, a record with one field.
-/

namespace Multiway

/-- A text for the eye. -/
class Inspect (α : Type) where
  inspect : α → String

instance : Inspect Int64 := ⟨fun a => toString a.toInt⟩

instance : Inspect String := ⟨Text.quote⟩

/-- Floating-point numbers for the eye: positional from a ten-thousandth on. -/
def Text.floatForEye : Text.Layout where
  leastPosition := -3
  tie := .up
  exponentSign := ""
  nan := "NaN"
  infinity := "inf"
  negativeInfinity := "-inf"

instance : Inspect Float := ⟨Text.renderFloat Text.floatForEye⟩

namespace Text

/-- A line one level further in. -/
def indent (line : String) : String := "    " ++ line

/-- Lines as one text. -/
def ofLines (lines : List String) : String := String.intercalate "\n" lines

/-- A value that may take several lines as a field of a record, a level further in. -/
def fieldLines (name : String) : List String → List String
  | [] => []
  | [only] => [indent (name ++ ": " ++ only ++ ",")]
  | first :: rest =>
    indent (name ++ ": " ++ first) ::
      (rest.dropLast ++ rest.getLast?.toList.map (· ++ ",")).map indent

end Text

variable {K V : Type} [Inspect K] [Inspect V]

/-- An entry for the eye. -/
def Entry.inspect (e : Entry K V) : String :=
  Inspect.inspect e.key ++ ": " ++ Inspect.inspect e.value

namespace Tree

/-- A tree for the eye, on one line. -/
def inspect (t : Tree K V) : String :=
  "\x7b" ++ String.intercalate ", " (t.toList.map Entry.inspect) ++ "\x7d"

/-- A tree for the eye, with one entry a line. -/
def inspectLines (t : Tree K V) : List String :=
  if t.isEmpty then [t.inspect]
  else "\x7b" :: t.toList.map (fun e => Text.indent (e.inspect ++ ",")) ++ ["\x7d"]

/-- The name of a transient as a record. -/
def transientName : String := "TransientTree"

/-- A transient for the eye, on one line. -/
def inspectTransient (t : Tree K V) : String :=
  transientName ++ " \x7b entries: " ++ t.inspect ++ " \x7d"

/-- A transient for the eye, with one entry a line. -/
def inspectTransientLines (t : Tree K V) : List String :=
  (transientName ++ " \x7b") :: Text.fieldLines "entries" t.inspectLines ++ ["\x7d"]

end Tree

end Multiway
