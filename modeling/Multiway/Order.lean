/-!
# Key orders

Keys are ordered only by the comparison that the caller passes to each operation. Nothing forces a
comparison to be an order; the class `Std.TransCmp` says when it is a total preorder.

* `Comparison`, `Comparison.reverse`, `Comparison.constant`;
* orders of integers: `byMagnitude`, `byParity`, `byRemainder`;
* orders of text: `byLength`, `ignoringCase`.
-/

namespace Multiway

/-- How two keys compare. -/
abbrev Comparison (K : Type) := K → K → Ordering

namespace Comparison

variable {K : Type}

/-- The comparison with its arguments exchanged. -/
def reverse (cmp : Comparison K) : Comparison K := fun a b => cmp b a

/-- The comparison that always gives the same answer. -/
def constant (answer : Ordering) : Comparison K := fun _ _ => answer

/-- Integers by distance from zero. -/
def byMagnitude : Comparison Int64 := compareOn fun a => a.toInt.natAbs

/-- Even integers before odd ones, each in their natural order. -/
def byParity : Comparison Int64 := compareLex (compareOn fun a => a.toInt % 2) compare

/-- Integers by their remainder, between zero and `n - 1`, on division by `n`. -/
def byRemainder (n : Nat) : Comparison Int64 := compareOn fun a => a.toInt % n

/-- Texts by their number of characters. -/
def byLength : Comparison String := compareOn String.length

/-- Texts in their natural order once the letters `A` to `Z` are made small. -/
def ignoringCase : Comparison String := compareOn (String.map Char.toLower)

end Comparison

end Multiway
