import Multiway.Iter
import Multiway.Tree.Insert

/-!
# Trees as lists of members

To be written in some format, a tree announces its size and then gives its entries in order. A tree
is read back by inserting the members one after another in the natural order of the keys, so of
several members with one key the last one wins.

* `Serialized`, `Tree.serialize`, `Tree.deserialize`.
-/

namespace Multiway

/-- What a tree gives to be written. -/
structure Serialized (K V : Type) where
  /-- The announced number of members. -/
  announced : Nat
  members : List (Entry K V)

namespace Tree

variable {K V : Type}

/-- The members of a tree. -/
def serialize (t : Tree K V) : Except Fault (Serialized K V) := do
  return ⟨t.size, ← (Iter.start t).toList⟩

/-- The tree of some members. -/
def deserialize [Ord K] (members : List (Entry K V)) : Except Fault (Tree K V) :=
  empty.insertMany compare members

end Tree

end Multiway
