import Multiway.Order

/-!
# Finding a key among sorted keys

Every search, update and cursor picks its way through a node by one binary search over the node's
keys. It keeps a window `[base, base + size)` and halves it until one key is left; a last look at
that key decides. Only the answers of the comparison matter, so the search is defined on the list
of answers.

* `Location`: a key was hit, or lies in the gap where a child hangs;
* `Location.narrow`, `Location.ofAnswers`: the search on a list of answers;
* `locate`, `partitionPoint`: the search for a key, and for the first key to fail a test.
-/

namespace Multiway

/-- Where a key belongs in a node. -/
inductive Location where
  /-- At the entry with this index. -/
  | slot (index : Nat)
  /-- In the child with this index. -/
  | child (index : Nat)
deriving DecidableEq

namespace Location

/-- The index of the slot or child. -/
def index : Location → Nat
  | slot i => i
  | child i => i

/-- Halves a window of `size` answers from `base` on until one is left, and gives its index: the
window keeps its right half unless the answer at the middle is `gt`. -/
def narrow (answers : List Ordering) (base size : Nat) : Nat :=
  if 1 < size then
    let middle := base + size / 2
    let base := if answers[middle]? = some .gt then base else middle
    narrow answers base (size - size / 2)
  else base
termination_by size

/-- The location given by how the keys of a node, from left to right, compare with the sought
key. -/
def ofAnswers (answers : List Ordering) : Location :=
  let base := narrow answers 0 answers.length
  match answers[base]? with
  | none => child 0
  | some .lt => child (base + 1)
  | some .eq => slot base
  | some .gt => child base

end Location

variable {K : Type}

/-- Where `key` belongs among `keys`. -/
def locate (cmp : Comparison K) (keys : List K) (key : K) : Location :=
  .ofAnswers (keys.map (cmp · key))

/-- The number of leading keys that pass `test`, if those that pass come first. -/
def partitionPoint (test : K → Bool) (keys : List K) : Nat :=
  (Location.ofAnswers (keys.map fun key => if test key then .lt else .gt)).index

end Multiway
