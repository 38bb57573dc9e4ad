import Multiway.Location
import Multiway.Tree.Basic

/-!
# Looking up entries

Exact and neighbour lookups descend from the root; `locate` or `partitionPoint` picks one child at
every node. The neighbour lookups answer with what they find in that child, and fall back to the
entry of the node beside it: whatever the child holds lies closer to the bound.

* `Tree.find?`, `Tree.get?`, `Tree.contains`: the entry of a key;
* `Tree.findLT?`, `Tree.findGT?`, `Tree.findGE?`: the nearest entries before a bound,
  after it, and from it on;
* `Tree.min?`, `Tree.max?`, `Tree.middle?`: an entry of the whole tree.
-/

namespace Multiway

namespace Tree

variable {K V : Type}

/-- The entry at which the search for `key` stops. -/
def find? (cmp : Comparison K) (t : Tree K V) (key : K) : Option (Entry K V) :=
  match locate cmp t.keys key with
  | .slot i => t.entries[i]?
  | .child i =>
    match _h : t.children[i]? with
    | none => none
    | some c => c.find? cmp key
termination_by t.size
decreasing_by exact size_child_lt ‹_›

/-- The value stored under `key`. -/
def get? (cmp : Comparison K) (t : Tree K V) (key : K) : Option V :=
  (t.find? cmp key).map Entry.value

/-- Whether there is an entry at which the search for `key` stops. -/
def contains (cmp : Comparison K) (t : Tree K V) (key : K) : Bool :=
  match locate cmp t.keys key with
  | .slot _ => true
  | .child i =>
    match _h : t.children[i]? with
    | none => false
    | some c => c.contains cmp key
termination_by t.size
decreasing_by exact size_child_lt ‹_›

/-- The last entry whose key is less than `bound`. -/
def findLT? (cmp : Comparison K) (t : Tree K V) (bound : K) : Option (Entry K V) :=
  let i := partitionPoint (cmp · bound == .lt) t.keys
  match _h : t.children[i]? with
  | none => none
  | some c => (c.findLT? cmp bound).or (if i = 0 then none else t.entries[i - 1]?)
termination_by t.size
decreasing_by exact size_child_lt ‹_›

/-- The first entry whose key is greater than `bound`. -/
def findGT? (cmp : Comparison K) (t : Tree K V) (bound : K) : Option (Entry K V) :=
  let i := partitionPoint (cmp · bound != .gt) t.keys
  match _h : t.children[i]? with
  | none => none
  | some c => (c.findGT? cmp bound).or t.entries[i]?
termination_by t.size
decreasing_by exact size_child_lt ‹_›

/-- The first entry whose key is not less than `bound`. -/
def findGE? (cmp : Comparison K) (t : Tree K V) (bound : K) : Option (Entry K V) :=
  match locate cmp t.keys bound with
  | .slot i => t.entries[i]?
  | .child i =>
    match _h : t.children[i]? with
    | none => none
    | some c => (c.findGE? cmp bound).or t.entries[i]?
termination_by t.size
decreasing_by exact size_child_lt ‹_›

/-- The first entry. -/
def min? : Tree K V → Option (Entry K V)
  | empty => none
  | two c₀ a _ => c₀.min?.or (some a)
  | three c₀ a _ _ _ => c₀.min?.or (some a)
  | four c₀ a _ _ _ _ _ => c₀.min?.or (some a)

/-- The last entry. -/
def max? : Tree K V → Option (Entry K V)
  | empty => none
  | two _ a c₁ => c₁.max?.or (some a)
  | three _ _ _ b c₂ => c₂.max?.or (some b)
  | four _ _ _ _ _ c c₃ => c₃.max?.or (some c)

/-- Some entry, found without descending: the middle one of the root node. -/
def middle? (t : Tree K V) : Option (Entry K V) := t.entries[t.entries.length / 2]?

end Tree

end Multiway
