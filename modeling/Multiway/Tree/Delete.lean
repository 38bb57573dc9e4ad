import Multiway.Tree.Repair
import Multiway.Tree.Search

/-!
# Deletion

An entry leaves the tree at a leaf. If the leaf had no other entry, it disappears and its parent
has a short child, which it mends (`Tree.repair`) before it reports in turn whether it is short now
itself. An entry further up is replaced by its successor, the first entry of the subtree to its
right.

* `Removal`: the tree, the entry taken out and whether the tree is short;
* `Tree.removeFirst`, `Tree.removeLast`, `Tree.removeBelow`: removal from a subtree;
* `Tree.erase`: removal of a key from the whole tree.

All of them answer `none` if nothing was removed.
-/

namespace Multiway

/-- What a removal leaves. -/
structure Removal (K V : Type) where
  tree : Tree K V
  entry : Entry K V
  /-- Whether the tree is one level shorter than before. -/
  short : Bool

namespace Tree

variable {K V : Type}

/-- Removal of entry `i` of a leaf. -/
def removeAt (t : Tree K V) (i : Nat) : Except Fault (Removal K V) :=
  match t.entries[i]? with
  | none => .error (.outOfRange i)
  | some e => do
    let (t, short) ← t.dropEntry i
    return ⟨t, e, short⟩

/-- The root node after a removal from its child `i`. -/
def afterRemoval (t : Tree K V) (i : Nat) (r : Removal K V) : Except Fault (Removal K V) := do
  let t ← t.writeChild i r.tree
  if r.short then
    let (t, short) ← t.repair i
    return ⟨t, r.entry, short⟩
  else return ⟨t, r.entry, false⟩

theorem afterRemoval_of_child {t c : Tree K V} {i : Nat} (hc : t.children[i]? = some c)
    (r : Removal K V) : t.afterRemoval i r =
      if r.short then do
        let (t, short) ← (t.setChild i r.tree).repair i
        return ⟨t, r.entry, short⟩
      else .ok ⟨t.setChild i r.tree, r.entry, false⟩ := by
  rw [afterRemoval, writeChild_ok hc]
  rfl

/-- Removal of the first entry. -/
def removeFirst (t : Tree K V) : Except Fault (Option (Removal K V)) :=
  if t.isEmpty then .ok none
  else if t.isLeaf then some <$> t.removeAt 0
  else
    match _h : t.children[0]? with
    | none => .error (.outOfRange 0)
    | some c => do
      match ← c.removeFirst with
      | none => return none
      | some r => some <$> t.afterRemoval 0 r
termination_by t.size
decreasing_by exact size_child_lt ‹_›

/-- Removal of the last entry. -/
def removeLast (t : Tree K V) : Except Fault (Option (Removal K V)) :=
  let last := t.entries.length
  if t.isEmpty then .ok none
  else if t.isLeaf then some <$> t.removeAt (last - 1)
  else
    match _h : t.children[last]? with
    | none => .error (.outOfRange last)
    | some c => do
      match ← c.removeLast with
      | none => return none
      | some r => some <$> t.afterRemoval last r
termination_by t.size
decreasing_by exact size_child_lt ‹_›

/-- Replaces entry `i` of the root node by its successor and answers with the replaced entry. -/
def removeInner (t : Tree K V) (i : Nat) : Except Fault (Option (Removal K V)) :=
  match t.entries[i]?, t.children[i + 1]? with
  | some e, some c => do
    match ← c.removeFirst with
    | none => return none
    | some next =>
      let t ← t.writeEntry i next.entry
      let r ← t.afterRemoval (i + 1) next
      return some ⟨r.tree, e, r.short⟩
  | _, _ => .error (.outOfRange i)

/-- Removal of the entry at which the descent for `key` stops. -/
def removeBelow (cmp : Comparison K) (t : Tree K V) (key : K) :
    Except Fault (Option (Removal K V)) :=
  match locate cmp t.keys key with
  | .slot i => if t.isLeaf then some <$> t.removeAt i else t.removeInner i
  | .child i =>
    if t.isLeaf then .ok none
    else
      match _h : t.children[i]? with
      | none => .error (.outOfRange i)
      | some c => do
        match ← c.removeBelow cmp key with
        | none => return none
        | some r => some <$> t.afterRemoval i r
termination_by t.size
decreasing_by exact size_child_lt ‹_›

/-- Removal of the entry for `key`. A key that is not found leaves the tree untouched. -/
def erase (cmp : Comparison K) (t : Tree K V) (key : K) : Except Fault (Option (Removal K V)) :=
  if t.contains cmp key then t.removeBelow cmp key else .ok none

end Tree

end Multiway
