import Multiway.Tree.Delete
import Multiway.Tree.Insert

/-!
# Edits

The four updates of a tree as values. What matters beside the new tree is whether it has a new root:
a tree that is left as it is still shares its root with every copy.

* `Edit`, `Answer`, `Effect`;
* `Edit.apply`: the update of a tree.
-/

namespace Multiway

variable {K V : Type}

/-- An update of one tree. -/
inductive Edit (K V : Type) where
  | insert (cmp : Comparison K) (e : Entry K V)
  | erase (cmp : Comparison K) (key : K)
  | eraseFirst
  | eraseLast

/-- What an update answers. -/
inductive Answer (K V : Type) where
  /-- There is nothing to tell. -/
  | nothing
  /-- The value replaced or removed. -/
  | value (v : Option V)
  /-- The entry removed. -/
  | entry (e : Option (Entry K V))

/-- The answer of an update, and the new root unless the root is left as it is. -/
structure Effect (K V : Type) where
  root : Option (Tree K V)
  answer : Answer K V

namespace Edit

/-- The update of a tree. Removing a key that is not found leaves the root as it is. In a tree whose
leaves lie at different depths a removal may begin and come to nothing; then the root is new and the
contents are the same. -/
def apply (t : Tree K V) : Edit K V → Except Fault (Effect K V)
  | insert cmp e => do
    let done ← t.insert cmp e
    return ⟨some done.tree, .value done.previous⟩
  | erase cmp key => do
    match ← t.erase cmp key with
    | some done => return ⟨some done.tree, .value (some done.entry.value)⟩
    | none => return ⟨if t.contains cmp key && !t.isLeaf then some t else none, .value none⟩
  | eraseFirst => do
    match ← t.removeFirst with
    | some done => return ⟨some done.tree, .entry (some done.entry)⟩
    | none => return ⟨if t.isEmpty then none else some t, .entry none⟩
  | eraseLast => do
    match ← t.removeLast with
    | some done => return ⟨some done.tree, .entry (some done.entry)⟩
    | none => return ⟨if t.isEmpty then none else some t, .entry none⟩

end Edit

end Multiway
