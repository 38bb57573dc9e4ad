import Multiway.Location
import Multiway.Tree.Node

/-!
# Insertion

Insertion goes down once and never comes back to make room: a full node is split before it is
entered, so the node that gets the new entry always has room for it. The root is split first, and
only that makes the tree taller.

* `Insertion`: the new tree and the value that was replaced;
* `Tree.insertBelow`: insertion below a root that is not full;
* `Tree.insert`: insertion into any tree;
* `Tree.insertMany`: one insertion after another.
-/

namespace Multiway

/-- What an insertion leaves. -/
structure Insertion (K V : Type) where
  tree : Tree K V
  previous : Option V

namespace Tree

variable {K V : Type}

/-- The root node with the value of entry `i` replaced. -/
def overwrite (t : Tree K V) (i : Nat) (value : V) : Except Fault (Insertion K V) :=
  match t.entries[i]? with
  | none => .error (.outOfRange i)
  | some e => do
    let t ← t.writeEntry i ⟨e.key, value⟩
    return ⟨t, some e.value⟩

theorem overwrite_ok {t : Tree K V} {i : Nat} {e : Entry K V} (he : t.entries[i]? = some e)
    (value : V) : t.overwrite i value = .ok ⟨t.setEntry i ⟨e.key, value⟩, some e.value⟩ := by
  rw [overwrite, he]
  simp only
  rw [writeEntry_ok he]
  rfl

theorem size_split_lt {t l r : Tree K V} {e : Entry K V} (h : t.split = .ok (l, e, r)) :
    l.size < t.size ∧ r.size < t.size := by
  cases t <;> cases h
  simp only [size]
  omega

/-- Insertion into a tree whose root is not full. A key already stored keeps its entry and gets the
new value; a full child is split before it is entered, and the new key is compared with the entry
that moves up. -/
def insertBelow (cmp : Comparison K) (t : Tree K V) (e : Entry K V) :
    Except Fault (Insertion K V) :=
  if t.isEmpty then .ok ⟨leaf e, none⟩
  else
    match locate cmp t.keys e.key with
    | .slot i => t.overwrite i e.value
    | .child i =>
      if t.isLeaf then do
        let t ← t.insertEntry i e empty
        return ⟨t, none⟩
      else
        match _hc : t.children[i]? with
        | none => .error (.outOfRange i)
        | some c =>
          if c.isFull then
            match _hs : c.split with
            | .error fault => .error fault
            | .ok (l, m, r) =>
              match cmp e.key m.key with
              | .lt => do
                let below ← l.insertBelow cmp e
                let t ← t.writeChild i below.tree
                let t ← t.insertEntry i m r
                return ⟨t, below.previous⟩
              | .gt => do
                let below ← r.insertBelow cmp e
                let t ← t.writeChild i l
                let t ← t.insertEntry i m below.tree
                return ⟨t, below.previous⟩
              | .eq => do
                let t ← t.writeChild i l
                let t ← t.insertEntry i ⟨m.key, e.value⟩ r
                return ⟨t, some m.value⟩
          else do
            let below ← c.insertBelow cmp e
            let t ← t.writeChild i below.tree
            return ⟨t, below.previous⟩
termination_by t.size
decreasing_by
  · exact Nat.lt_trans (size_split_lt ‹_›).1 (size_child_lt ‹_›)
  · exact Nat.lt_trans (size_split_lt ‹_›).2 (size_child_lt ‹_›)
  · exact size_child_lt ‹_›

/-- Stores `e`. A full root is split first, even if the key turns out to be stored already. -/
def insert (cmp : Comparison K) (t : Tree K V) (e : Entry K V) : Except Fault (Insertion K V) :=
  if t.isFull then do
    let (l, m, r) ← t.split
    (two l m r).insertBelow cmp e
  else t.insertBelow cmp e

/-- Stores the entries one after another. -/
def insertMany (cmp : Comparison K) (t : Tree K V) (es : List (Entry K V)) :
    Except Fault (Tree K V) :=
  es.foldlM (fun t e => Insertion.tree <$> t.insert cmp e) t

end Tree

end Multiway
