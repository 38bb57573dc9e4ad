import Multiway.Cursor

/-!
# Iterators

An iterator is a cursor that yields the current entry and moves on in one step. Past the last entry
it yields nothing, however often it is asked.

* `Iter`, `Iter.start`, `Iter.seek`, `Iter.next?`;
* `Iter.take`, `Iter.toList`: the entries yielded by some steps, and by all of them;
* `Iter.agree`: whether two iterators yield equal entries, in lockstep;
* `Tree.agree`: equality of contents, which does not look at the shape.
-/

namespace Multiway

variable {K V : Type}

/-- An in-order walk that has still to yield the entries ahead of its cursor. -/
structure Iter (K V : Type) where
  cursor : Cursor K V

namespace Iter

/-- The iterator over all entries. -/
def start (t : Tree K V) : Iter K V := ⟨.start t⟩

/-- The iterator over the entries from `key` on. -/
def seek (cmp : Comparison K) (t : Tree K V) (key : K) : Iter K V := ⟨.seek cmp t key⟩

/-- The entries that the iterator has still to yield. -/
def ahead (it : Iter K V) : List (Entry K V) := it.cursor.ahead

/-- The next entry and the iterator after it, or `none` past the end. -/
def next? (it : Iter K V) : Except Fault (Option (Entry K V × Iter K V)) :=
  match it.cursor.get? with
  | none => .ok none
  | some e => do return some (e, ⟨← it.cursor.advance⟩)

theorem ahead_next {it it' : Iter K V} {e : Entry K V} (h : it.next? = .ok (some (e, it'))) :
    it.ahead = e :: it'.ahead := by
  rw [next?] at h
  split at h
  · cases h
  · next e' he =>
    cases hc : it.cursor.advance with
    | error fault => rw [hc] at h; cases h
    | ok c' =>
      rw [hc] at h
      cases h
      exact Cursor.ahead_advance he hc

theorem length_ahead_next {it it' : Iter K V} {e : Entry K V}
    (h : it.next? = .ok (some (e, it'))) : it'.ahead.length < it.ahead.length := by
  rw [ahead_next h]
  exact Nat.lt_succ_self _

/-- At most `n` entries, and the iterator after them. -/
def take : (n : Nat) → Iter K V → Except Fault (List (Entry K V))
  | 0, _ => .ok []
  | n + 1, it => do
    match ← it.next? with
    | none => return []
    | some (e, it) => return e :: (← it.take n)

/-- All entries that the iterator yields. -/
def toList (it : Iter K V) : Except Fault (List (Entry K V)) :=
  match _h : it.next? with
  | .error fault => .error fault
  | .ok none => .ok []
  | .ok (some (e, it')) => (e :: ·) <$> it'.toList
termination_by it.ahead.length
decreasing_by exact length_ahead_next ‹_›

/-- Whether two iterators yield the same number of entries, equal in pairs. -/
def agree [BEq K] [BEq V] (it other : Iter K V) : Except Fault Bool :=
  match _h : it.next? with
  | .error fault => .error fault
  | .ok none => Option.isNone <$> other.next?
  | .ok (some (e, it')) => do
    match ← other.next? with
    | none => return false
    | some (e', other') =>
      if e.key == e'.key && e.value == e'.value then it'.agree other' else return false
termination_by it.ahead.length
decreasing_by exact length_ahead_next ‹_›

end Iter

/-- Whether two trees hold equal entries in the same order, whatever their shapes. -/
def Tree.agree [BEq K] [BEq V] (t u : Tree K V) : Except Fault Bool :=
  (Iter.start t).agree (Iter.start u)

end Multiway
