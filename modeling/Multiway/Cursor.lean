import Multiway.Location
import Multiway.Fault
import Multiway.Tree.Basic

/-!
# Cursors

A cursor is a place between the entries of a tree, kept as a stack of frames. The frame on top
names the current entry; a frame below it names the entry that its node yields next, after the
subtree above has been walked. A frame whose node has nothing left to yield may stay below others,
never on top.

* `Frame`, `Cursor`, `Cursor.start`, `Cursor.seek`, `Cursor.get?`, `Cursor.advance`;
* `Cursor.stackDepth`, `Cursor.capacity`: the number of frames, and how many may be needed;
* `Cursor.ahead`: the entries that the cursor has still to yield;
* `Cursor.ahead_advance`: an advance takes the current entry off the entries ahead, so every walk
  ends;
* `Cursor.walk`: the cursors of a walk to the end.
-/

namespace Multiway

variable {K V : Type}

/-- A node on the way from the root, and the slot of the entry it yields next. -/
structure Frame (K V : Type) where
  node : Tree K V
  slot : Nat

/-- A place in a tree: the frames from the current node up to the root. -/
structure Cursor (K V : Type) where
  stack : List (Frame K V)

namespace Cursor

/-- Pushes the nodes of `t` from its root down through first children. -/
def descend : Tree K V → List (Frame K V) → List (Frame K V)
  | .empty, stack => stack
  | .two c₀ a c₁, stack => descend c₀ (⟨.two c₀ a c₁, 0⟩ :: stack)
  | .three c₀ a c₁ b c₂, stack => descend c₀ (⟨.three c₀ a c₁ b c₂, 0⟩ :: stack)
  | .four c₀ a c₁ b c₂ c c₃, stack => descend c₀ (⟨.four c₀ a c₁ b c₂ c c₃, 0⟩ :: stack)

/-- Drops the frames on top whose node has no entry left to yield. -/
def settle (stack : List (Frame K V)) : List (Frame K V) :=
  stack.dropWhile fun f => decide (f.node.entries.length ≤ f.slot)

/-- The cursor at the first entry. -/
def start (t : Tree K V) : Cursor K V := ⟨descend t []⟩

/-- Pushes the nodes on the way to `key`, and stops at an entry that compares equal. -/
def seekFrom (cmp : Comparison K) (key : K) (t : Tree K V) (stack : List (Frame K V)) :
    List (Frame K V) :=
  match locate cmp t.keys key with
  | .slot i => ⟨t, i⟩ :: stack
  | .child i =>
    match _h : t.children[i]? with
    | none => settle stack
    | some c => seekFrom cmp key c (⟨t, i⟩ :: stack)
termination_by t.size
decreasing_by exact Tree.size_child_lt ‹_›

/-- The cursor at the first entry whose key is not less than `key`. -/
def seek (cmp : Comparison K) (t : Tree K V) (key : K) : Cursor K V := ⟨seekFrom cmp key t []⟩

/-- The current entry, if the cursor is not past the end. -/
def get? (c : Cursor K V) : Option (Entry K V) :=
  match c.stack with
  | [] => none
  | f :: _ => f.node.entries[f.slot]?

/-- Whether the cursor is past the last entry. -/
def isExhausted (c : Cursor K V) : Bool := c.stack.isEmpty

/-- The number of frames. -/
def stackDepth (c : Cursor K V) : Nat := c.stack.length

/-- The number of frames that is enough for every cursor of a balanced tree. -/
def capacity (t : Tree K V) : Nat := t.depth

/-- The cursor at the next entry. -/
def advance (c : Cursor K V) : Except Fault (Cursor K V) :=
  match c.stack with
  | [] => .error .exhaustedCursor
  | f :: below =>
    match f.node.children[f.slot + 1]? with
    | none => .error (.outOfRange (f.slot + 1))
    | some child =>
      let stack := ⟨f.node, f.slot + 1⟩ :: below
      .ok ⟨if child.isEmpty then settle stack else descend child stack⟩

/-! ## What lies ahead -/

/-- The entries that the cursor has still to yield, the current one first. -/
def ahead (c : Cursor K V) : List (Entry K V) :=
  c.stack.flatMap fun f => f.node.listFrom f.slot

theorem ahead_nil : ahead (⟨[]⟩ : Cursor K V) = [] := rfl

theorem ahead_cons (f : Frame K V) (below : List (Frame K V)) :
    ahead ⟨f :: below⟩ = f.node.listFrom f.slot ++ ahead ⟨below⟩ := rfl

theorem ahead_settle (stack : List (Frame K V)) : ahead ⟨settle stack⟩ = ahead ⟨stack⟩ := by
  induction stack with
  | nil => rfl
  | cons f below ih =>
    by_cases h : f.node.entries.length ≤ f.slot
    · have hsettle : settle (f :: below) = settle below := by simp [settle, h]
      rw [hsettle, ih, ahead_cons, Tree.listFrom_eq_nil h, List.nil_append]
    · simp [settle, h]

theorem ahead_descend (t : Tree K V) (stack : List (Frame K V)) :
    ahead ⟨descend t stack⟩ = t.toList ++ ahead ⟨stack⟩ := by
  induction t generalizing stack with
  | empty => rfl
  | two c₀ a c₁ ih₀ => simp [descend, ih₀, ahead_cons, Tree.listFrom, Tree.toList, Tree.entries,
      Tree.children]
  | three c₀ a c₁ b c₂ ih₀ => simp [descend, ih₀, ahead_cons, Tree.listFrom, Tree.toList,
      Tree.entries, Tree.children]
  | four c₀ a c₁ b c₂ c c₃ ih₀ => simp [descend, ih₀, ahead_cons, Tree.listFrom, Tree.toList,
      Tree.entries, Tree.children]

theorem ahead_start (t : Tree K V) : (start t).ahead = t.toList := by
  rw [start, ahead_descend, ahead_nil, List.append_nil]

/-- **An advance takes the current entry off the entries ahead.** -/
theorem ahead_advance {c c' : Cursor K V} {e : Entry K V} (he : c.get? = some e)
    (hc : c.advance = .ok c') : c.ahead = e :: c'.ahead := by
  obtain ⟨_ | ⟨f, below⟩⟩ := c
  · cases he
  · rw [advance] at hc
    split at hc
    · cases hc
    · next g below' heq =>
      cases heq
      split at hc
      · cases hc
      · next child hchild =>
        cases hc
        rw [ahead_cons, Tree.listFrom_eq_cons he hchild]
        split
        · next hempty =>
          rw [ahead_settle, ahead_cons, Tree.toList_eq_nil hempty]
          rfl
        · rw [ahead_descend, ahead_cons]
          simp

theorem length_ahead_advance {c c' : Cursor K V} {e : Entry K V} (he : c.get? = some e)
    (hc : c.advance = .ok c') : c'.ahead.length < c.ahead.length := by
  rw [ahead_advance he hc]
  exact Nat.lt_succ_self _

/-- The cursors of a walk, one at every entry from the current one on. -/
def walk (c : Cursor K V) : Except Fault (List (Cursor K V)) :=
  match _he : c.get? with
  | none => .ok []
  | some _ =>
    match _hc : c.advance with
    | .error fault => .error fault
    | .ok c' => (c :: ·) <$> c'.walk
termination_by c.ahead.length
decreasing_by exact length_ahead_advance ‹_› ‹_›

end Cursor

end Multiway
