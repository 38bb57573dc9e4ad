import Multiway.Tree.Node

/-!
# Mending a short child

A deletion can leave one child of a node a level shorter than the others. The node mends it from a
sibling next to the short child. A sibling with an entry to spare lends it: the entry moves up into
the node and the node's own entry moves down. Otherwise the short child is merged with the sibling
around the entry between them, and the node has one entry fewer; a node that gives up its only
entry becomes short in turn.

* `Gap`: an entry of a node with the children on both sides of it;
* `Tree.gap?`, `Tree.setGap`, `Tree.writeGap?`: reading and replacing one;
* `Tree.lendLast?`, `Tree.lendFirst?`: what a sibling with an entry to spare gives away;
* `Tree.rotateFromLeft?`, `Tree.rotateFromRight?`: mending by a loan;
* `Tree.merge`: mending by a merge;
* `Tree.repair`: the choice among them.
-/

namespace Multiway

/-- An entry of a node between the two children beside it. -/
structure Gap (K V : Type) where
  left : Tree K V
  middle : Entry K V
  right : Tree K V

namespace Tree

variable {K V : Type}

/-- Entry `i` of the root node with the children on both sides of it. -/
def gap? (t : Tree K V) (i : Nat) : Option (Gap K V) := do
  return ⟨← t.children[i]?, ← t.entries[i]?, ← t.children[i + 1]?⟩

/-- The root node with entry `i` and the children on both sides of it replaced. -/
def setGap (t : Tree K V) (i : Nat) (g : Gap K V) : Tree K V :=
  ((t.setChild i g.left).setEntry i g.middle).setChild (i + 1) g.right

/-- Replaces entry `i` of the root node and the children on both sides of it, if it has them. -/
def writeGap? (t : Tree K V) (i : Nat) (g : Gap K V) : Option (Tree K V) :=
  (t.gap? i).map fun _ => t.setGap i g

/-- The root node with entry `i` and the children on both sides of it replaced by the one child `c`;
see `dropEntry` for the second part of the answer. -/
def closeGap (t : Tree K V) (i : Nat) (c : Tree K V) : Except Fault (Tree K V × Bool) := do
  let t ← t.writeChild i c
  t.dropEntry i

theorem writeGap?_ok {t : Tree K V} {i : Nat} {g : Gap K V} (hgap : t.gap? i = some g)
    (g' : Gap K V) : t.writeGap? i g' = some (t.setGap i g') := by
  rw [writeGap?, hgap, Option.map_some]

theorem closeGap_of_child {t d : Tree K V} {i : Nat} (hd : t.children[i]? = some d)
    (c : Tree K V) : t.closeGap i c = (t.setChild i c).dropEntry i := by
  rw [closeGap, writeChild_ok hd]
  rfl

/-! ## Loans -/

/-- A node with an entry to spare, without its last entry and the child after it. -/
def lendLast? : Tree K V → Option (Gap K V)
  | three c₀ a c₁ b c₂ => some ⟨two c₀ a c₁, b, c₂⟩
  | four c₀ a c₁ b c₂ c c₃ => some ⟨three c₀ a c₁ b c₂, c, c₃⟩
  | _ => none

/-- A node with an entry to spare, without its first entry and the child before it. -/
def lendFirst? : Tree K V → Option (Gap K V)
  | three c₀ a c₁ b c₂ => some ⟨c₀, a, two c₁ b c₂⟩
  | four c₀ a c₁ b c₂ c c₃ => some ⟨c₀, a, three c₁ b c₂ c c₃⟩
  | _ => none

/-- The root node with its short child `i` mended by a loan from the sibling to the left. -/
def rotateFromLeft? (t : Tree K V) : Nat → Option (Tree K V)
  | 0 => none
  | i + 1 => do
    let g ← t.gap? i
    let loan ← g.left.lendLast?
    t.writeGap? i ⟨loan.left, loan.middle, two loan.right g.middle g.right⟩

/-- The root node with its short child `i` mended by a loan from the sibling to the right. -/
def rotateFromRight? (t : Tree K V) (i : Nat) : Option (Tree K V) := do
  let g ← t.gap? i
  let loan ← g.right.lendFirst?
  t.writeGap? i ⟨two g.left g.middle loan.left, loan.middle, loan.right⟩

/-! ## Merges -/

/-- The root node with its short child `i` merged into a sibling: into the one to its left, at the
right end, if there is one, and else into the one to its right, at the left end. -/
def merge (t : Tree K V) : Nat → Except Fault (Tree K V × Bool)
  | 0 =>
    match t.gap? 0 with
    | none => .error (.outOfRange 0)
    | some g => do t.closeGap 0 (← prepend g.left g.middle g.right)
  | i + 1 =>
    match t.gap? i with
    | none => .error (.outOfRange i)
    | some g => do t.closeGap i (← g.left.append g.middle g.right)

/-- The root node with its short child `i` mended, and whether the node is short now itself. A loan
is preferred to a merge, and the sibling to the left to the one on the right. -/
def repair (t : Tree K V) (i : Nat) : Except Fault (Tree K V × Bool) :=
  if t.isEmpty then .error .expectedNode
  else
    match (t.rotateFromLeft? i).or (t.rotateFromRight? i) with
    | some t => .ok (t, false)
    | none => t.merge i

end Tree

end Multiway
