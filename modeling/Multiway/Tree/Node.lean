import Multiway.Fault
import Multiway.Tree.Basic

/-!
# Changing one node

The steps out of which all updates are made. Each changes the root node alone and leaves the
subtrees below it as they are. Replacing a child or an entry keeps the number of children;
inserting and dropping an entry moves a node up or down among two, three and four children.

* `Tree.setChild`, `Tree.setEntry`: the node with a child or an entry replaced;
* `Tree.writeChild`, `Tree.writeEntry`: the same as a step, which fails if there is none to replace;
* `Tree.insertEntry`: an entry more, with a child to its right;
* `Tree.append`, `Tree.prepend`: an entry more at either end, with a child beyond it;
* `Tree.dropEntry`: an entry fewer, without the child to its right;
* `Tree.split`: a full node as two small ones around its middle entry.
-/

namespace Multiway

namespace Tree

variable {K V : Type}

/-- The root node with child `i` replaced by `x`, or as it is if there is no such child. -/
def setChild : Tree K V → (i : Nat) → (x : Tree K V) → Tree K V
  | two _ a c₁, 0, x => two x a c₁
  | two c₀ a _, 1, x => two c₀ a x
  | three _ a c₁ b c₂, 0, x => three x a c₁ b c₂
  | three c₀ a _ b c₂, 1, x => three c₀ a x b c₂
  | three c₀ a c₁ b _, 2, x => three c₀ a c₁ b x
  | four _ a c₁ b c₂ c c₃, 0, x => four x a c₁ b c₂ c c₃
  | four c₀ a _ b c₂ c c₃, 1, x => four c₀ a x b c₂ c c₃
  | four c₀ a c₁ b _ c c₃, 2, x => four c₀ a c₁ b x c c₃
  | four c₀ a c₁ b c₂ c _, 3, x => four c₀ a c₁ b c₂ c x
  | t, _, _ => t

/-- The root node with entry `i` replaced by `e`, or as it is if there is no such entry. -/
def setEntry : Tree K V → (i : Nat) → (e : Entry K V) → Tree K V
  | two c₀ _ c₁, 0, e => two c₀ e c₁
  | three c₀ _ c₁ b c₂, 0, e => three c₀ e c₁ b c₂
  | three c₀ a c₁ _ c₂, 1, e => three c₀ a c₁ e c₂
  | four c₀ _ c₁ b c₂ c c₃, 0, e => four c₀ e c₁ b c₂ c c₃
  | four c₀ a c₁ _ c₂ c c₃, 1, e => four c₀ a c₁ e c₂ c c₃
  | four c₀ a c₁ b c₂ _ c₃, 2, e => four c₀ a c₁ b c₂ e c₃
  | t, _, _ => t

/-- Replaces child `i` of the root node by `x`. There has to be such a child. -/
def writeChild (t : Tree K V) (i : Nat) (x : Tree K V) : Except Fault (Tree K V) :=
  match t.children[i]? with
  | none => .error (.outOfRange i)
  | some _ => .ok (t.setChild i x)

/-- Replaces entry `i` of the root node by `e`. There has to be such an entry. -/
def writeEntry (t : Tree K V) (i : Nat) (e : Entry K V) : Except Fault (Tree K V) :=
  match t.entries[i]? with
  | none => .error (.outOfRange i)
  | some _ => .ok (t.setEntry i e)

/-- The root node with the entry `e` put before entry `i`, and the child `r` between them. -/
def insertEntry : Tree K V → (i : Nat) → (e : Entry K V) → (r : Tree K V) →
    Except Fault (Tree K V)
  | two c₀ a c₁, 0, e, r => .ok (three c₀ e r a c₁)
  | two c₀ a c₁, 1, e, r => .ok (three c₀ a c₁ e r)
  | three c₀ a c₁ b c₂, 0, e, r => .ok (four c₀ e r a c₁ b c₂)
  | three c₀ a c₁ b c₂, 1, e, r => .ok (four c₀ a c₁ e r b c₂)
  | three c₀ a c₁ b c₂, 2, e, r => .ok (four c₀ a c₁ b c₂ e r)
  | four .., _, _, _ => .error (.nodeCounts 4 5)
  | empty, _, _, _ => .error .unpackedEmpty
  | _, i, _, _ => .error (.outOfRange i)

/-- The root node with the entry `e` and then the child `r` added at the right end. -/
def append : Tree K V → (e : Entry K V) → (r : Tree K V) → Except Fault (Tree K V)
  | two c₀ a c₁, e, r => .ok (three c₀ a c₁ e r)
  | three c₀ a c₁ b c₂, e, r => .ok (four c₀ a c₁ b c₂ e r)
  | four .., _, _ => .error (.nodeCounts 4 5)
  | empty, _, _ => .error .unpackedEmpty

/-- The root node with the child `l` and then the entry `e` added at the left end. -/
def prepend : (l : Tree K V) → (e : Entry K V) → Tree K V → Except Fault (Tree K V)
  | l, e, two c₀ a c₁ => .ok (three l e c₀ a c₁)
  | l, e, three c₀ a c₁ b c₂ => .ok (four l e c₀ a c₁ b c₂)
  | _, _, four .. => .error (.nodeCounts 4 5)
  | _, _, empty => .error .unpackedEmpty

/-- The root node without entry `i` and the child to its right. A node whose only entry goes is
replaced by the child to its left; the second part of the answer says so. -/
def dropEntry : Tree K V → (i : Nat) → Except Fault (Tree K V × Bool)
  | two c₀ _ _, 0 => .ok (c₀, true)
  | three c₀ _ _ b c₂, 0 => .ok (two c₀ b c₂, false)
  | three c₀ a c₁ _ _, 1 => .ok (two c₀ a c₁, false)
  | four c₀ _ _ b c₂ c c₃, 0 => .ok (three c₀ b c₂ c c₃, false)
  | four c₀ a c₁ _ _ c c₃, 1 => .ok (three c₀ a c₁ c c₃, false)
  | four c₀ a c₁ b c₂ _ _, 2 => .ok (three c₀ a c₁ b c₂, false)
  | empty, _ => .error .unpackedEmpty
  | _, i => .error (.outOfRange i)

/-- A full node as a left half, the middle entry and a right half. -/
def split : Tree K V → Except Fault (Tree K V × Entry K V × Tree K V)
  | four c₀ a c₁ b c₂ c c₃ => .ok (two c₀ a c₁, b, two c₂ c c₃)
  | t => .error (.splitArity t.arity)

/-- Whether the root node has no room for another entry. -/
def isFull : Tree K V → Bool
  | four .. => true
  | _ => false

/-! ## What the steps do to the view of the node -/

theorem children_setChild (t : Tree K V) (i : Nat) (x : Tree K V) :
    (t.setChild i x).children = t.children.set i x := by
  cases t <;> rcases i with _ | _ | _ | _ | i <;> rfl

theorem entries_setChild (t : Tree K V) (i : Nat) (x : Tree K V) :
    (t.setChild i x).entries = t.entries := by
  cases t <;> rcases i with _ | _ | _ | _ | i <;> rfl

theorem children_setEntry (t : Tree K V) (i : Nat) (e : Entry K V) :
    (t.setEntry i e).children = t.children := by
  cases t <;> rcases i with _ | _ | _ | i <;> rfl

theorem entries_setEntry (t : Tree K V) (i : Nat) (e : Entry K V) :
    (t.setEntry i e).entries = t.entries.set i e := by
  cases t <;> rcases i with _ | _ | _ | i <;> rfl

theorem writeChild_ok {t c : Tree K V} {i : Nat} (hc : t.children[i]? = some c) (x : Tree K V) :
    t.writeChild i x = .ok (t.setChild i x) := by
  rw [writeChild, hc]

theorem writeEntry_ok {t : Tree K V} {i : Nat} {a : Entry K V} (ha : t.entries[i]? = some a)
    (e : Entry K V) : t.writeEntry i e = .ok (t.setEntry i e) := by
  rw [writeEntry, ha]

/-- An entry fits into every node that is neither empty nor full. -/
theorem insertEntry_ok {t : Tree K V} {i : Nat} (e : Entry K V) (r : Tree K V)
    (hempty : t.isEmpty = false) (hfull : t.isFull = false) (hi : i ≤ t.entries.length) :
    ∃ t', t.insertEntry i e r = .ok t' ∧ t'.entries = t.entries.insertIdx i e ∧
      t'.children = t.children.insertIdx (i + 1) r := by
  cases t with
  | empty => cases hempty
  | two =>
    match i, hi with
    | 0, _ | 1, _ => exact ⟨_, rfl, rfl, rfl⟩
  | three =>
    match i, hi with
    | 0, _ | 1, _ | 2, _ => exact ⟨_, rfl, rfl, rfl⟩
  | four => cases hfull

end Tree

end Multiway
