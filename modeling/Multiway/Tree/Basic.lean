/-!
# Trees

A tree is empty, or a node with one, two or three entries and one more child than entries. Nothing
in the type asks the keys to be sorted or the children to be equally tall: trees put together by
hand may have any shape.

* `Entry`, `Tree`;
* the view of one node: `Tree.entries`, `Tree.keys`, `Tree.children`, `Tree.arity`, `Tree.isLeaf`;
* the view of the whole tree: `Tree.toList`, `Tree.listFrom`, `Tree.size`, `Tree.depth`;
* `Tree.size_child_lt`: a child is smaller than its node, so every descent ends.
-/

namespace Multiway

/-- A key with its value. -/
structure Entry (K V : Type) where
  key : K
  value : V
deriving DecidableEq

/-- A search tree whose nodes have two, three or four children. -/
inductive Tree (K V : Type) where
  | empty
  | two (c₀ : Tree K V) (a : Entry K V) (c₁ : Tree K V)
  | three (c₀ : Tree K V) (a : Entry K V) (c₁ : Tree K V) (b : Entry K V) (c₂ : Tree K V)
  | four (c₀ : Tree K V) (a : Entry K V) (c₁ : Tree K V) (b : Entry K V) (c₂ : Tree K V)
      (c : Entry K V) (c₃ : Tree K V)
deriving DecidableEq

namespace Tree

variable {K V : Type}

instance : Inhabited (Tree K V) := ⟨empty⟩

/-- The node with one entry and two empty children. -/
def leaf (e : Entry K V) : Tree K V := two empty e empty

/-! ## One node -/

/-- The entries of the root node, from left to right. -/
def entries : Tree K V → List (Entry K V)
  | empty => []
  | two _ a _ => [a]
  | three _ a _ b _ => [a, b]
  | four _ a _ b _ c _ => [a, b, c]

/-- The keys of the root node, from left to right. -/
def keys (t : Tree K V) : List K := t.entries.map Entry.key

/-- The children of the root node, from left to right. -/
def children : Tree K V → List (Tree K V)
  | empty => []
  | two c₀ _ c₁ => [c₀, c₁]
  | three c₀ _ c₁ _ c₂ => [c₀, c₁, c₂]
  | four c₀ _ c₁ _ c₂ _ c₃ => [c₀, c₁, c₂, c₃]

/-- The number of children of the root node. -/
def arity : Tree K V → Nat
  | empty => 0
  | two .. => 2
  | three .. => 3
  | four .. => 4

/-- Whether the tree has no entries. -/
def isEmpty : Tree K V → Bool
  | empty => true
  | _ => false

/-- Whether the root node is treated as the bottom of the tree: its first child is empty. The empty
tree counts as a leaf too. -/
def isLeaf : Tree K V → Bool
  | empty => true
  | two c₀ .. => c₀.isEmpty
  | three c₀ .. => c₀.isEmpty
  | four c₀ .. => c₀.isEmpty

/-- Whether the tree is one node with one entry. -/
def isSingleton : Tree K V → Bool
  | two c₀ _ _ => c₀.isEmpty
  | _ => false

/-! ## The whole tree -/

/-- The entries of the tree, each node's between its children's. -/
def toList : Tree K V → List (Entry K V)
  | empty => []
  | two c₀ a c₁ => c₀.toList ++ a :: c₁.toList
  | three c₀ a c₁ b c₂ => c₀.toList ++ a :: (c₁.toList ++ b :: c₂.toList)
  | four c₀ a c₁ b c₂ c c₃ =>
    c₀.toList ++ a :: (c₁.toList ++ b :: (c₂.toList ++ c :: c₃.toList))

/-- What is left of `toList` from entry `i` of the root node on: the entry, the subtree to its
right, and so on. -/
def listFrom (t : Tree K V) (i : Nat) : List (Entry K V) :=
  ((t.entries.zip t.children.tail).drop i).flatMap fun b => b.1 :: b.2.toList

/-- The number of entries. -/
def size : Tree K V → Nat
  | empty => 0
  | two c₀ _ c₁ => c₀.size + c₁.size + 1
  | three c₀ _ c₁ _ c₂ => c₀.size + c₁.size + c₂.size + 2
  | four c₀ _ c₁ _ c₂ _ c₃ => c₀.size + c₁.size + c₂.size + c₃.size + 3

/-- The number of nodes on the way down through first children. -/
def depth : Tree K V → Nat
  | empty => 0
  | two c₀ .. => c₀.depth + 1
  | three c₀ .. => c₀.depth + 1
  | four c₀ .. => c₀.depth + 1

theorem length_toList (t : Tree K V) : t.toList.length = t.size := by
  induction t with
  | empty => rfl
  | _ => simp_all [toList, size]; omega

theorem isEmpty_iff {t : Tree K V} : t.isEmpty = true ↔ t = empty := by
  cases t <;> simp [isEmpty]

theorem toList_eq_nil {t : Tree K V} (h : t.isEmpty = true) : t.toList = [] := by
  cases t with
  | empty => rfl
  | _ => cases h

theorem listFrom_eq_nil {t : Tree K V} {i : Nat} (h : t.entries.length ≤ i) :
    t.listFrom i = [] := by
  rw [listFrom, List.drop_of_length_le, List.flatMap_nil]
  rw [List.length_zip]
  omega

theorem listFrom_eq_cons {t c : Tree K V} {i : Nat} {e : Entry K V}
    (he : t.entries[i]? = some e) (hc : t.children[i + 1]? = some c) :
    t.listFrom i = e :: (c.toList ++ t.listFrom (i + 1)) := by
  have hz : (t.entries.zip t.children.tail)[i]? = some (e, c) := by
    rw [List.getElem?_zip_eq_some]
    exact ⟨he, by rw [List.getElem?_tail]; exact hc⟩
  rw [listFrom, List.drop_eq_getElem?_toList_append, hz]
  rfl

theorem length_children (t : Tree K V) : t.children.length = t.arity := by
  cases t <;> rfl

theorem size_child_lt {t c : Tree K V} {i : Nat} (h : t.children[i]? = some c) :
    c.size < t.size := by
  have hmem : c ∈ t.children := List.mem_of_getElem? h
  cases t with
  | empty => cases hmem
  | two c₀ a c₁ =>
    simp only [children, List.mem_cons, List.not_mem_nil, or_false] at hmem
    rcases hmem with rfl | rfl <;> simp only [size] <;> omega
  | three c₀ a c₁ b c₂ =>
    simp only [children, List.mem_cons, List.not_mem_nil, or_false] at hmem
    rcases hmem with rfl | rfl | rfl <;> simp only [size] <;> omega
  | four c₀ a c₁ b c₂ c c₃ =>
    simp only [children, List.mem_cons, List.not_mem_nil, or_false] at hmem
    rcases hmem with rfl | rfl | rfl | rfl <;> simp only [size] <;> omega

end Tree

end Multiway
