import Multiway.Tree.Node

/-!
# The contents of one node

A node taken apart into its entries and children, in which an entry may be added before the node is
put together again. Only the counts of a node with two, three or four children can be put together.

* `Contents`, `Tree.unpack`, `Contents.pack`;
* `Contents.pack_unpack`: taking a node apart and putting it together gives the node back;
* `Tree.assemble`: a node from separate keys, values and children.
-/

namespace Multiway

/-- The entries and children of one node. -/
structure Contents (K V : Type) where
  entries : List (Entry K V)
  children : List (Tree K V)

variable {K V : Type}

namespace Contents

/-- Contents with one child and no entry yet. -/
def first (c : Tree K V) : Contents K V := ⟨[], [c]⟩

/-- The contents with the entry `e` and the child `c` added at the right end. -/
def push (contents : Contents K V) (e : Entry K V) (c : Tree K V) : Contents K V :=
  ⟨contents.entries ++ [e], contents.children ++ [c]⟩

/-- The node with these contents. -/
def pack : Contents K V → Except Fault (Tree K V)
  | ⟨[a], [c₀, c₁]⟩ => .ok (.two c₀ a c₁)
  | ⟨[a, b], [c₀, c₁, c₂]⟩ => .ok (.three c₀ a c₁ b c₂)
  | ⟨[a, b, c], [c₀, c₁, c₂, c₃]⟩ => .ok (.four c₀ a c₁ b c₂ c c₃)
  | ⟨entries, children⟩ => .error (.nodeCounts entries.length children.length)

end Contents

namespace Tree

/-- The contents of the root node. -/
def unpack : Tree K V → Except Fault (Contents K V)
  | empty => .error .unpackedEmpty
  | t => .ok ⟨t.entries, t.children⟩

/-- The number of entries of the root node, which must not be missing. -/
def rootCount : Tree K V → Except Fault Nat
  | empty => .error .expectedNode
  | t => .ok t.entries.length

/-- A node put together by hand. The counts of keys and children are checked first, then whether
there is a value for every key; values beyond the last key are left out. Nothing else is checked. -/
def assemble (keys : List K) (values : List V) (children : List (Tree K V)) :
    Except Fault (Tree K V) :=
  if keys.length ∈ [1, 2, 3] ∧ children.length = keys.length + 1 then
    if values.length < keys.length then .error (.missingValues keys.length values.length)
    else Contents.pack ⟨List.zipWith Entry.mk keys values, children⟩
  else .error (.nodeCounts keys.length children.length)

end Tree

theorem Contents.pack_unpack {t : Tree K V} {contents : Contents K V}
    (h : t.unpack = .ok contents) : contents.pack = .ok t := by
  cases t <;> cases h <;> rfl

end Multiway
