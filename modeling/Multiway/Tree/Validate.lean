import Multiway.Order
import Multiway.Tree.Basic

/-!
# Checking a tree

A sound tree has its keys in strictly increasing order and all its empty subtrees at one depth. The
check looks at one node at a time. At each node it asks for increasing keys between the nearest
keys of the nodes above, then for children that are all empty or all nonempty; then it checks the
children from left to right and compares the height of each with that of the first.

* `Defect`: what can be wrong, with the level of the node (the root has level 0);
* `Defect.message`, `Defect.inspect`: a defect in words, and as a record;
* `Tree.validate`: the first defect found, or the depth of a sound tree.
-/

namespace Multiway

/-- Something wrong with a tree. -/
inductive Defect where
  /-- The keys of a node do not increase, or leave the range set by the nodes above. -/
  | unorderedKeys (level : Nat)
  /-- A node has both empty and nonempty children. -/
  | mixedLeafChildren (level : Nat)
  /-- A child of a node has not the height of the node's first child. -/
  | unevenLeafDepth (level expected found : Nat)
deriving DecidableEq

namespace Defect

/-- The kind of a defect. -/
def name : Defect → String
  | unorderedKeys _ => "UnorderedKeys"
  | mixedLeafChildren _ => "MixedLeafChildren"
  | unevenLeafDepth .. => "UnevenLeafDepth"

/-- A defect in words. -/
def message : Defect → String
  | unorderedKeys level => s!"keys out of order at level {level}"
  | mixedLeafChildren level => s!"node at level {level} mixes empty and non-empty children"
  | unevenLeafDepth level expected found =>
    s!"subtree heights differ below level {level}: expected {expected}, found {found}"

/-- The numbers of a defect, by name. -/
def fields : Defect → List (String × Nat)
  | unorderedKeys level => [("level", level)]
  | mixedLeafChildren level => [("level", level)]
  | unevenLeafDepth level expected found =>
    [("level", level), ("expected", expected), ("found", found)]

/-- A defect as a record: its kind and its numbers by name. -/
def inspect (d : Defect) : String :=
  let numbers := d.fields.map fun (field, n) => s!"{field}: {n}"
  d.name ++ " \x7b " ++ String.intercalate ", " numbers ++ " \x7d"

end Defect

variable {K V : Type}

/-- Whether every key compares as less than the next. -/
def ascending (cmp : Comparison K) : List K → Bool
  | a :: b :: rest => cmp a b == .lt && ascending cmp (b :: rest)
  | _ => true

namespace Tree

/-- The check of the keys of a node between the bounds `lower` and `upper`. -/
def checkKeys (cmp : Comparison K) (lower upper : Option K) (level : Nat) (t : Tree K V) :
    Except Defect Unit :=
  if ascending cmp (lower.toList ++ t.keys ++ upper.toList) then .ok ()
  else .error (.unorderedKeys level)

/-- The check that the children of a node are all empty or all nonempty. -/
def checkLeaf (level : Nat) (t : Tree K V) : Except Defect Unit :=
  if t.children.all fun c => c.isEmpty == t.isLeaf then .ok ()
  else .error (.mixedLeafChildren level)

/-- The check of a child's height against that of the first child. -/
def checkHeight (level expected found : Nat) : Except Defect Unit :=
  if found = expected then .ok () else .error (.unevenLeafDepth level expected found)

/-- The check of a subtree whose root is at `level` and whose keys lie between `lower` and `upper`.
The answer is its height. -/
def check (cmp : Comparison K) :
    (lower upper : Option K) → (level : Nat) → Tree K V → Except Defect Nat
  | _, _, _, empty => .ok 0
  | lower, upper, level, two c₀ a c₁ => do
    checkKeys cmp lower upper level (two c₀ a c₁)
    checkLeaf level (two c₀ a c₁)
    let h₀ ← check cmp lower (some a.key) (level + 1) c₀
    let h₁ ← check cmp (some a.key) upper (level + 1) c₁
    checkHeight level h₀ h₁
    return h₀ + 1
  | lower, upper, level, three c₀ a c₁ b c₂ => do
    checkKeys cmp lower upper level (three c₀ a c₁ b c₂)
    checkLeaf level (three c₀ a c₁ b c₂)
    let h₀ ← check cmp lower (some a.key) (level + 1) c₀
    let h₁ ← check cmp (some a.key) (some b.key) (level + 1) c₁
    checkHeight level h₀ h₁
    let h₂ ← check cmp (some b.key) upper (level + 1) c₂
    checkHeight level h₀ h₂
    return h₀ + 1
  | lower, upper, level, four c₀ a c₁ b c₂ c c₃ => do
    checkKeys cmp lower upper level (four c₀ a c₁ b c₂ c c₃)
    checkLeaf level (four c₀ a c₁ b c₂ c c₃)
    let h₀ ← check cmp lower (some a.key) (level + 1) c₀
    let h₁ ← check cmp (some a.key) (some b.key) (level + 1) c₁
    checkHeight level h₀ h₁
    let h₂ ← check cmp (some b.key) (some c.key) (level + 1) c₂
    checkHeight level h₀ h₂
    let h₃ ← check cmp (some c.key) upper (level + 1) c₃
    checkHeight level h₀ h₃
    return h₀ + 1

/-- The depth of a sound tree, or the first defect. -/
def validate (cmp : Comparison K) (t : Tree K V) : Except Defect Nat := t.check cmp none none 0

end Tree

end Multiway
