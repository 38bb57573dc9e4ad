/-!
# Faults

A fault is a broken agreement between the parts of the library: a node with an impossible number
of children, a cursor moved past its end. Absence is never a fault; looking up or deleting a
missing key has an ordinary answer.

* `Fault`: the agreements that can be broken;
* `Fault.message`: the text of each;
* `bind_eq_ok_iff`, `eq_ok_of_map_some`: what goes through without one.
-/

namespace Multiway

/-- A broken agreement between the parts of the library. -/
inductive Fault where
  /-- A cursor with no entry left was asked to move on. -/
  | exhaustedCursor
  /-- No node has this many keys and children. -/
  | nodeCounts (keys children : Nat)
  /-- A node with room for `wanted` values was given only `found`. -/
  | missingValues (wanted found : Nat)
  /-- The contents of the empty subtree were asked for. -/
  | unpackedEmpty
  /-- A node was expected where the subtree is empty. -/
  | expectedNode
  /-- Only a node with four children can be split. -/
  | splitArity (arity : Nat)
  /-- A slot or child index lies outside its node. -/
  | outOfRange (index : Nat)
deriving DecidableEq

/-- What was broken, in words. -/
def Fault.detail : Fault → String
  | .exhaustedCursor => "cannot advance an exhausted cursor"
  | .nodeCounts keys children => s!"cannot build a node from {keys} keys and {children} children"
  | .missingValues wanted found => s!"expected {wanted} node slots, found {found}"
  | .unpackedEmpty => "cannot unpack an empty subtree"
  | .expectedNode => "expected a node, found Empty"
  | .splitArity arity => s!"only a 4-node can be split, found arity {arity}"
  | .outOfRange index => s!"no position {index} in this node"

/-- The full text of a fault. -/
def Fault.message (fault : Fault) : String := "tree contract violated: " ++ fault.detail

/-! ## What goes through -/

section

variable {ε α β : Type} {x : Except ε α}

theorem bind_eq_ok_iff {f : α → Except ε β} {b : β} :
    (x >>= f) = .ok b ↔ ∃ a, x = .ok a ∧ f a = .ok b := by
  constructor
  · intro h
    cases x with
    | error fault => cases h
    | ok a => exact ⟨a, rfl, h⟩
  · rintro ⟨a, rfl, hf⟩
    exact hf

theorem eq_ok_of_map_some {a : α} (h : some <$> x = .ok (some a)) : x = .ok a := by
  cases x with
  | error fault => cases h
  | ok b =>
    cases h
    rfl

end

end Multiway
