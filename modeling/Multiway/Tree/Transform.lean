import Multiway.Tree.Contents

/-!
# Transforming values

A transform visits the entries of a tree once, in order, and puts a new value under every key. It
may carry a state from one call to the next, for instance a count of the calls.

* `Transform`: a function of the key, the value and the state;
* `Tree.map`: a new tree, node by node from new contents, whose values may be of another type;
* `Tree.mapInPlace`: the tree with its values replaced where they are.
-/

namespace Multiway

variable {K V W σ : Type}

/-- A function from a key and its value to a new value, with a state. -/
abbrev Transform (σ K V W : Type) := K → V → σ → W × σ

/-- The entry with its value transformed. -/
def Entry.transform (f : Transform σ K V W) (e : Entry K V) (s : σ) : Entry K W × σ :=
  let (w, s) := f e.key e.value s
  (⟨e.key, w⟩, s)

namespace Tree

/-- The tree of the transformed entries, and the state after the last call. -/
def map (f : Transform σ K V W) : Tree K V → σ → Except Fault (Tree K W × σ)
  | empty, s => .ok (empty, s)
  | two c₀ a c₁, s => do
    let (d₀, s) ← c₀.map f s
    let (a, s) := a.transform f s
    let (d₁, s) ← c₁.map f s
    return (← ((Contents.first d₀).push a d₁).pack, s)
  | three c₀ a c₁ b c₂, s => do
    let (d₀, s) ← c₀.map f s
    let (a, s) := a.transform f s
    let (d₁, s) ← c₁.map f s
    let (b, s) := b.transform f s
    let (d₂, s) ← c₂.map f s
    return (← (((Contents.first d₀).push a d₁).push b d₂).pack, s)
  | four c₀ a c₁ b c₂ c c₃, s => do
    let (d₀, s) ← c₀.map f s
    let (a, s) := a.transform f s
    let (d₁, s) ← c₁.map f s
    let (b, s) := b.transform f s
    let (d₂, s) ← c₂.map f s
    let (c, s) := c.transform f s
    let (d₃, s) ← c₃.map f s
    return (← ((((Contents.first d₀).push a d₁).push b d₂).push c d₃).pack, s)

/-- The tree with every value replaced where it is, and the state after the last call. -/
def mapInPlace (f : Transform σ K V V) : Tree K V → σ → Tree K V × σ
  | empty, s => (empty, s)
  | two c₀ a c₁, s =>
    let (c₀, s) := c₀.mapInPlace f s
    let (a, s) := a.transform f s
    let (c₁, s) := c₁.mapInPlace f s
    (two c₀ a c₁, s)
  | three c₀ a c₁ b c₂, s =>
    let (c₀, s) := c₀.mapInPlace f s
    let (a, s) := a.transform f s
    let (c₁, s) := c₁.mapInPlace f s
    let (b, s) := b.transform f s
    let (c₂, s) := c₂.mapInPlace f s
    (three c₀ a c₁ b c₂, s)
  | four c₀ a c₁ b c₂ c c₃, s =>
    let (c₀, s) := c₀.mapInPlace f s
    let (a, s) := a.transform f s
    let (c₁, s) := c₁.mapInPlace f s
    let (b, s) := b.transform f s
    let (c₂, s) := c₂.mapInPlace f s
    let (c, s) := c.transform f s
    let (c₃, s) := c₃.mapInPlace f s
    (four c₀ a c₁ b c₂ c c₃, s)

end Tree

end Multiway
