import Multiway.Proofs.Balance
import Multiway.Tree.Transform

/-!
# What a transform leaves in place

A transform that works where the values are cannot fail. Nor can the one that puts every node
together anew: both leave the tree in which only the values are other ones.

* `Tree.transform`: the tree with other values, and the state after the last call;
* **`Tree.map_eq_ok`**, `Tree.mapInPlace_eq`: both transforms give this tree and this state;
* `Tree.hasHeight_transform_iff`: its heights are the old ones.
-/

namespace Multiway

namespace Tree

variable {K V W σ : Type}

/-- The tree with every value transformed, in order, and the state after the last call. -/
def transform (f : Transform σ K V W) : Tree K V → σ → Tree K W × σ
  | empty, s => (empty, s)
  | two c₀ a c₁, s =>
    let (c₀, s) := c₀.transform f s
    let (a, s) := a.transform f s
    let (c₁, s) := c₁.transform f s
    (two c₀ a c₁, s)
  | three c₀ a c₁ b c₂, s =>
    let (c₀, s) := c₀.transform f s
    let (a, s) := a.transform f s
    let (c₁, s) := c₁.transform f s
    let (b, s) := b.transform f s
    let (c₂, s) := c₂.transform f s
    (three c₀ a c₁ b c₂, s)
  | four c₀ a c₁ b c₂ c c₃, s =>
    let (c₀, s) := c₀.transform f s
    let (a, s) := a.transform f s
    let (c₁, s) := c₁.transform f s
    let (b, s) := b.transform f s
    let (c₂, s) := c₂.transform f s
    let (c, s) := c.transform f s
    let (c₃, s) := c₃.transform f s
    (four c₀ a c₁ b c₂ c c₃, s)

/-- **A node always has room for its own contents.** -/
theorem map_eq_ok (f : Transform σ K V W) (t : Tree K V) (s : σ) :
    t.map f s = .ok (t.transform f s) := by
  induction t generalizing s with
  | empty => rfl
  | two c₀ a c₁ ih₀ ih₁ =>
    simp only [map, transform, ih₀, ih₁, bind, Except.bind]
    rfl
  | three c₀ a c₁ b c₂ ih₀ ih₁ ih₂ =>
    simp only [map, transform, ih₀, ih₁, ih₂, bind, Except.bind]
    rfl
  | four c₀ a c₁ b c₂ c c₃ ih₀ ih₁ ih₂ ih₃ =>
    simp only [map, transform, ih₀, ih₁, ih₂, ih₃, bind, Except.bind]
    rfl

theorem mapInPlace_eq (f : Transform σ K V V) (t : Tree K V) (s : σ) :
    t.mapInPlace f s = t.transform f s := by
  induction t generalizing s with
  | empty => rfl
  | two c₀ a c₁ ih₀ ih₁ => simp only [mapInPlace, transform, ih₀, ih₁]
  | three c₀ a c₁ b c₂ ih₀ ih₁ ih₂ => simp only [mapInPlace, transform, ih₀, ih₁, ih₂]
  | four c₀ a c₁ b c₂ c c₃ ih₀ ih₁ ih₂ ih₃ => simp only [mapInPlace, transform, ih₀, ih₁, ih₂, ih₃]

theorem isEmpty_transform (f : Transform σ K V W) (t : Tree K V) (s : σ) :
    (t.transform f s).1.isEmpty = t.isEmpty := by
  cases t <;> rfl

theorem hasHeight_transform_iff (f : Transform σ K V W) (t : Tree K V) (s : σ) {h : Nat} :
    (t.transform f s).1.HasHeight h ↔ t.HasHeight h := by
  induction h generalizing t s with
  | zero => rw [hasHeight_zero_iff, hasHeight_zero_iff, isEmpty_transform]
  | succ h ih =>
    cases t with
    | empty => simp only [hasHeight_succ_iff, isEmpty, transform, Bool.true_eq_false, false_and]
    | two => simp only [transform, hasHeight_two, ih]
    | three => simp only [transform, hasHeight_three, ih]
    | four => simp only [transform, hasHeight_four, ih]

theorem balanced_transform (f : Transform σ K V W) {t : Tree K V} (ht : t.Balanced) (s : σ) :
    (t.transform f s).1.Balanced := by
  obtain ⟨h, ht⟩ := ht
  exact ⟨h, (hasHeight_transform_iff f t s).mpr ht⟩

end Tree

end Multiway
