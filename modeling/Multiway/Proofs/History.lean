import Multiway.Proofs.Edit
import Multiway.Proofs.Transform

/-!
# Histories of a tree

A tree is changed by the four updates and by transforms of its values, in any order and any number.
Whether the changes go through, and whether the tree stays balanced, does not depend on the
comparisons: every update may bring its own, and none of them needs to be an order.

* `Change`, `History`: one change, and one change after another;
* `History.trees`: the trees on the way, unless a change fails;
* `Change.exists_apply`: one change of a balanced tree;
* `Tree.SoundNode`: what is asked of every node;
* **`history_balanced`**: any number of changes.
-/

namespace Multiway

variable {K V W : Type}

/-- A change of a tree. A transform into a new tree may give values of another type. -/
inductive Change (K : Type) : Type → Type → Type 1 where
  | edit {V : Type} (update : Edit K V) : Change K V V
  | map {σ V W : Type} (f : Transform σ K V W) (s : σ) : Change K V W
  | mapInPlace {σ V : Type} (f : Transform σ K V V) (s : σ) : Change K V V

/-- The changed tree. -/
def Change.apply (t : Tree K V) : Change K V W → Except Fault (Tree K W)
  | edit update => (fun effect => effect.root.getD t) <$> update.apply t
  | map f s => Prod.fst <$> Tree.map f t s
  | mapInPlace f s => .ok (Tree.mapInPlace f t s).1

/-- Changes one after another. -/
inductive History (K : Type) : Type → Type → Type 1 where
  | done {V : Type} : History K V V
  | next {U V W : Type} (change : Change K U V) (later : History K V W) : History K U W

namespace History

/-- The number of changes. -/
def length {V W : Type} : History K V W → Nat
  | done => 0
  | next _ later => later.length + 1

/-- The tree before the first change and the trees after every change, with the types of their
values. -/
def trees {V W : Type} (t : Tree K V) : History K V W → Except Fault (List ((V : Type) × Tree K V))
  | done => .ok [⟨V, t⟩]
  | next change later =>
    match change.apply t with
    | .error fault => .error fault
    | .ok u => (⟨V, t⟩ :: ·) <$> later.trees u

end History

theorem Change.exists_apply (change : Change K V W) {t : Tree K V} (ht : t.Balanced) :
    ∃ u, change.apply t = .ok u ∧ u.Balanced := by
  cases change with
  | edit update =>
    obtain ⟨effect, hok, houtcome⟩ := update.exists_outcome ht
    exact ⟨effect.root.getD t, by rw [apply, hok]; rfl, houtcome.balanced ht⟩
  | map f s =>
    exact ⟨(t.transform f s).1, by rw [apply, Tree.map_eq_ok]; rfl, Tree.balanced_transform f ht s⟩
  | mapInPlace f s =>
    exact ⟨(t.transform f s).1, by rw [apply, Tree.mapInPlace_eq], Tree.balanced_transform f ht s⟩

theorem History.exists_trees (changes : History K V W) {t : Tree K V} (ht : t.Balanced) :
    ∃ trees, changes.trees t = .ok trees ∧ trees.length = changes.length + 1 ∧
      ∀ u ∈ trees, u.2.Balanced := by
  induction changes with
  | done => exact ⟨_, rfl, rfl, fun u hu => by cases List.mem_singleton.mp hu; exact ht⟩
  | next change later ih =>
    obtain ⟨u, hok, hu⟩ := change.exists_apply ht
    obtain ⟨trees, htrees, hlength, hbalanced⟩ := ih hu
    refine ⟨⟨_, t⟩ :: trees, ?_, ?_, List.forall_mem_cons.mpr ⟨ht, hbalanced⟩⟩
    · rw [History.trees, hok]
      simp only [htrees, Functor.map, Except.map]
    · rw [List.length_cons, hlength, length]

/-! ## Nodes -/

namespace Tree

/-- The node has one to three entries and one more child, and a search never leaves it through an
entry or a child that it does not have. -/
structure SoundNode (n : Tree K V) : Prop where
  entries_pos : 1 ≤ n.entries.length
  entries_le : n.entries.length ≤ 3
  children_eq : n.children.length = n.entries.length + 1
  within (cmp : Comparison K) (key : K) : (locate cmp n.keys key).Within n.entries.length

theorem NodeAt.sound {t n : Tree K V} {level : Nat} (hn : t.NodeAt level n) : n.SoundNode := by
  have hempty : n.isEmpty = false := hn.isEmpty_eq
  refine ⟨entries_length_pos hempty, ?_, length_children_eq hempty, fun cmp key => ?_⟩
  · cases n <;> simp [entries]
  · rw [← length_keys]
    exact locate_within cmp n.keys key

end Tree

/-- **No history of a balanced tree fails, and none leaves the balanced trees.** -/
theorem history_balanced {t : Tree K V} (ht : t.Balanced) (changes : History K V W) :
    ∃ trees, changes.trees t = .ok trees ∧ trees.length = changes.length + 1 ∧
      ∀ u ∈ trees, u.2.Balanced ∧ ∀ level n, u.2.NodeAt level n → n.SoundNode := by
  obtain ⟨trees, htrees, hlength, hbalanced⟩ := changes.exists_trees ht
  exact ⟨trees, htrees, hlength, fun u hu => ⟨hbalanced u hu, fun _ _ hn => hn.sound⟩⟩

/-- A tree whose keys are in disorder, changed by comparisons that are no orders. -/
theorem history_balanced_unordered :
    let pair : Tree Int64 Nat := .three .empty ⟨9, 90⟩ .empty ⟨3, 30⟩ .empty
    let t := Tree.two (.leaf ⟨5, 50⟩) ⟨1, 10⟩ pair
    let changes : History Int64 Nat String :=
      .next (.edit (.insert (.constant .gt) ⟨7, 70⟩)) <| .next (.edit .eraseLast) <|
      .next (.edit (.erase (.constant .eq) 4)) <|
      .next (.map (fun _ v n => (toString v, n + 1)) 0) .done
    t.Balanced ∧ ∃ trees, changes.trees t = .ok trees ∧ trees.length = 5 ∧
      ∀ u ∈ trees, u.2.Balanced ∧ ∀ level n, u.2.NodeAt level n → n.SoundNode := by
  intro pair t changes
  have hpair : pair.HasHeight 1 :=
    Tree.hasHeight_three.mpr ⟨Tree.hasHeight_empty, Tree.hasHeight_empty, Tree.hasHeight_empty⟩
  have ht : t.Balanced := ⟨2, Tree.hasHeight_two.mpr ⟨Tree.hasHeight_leaf _, hpair⟩⟩
  exact ⟨ht, history_balanced ht changes⟩

end Multiway
