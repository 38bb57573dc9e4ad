import Multiway.Workspace

/-!
# Updates under a name

A tree is updated step by step under the name of a tree, where every update puts a new version in
the place of the old one, or under the name of a transient. What the name holds afterwards and what
the step answers is what the update of the tree itself gives.

* `Holder`: the name of a tree or of a transient, `Holder.tree?`, `Holder.action`;
* `Workspace.tree?_putTree`, `Workspace.transient?_putTransient`: a name holds what was put there;
* **`Workspace.exists_step`**: one update under a name.
-/

namespace Multiway

variable {σ K V : Type}

/-- A name under which a tree can be updated. -/
inductive Holder where
  | tree (name : String)
  | transient (name : String)

namespace Holder

/-- The tree that the name holds. -/
def tree? (w : Workspace K V) : Holder → Option (Tree K V)
  | tree name => w.tree? name
  | transient name => w.transient? name

/-- The step that updates the tree under the name. -/
def action (edit : Edit K V) : Holder → Action σ K V
  | tree name => .edit name name edit
  | transient name => .update name edit

end Holder

namespace Workspace

variable {w : Workspace K V} {t : Tree K V} {edit : Edit K V} {effect : Effect K V}

theorem tree?_setTree (w : Workspace K V) (name : String) (p : Place) :
    (w.setTree name p).tree? name = some (w.treeAt p) := by
  rw [tree?, setTree, Registers.get?_set, if_pos rfl]
  rfl

theorem transient?_setTransient (w : Workspace K V) (name : String) (p : Place) :
    (w.setTransient name p).transient? name = some (w.treeAt p) := by
  rw [transient?, setTransient, Registers.get?_set, if_pos rfl]
  rfl

theorem treeAt_allocate (w : Workspace K V) (t : Tree K V) :
    (w.allocate t).1.treeAt (w.allocate t).2 = t := by
  simp [allocate, treeAt]

theorem tree?_putTree (w : Workspace K V) (name : String) (t : Tree K V) :
    (w.putTree name t).tree? name = some t := by
  rw [putTree, tree?_setTree, treeAt_allocate]

theorem transient?_putTransient (w : Workspace K V) (name : String) (t : Tree K V) :
    (w.putTransient name t).transient? name = some t := by
  rw [putTransient, transient?_setTransient, treeAt_allocate]

/-- **An update under a name is the update of the tree that the name holds.** -/
theorem exists_step {holder : Holder} (h : holder.tree? w = some t)
    (hok : edit.apply t = .ok effect) :
    ∃ w', w.step (holder.action edit : Action σ K V) = (w', .ok effect.answer) ∧
      holder.tree? w' = some (effect.root.getD t) := by
  obtain ⟨root, answer⟩ := effect
  cases holder with
  | tree name =>
    obtain ⟨p, hp, rfl⟩ := Option.map_eq_some_iff.mp h
    simp only [Holder.action, step, hp, hok]
    cases root with
    | none => exact ⟨_, rfl, w.tree?_setTree name p⟩
    | some u => exact ⟨_, rfl, w.tree?_putTree name u⟩
  | transient name =>
    obtain ⟨p, hp, rfl⟩ := Option.map_eq_some_iff.mp h
    simp only [Holder.action, step, hp, hok]
    cases root with
    | none => exact ⟨w, rfl, h⟩
    | some u => exact ⟨_, rfl, w.transient?_putTransient name u⟩

end Workspace

end Multiway
