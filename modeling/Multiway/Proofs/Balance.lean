import Mathlib.Data.List.InsertIdx
import Multiway.Proofs.Frame

/-!
# Balanced trees

A tree is balanced when all its empty subtrees lie at one depth, which is then its height. The keys
play no part in this.

* `Tree.EmptyAt`, `Tree.NodeAt`: the depths of the empty subtrees, and the nodes of every level;
* `Tree.HasHeight`, `Tree.Balanced`: every empty subtree at one depth;
* `Tree.hasHeight_succ_iff`: a node has height `h + 1` if all its children have height `h`;
* **`Tree.HasHeight.depth_eq`**: the height is the length of the way down through first children;
* `Tree.HasHeight.setChild`, `Tree.HasHeight.setEntry`, `Tree.HasHeight.insertEntry`,
  `Tree.HasHeight.split`: the height after a step at the root.
-/

namespace Multiway

namespace Tree

variable {K V : Type} {t t' c : Tree K V} {e : Entry K V} {h i : Nat}

/-- An empty subtree lies at this depth. -/
inductive EmptyAt : Tree K V → Nat → Prop
  | root : EmptyAt empty 0
  | child {t c : Tree K V} {d : Nat} (hc : c ∈ t.children) (hd : EmptyAt c d) : EmptyAt t (d + 1)

/-- The subtree is a node at this level, with all that hangs below it. The root is at level 0. -/
inductive NodeAt : Tree K V → Nat → Tree K V → Prop
  | root {t : Tree K V} (hempty : t.isEmpty = false) : NodeAt t 0 t
  | child {t c n : Tree K V} {level : Nat} (hc : c ∈ t.children) (hn : NodeAt c level n) :
      NodeAt t (level + 1) n

/-- Every empty subtree lies at depth `h`. -/
def HasHeight (t : Tree K V) (h : Nat) : Prop := ∀ d, t.EmptyAt d → d = h

/-- All empty subtrees lie at one depth. -/
def Balanced (t : Tree K V) : Prop := ∃ h, t.HasHeight h

theorem NodeAt.isEmpty_eq {n : Tree K V} {level : Nat} (hn : t.NodeAt level n) :
    n.isEmpty = false := by
  induction hn with
  | root hempty => exact hempty
  | child _ _ ih => exact ih

theorem NodeAt.concat {n : Tree K V} {level : Nat} (hn : t.NodeAt level n) (hc : c ∈ n.children)
    (hempty : c.isEmpty = false) : t.NodeAt (level + 1) c := by
  induction hn with
  | root => exact .child hc (.root hempty)
  | child hd _ ih => exact .child hd (ih hc)

/-! ## Heights -/

theorem emptyAt_depth (t : Tree K V) : t.EmptyAt t.depth := by
  induction t with
  | empty => exact .root
  | two _ _ _ ih | three _ _ _ _ _ ih | four _ _ _ _ _ _ _ ih => exact .child List.mem_cons_self ih

/-- **The height of a balanced tree is its depth.** -/
theorem HasHeight.depth_eq (ht : t.HasHeight h) : t.depth = h := ht _ t.emptyAt_depth

theorem hasHeight_empty : (empty : Tree K V).HasHeight 0 := fun d hd => by
  cases hd with
  | root => rfl
  | child hc => cases hc

theorem hasHeight_zero_iff : t.HasHeight 0 ↔ t.isEmpty = true := by
  constructor
  · intro ht
    cases t with
    | empty => rfl
    | _ => exact absurd ht.depth_eq (Nat.succ_ne_zero _)
  · intro ht
    cases t with
    | empty => exact hasHeight_empty
    | _ => cases ht

theorem HasHeight.isEmpty_eq (ht : t.HasHeight (h + 1)) : t.isEmpty = false := by
  cases t with
  | empty => exact absurd ht.depth_eq.symm (Nat.succ_ne_zero _)
  | _ => rfl

theorem HasHeight.exists_eq_succ (ht : t.HasHeight h) (hempty : t.isEmpty = false) :
    ∃ k, h = k + 1 := by
  refine Nat.exists_eq_succ_of_ne_zero fun hzero => ?_
  rw [hzero, hasHeight_zero_iff, hempty] at ht
  cases ht

theorem hasHeight_succ_iff :
    t.HasHeight (h + 1) ↔ t.isEmpty = false ∧ ∀ c ∈ t.children, c.HasHeight h := by
  constructor
  · intro ht
    exact ⟨ht.isEmpty_eq, fun c hc d hd => Nat.succ.inj (ht _ (.child hc hd))⟩
  · rintro ⟨hempty, hchildren⟩ d hd
    cases hd with
    | root => cases hempty
    | child hc hd => rw [hchildren _ hc _ hd]

@[simp]
theorem hasHeight_two {c₀ c₁ : Tree K V} {a : Entry K V} :
    (two c₀ a c₁).HasHeight (h + 1) ↔ c₀.HasHeight h ∧ c₁.HasHeight h := by
  simp [hasHeight_succ_iff, children, isEmpty]

@[simp]
theorem hasHeight_three {c₀ c₁ c₂ : Tree K V} {a b : Entry K V} :
    (three c₀ a c₁ b c₂).HasHeight (h + 1) ↔
      c₀.HasHeight h ∧ c₁.HasHeight h ∧ c₂.HasHeight h := by
  simp [hasHeight_succ_iff, children, isEmpty]

@[simp]
theorem hasHeight_four {c₀ c₁ c₂ c₃ : Tree K V} {a b c : Entry K V} :
    (four c₀ a c₁ b c₂ c c₃).HasHeight (h + 1) ↔
      c₀.HasHeight h ∧ c₁.HasHeight h ∧ c₂.HasHeight h ∧ c₃.HasHeight h := by
  simp [hasHeight_succ_iff, children, isEmpty]

theorem hasHeight_leaf (e : Entry K V) : (leaf e).HasHeight 1 :=
  hasHeight_two.mpr ⟨hasHeight_empty, hasHeight_empty⟩

theorem HasHeight.child (ht : t.HasHeight (h + 1)) (hc : t.children[i]? = some c) :
    c.HasHeight h :=
  (hasHeight_succ_iff.mp ht).2 c (List.mem_of_getElem? hc)

/-- In a balanced tree only the nodes at the bottom count as leaves. -/
theorem HasHeight.isLeaf_iff (ht : t.HasHeight (h + 1)) : t.isLeaf = true ↔ h = 0 := by
  obtain ⟨c, hc⟩ := exists_child ht.isEmpty_eq (Nat.zero_le _)
  have hleaf : t.isLeaf = c.isEmpty := by
    cases t <;> cases hc <;> rfl
  have hheight := ht.child hc
  rw [hleaf, ← hasHeight_zero_iff]
  constructor
  · intro hzero
    rw [← hheight.depth_eq, hzero.depth_eq]
  · rintro rfl
    exact hheight

theorem HasHeight.isLeaf_eq_false (ht : t.HasHeight (h + 2)) : t.isLeaf = false :=
  Bool.eq_false_iff.mpr fun hleaf => absurd (ht.isLeaf_iff.mp hleaf) (Nat.succ_ne_zero h)

theorem HasHeight.exists_succ (ht : t.HasHeight (h + 1)) (hleaf : t.isLeaf = false) :
    ∃ k, h = k + 1 := by
  refine Nat.exists_eq_succ_of_ne_zero fun hzero => ?_
  rw [ht.isLeaf_iff.mpr hzero] at hleaf
  cases hleaf

/-! ## Steps at the root -/

theorem isEmpty_setChild (t : Tree K V) (i : Nat) (x : Tree K V) :
    (t.setChild i x).isEmpty = t.isEmpty := by
  cases t <;> rcases i with _ | _ | _ | _ | i <;> rfl

theorem isEmpty_setEntry (t : Tree K V) (i : Nat) (e : Entry K V) :
    (t.setEntry i e).isEmpty = t.isEmpty := by
  cases t <;> rcases i with _ | _ | _ | i <;> rfl

theorem HasHeight.setChild {x : Tree K V} (ht : t.HasHeight (h + 1)) (hx : x.HasHeight h) :
    (t.setChild i x).HasHeight (h + 1) := by
  obtain ⟨hempty, hchildren⟩ := hasHeight_succ_iff.mp ht
  rw [hasHeight_succ_iff, isEmpty_setChild, children_setChild]
  refine ⟨hempty, fun c hc => ?_⟩
  rcases List.mem_or_eq_of_mem_set hc with hmem | rfl
  · exact hchildren c hmem
  · exact hx

theorem HasHeight.setEntry (ht : t.HasHeight (h + 1)) : (t.setEntry i e).HasHeight (h + 1) := by
  rwa [hasHeight_succ_iff, isEmpty_setEntry, children_setEntry, ← hasHeight_succ_iff]

/-- What is inserted goes in once, entry and child. -/
theorem insertEntry_eq_ok {r : Tree K V} (hr : t.insertEntry i e r = .ok t') :
    t'.isEmpty = false ∧ t'.entries = t.entries.insertIdx i e ∧
      t'.children = t.children.insertIdx (i + 1) r := by
  cases t <;> rcases i with _ | _ | _ | i <;> cases hr <;> exact ⟨rfl, rfl, rfl⟩

theorem HasHeight.insertEntry {r : Tree K V} (ht : t.HasHeight (h + 1)) (hr : r.HasHeight h)
    (hinsert : t.insertEntry i e r = .ok t') : t'.HasHeight (h + 1) := by
  obtain ⟨hempty, -, hchildren⟩ := insertEntry_eq_ok hinsert
  rw [hasHeight_succ_iff, hchildren]
  refine ⟨hempty, fun c hc => ?_⟩
  rcases List.eq_or_mem_of_mem_insertIdx hc with rfl | hmem
  · exact hr
  · exact (hasHeight_succ_iff.mp ht).2 c hmem

theorem HasHeight.split {l r : Tree K V} {m : Entry K V} (ht : t.HasHeight (h + 1))
    (hs : t.split = .ok (l, m, r)) : l.HasHeight (h + 1) ∧ r.HasHeight (h + 1) := by
  cases t <;> cases hs
  obtain ⟨h₀, h₁, h₂, h₃⟩ := hasHeight_four.mp ht
  exact ⟨hasHeight_two.mpr ⟨h₀, h₁⟩, hasHeight_two.mpr ⟨h₂, h₃⟩⟩

end Tree

end Multiway
