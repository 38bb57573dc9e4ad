import Multiway.Edit
import Multiway.Proofs.Removal

/-!
# Trees read from right to left

The reverse of a tree has the children and the entries of every node in the opposite order. In a
node with `n` entries child `i` becomes child `n - i` and entry `i` becomes entry `n - 1 - i`; what
was to the left of an entry is to its right.

What is done at one end of a tree is, in the reverse, done at the other end. A loan from the right
becomes a loan from the left, and a merge with the sibling to the right one with the sibling to the
left. In the middle of a node there is a choice between the two siblings, and the reverse would
choose the other one; at the ends there is none.

* `Tree.reverse`, and `Gap.reverse`, `Removal.reverse`, `Insertion.reverse`, `Effect.reverse` for
  what holds a tree;
* `Tree.children_reverse`, `Tree.child_reverse`, `Tree.gap?_reverse`, `Tree.setChild_reverse` and
  others: one node;
* `Tree.rotateFromLeft?_reverse`, `Tree.rotateFromRight?_reverse`, `Tree.merge_reverse`,
  **`Tree.repair_reverse`**: mending a child at an end;
* `Tree.HasHeight.reverse`: heights;
* **`Tree.HasHeight.removeLast_reverse`**, **`Tree.HasHeight.removeFirst_reverse`**: the removals at
  both ends;
* `Edit.apply_eraseLast_reverse`, `Edit.apply_eraseFirst_reverse`: the same as updates.
-/

namespace Multiway

variable {K V : Type}

/-- The tree with the children and the entries of every node in the opposite order. -/
def Tree.reverse : Tree K V → Tree K V
  | empty => empty
  | two c₀ a c₁ => two c₁.reverse a c₀.reverse
  | three c₀ a c₁ b c₂ => three c₂.reverse b c₁.reverse a c₀.reverse
  | four c₀ a c₁ b c₂ c c₃ => four c₃.reverse c c₂.reverse b c₁.reverse a c₀.reverse

/-- The gap seen from the other side. -/
def Gap.reverse (g : Gap K V) : Gap K V := ⟨g.right.reverse, g.middle, g.left.reverse⟩

/-- What a removal leaves, with the tree reversed. -/
def Removal.reverse (r : Removal K V) : Removal K V := ⟨r.tree.reverse, r.entry, r.short⟩

/-- What an insertion leaves, with the tree reversed. -/
def Insertion.reverse (ins : Insertion K V) : Insertion K V := ⟨ins.tree.reverse, ins.previous⟩

/-- What an update leaves, with the tree reversed. -/
def Effect.reverse (effect : Effect K V) : Effect K V :=
  ⟨effect.root.map Tree.reverse, effect.answer⟩

namespace Tree

variable {t c : Tree K V} {e : Entry K V} {g : Gap K V} {h i : Nat}

@[simp]
theorem reverse_reverse (t : Tree K V) : t.reverse.reverse = t := by
  induction t <;> simp_all [reverse]

theorem toList_reverse (t : Tree K V) : t.reverse.toList = t.toList.reverse := by
  induction t <;> simp_all [reverse, toList]

/-! ## One node -/

theorem entries_reverse (t : Tree K V) : t.reverse.entries = t.entries.reverse := by
  cases t <;> rfl

@[simp]
theorem length_entries_reverse (t : Tree K V) : t.reverse.entries.length = t.entries.length := by
  rw [entries_reverse, List.length_reverse]

theorem keys_reverse (t : Tree K V) : t.reverse.keys = t.keys.reverse := by
  rw [keys, entries_reverse, List.map_reverse, keys]

theorem children_reverse (t : Tree K V) :
    t.reverse.children = (t.children.map reverse).reverse := by
  cases t <;> rfl

@[simp]
theorem isEmpty_reverse (t : Tree K V) : t.reverse.isEmpty = t.isEmpty := by
  cases t <;> rfl

@[simp]
theorem isFull_reverse (t : Tree K V) : t.reverse.isFull = t.isFull := by
  cases t <;> rfl

theorem entry_reverse (he : t.entries[i]? = some e) :
    t.reverse.entries[t.entries.length - 1 - i]? = some e := by
  have hi := (List.getElem?_eq_some_iff.mp he).1
  rw [entries_reverse, List.getElem?_reverse (by omega), ← he]
  congr 1
  omega

theorem child_reverse (hc : t.children[i]? = some c) :
    t.reverse.children[t.entries.length - i]? = some c.reverse := by
  have hi := (List.getElem?_eq_some_iff.mp hc).1
  have hlen := length_children_eq (isEmpty_of_child hc)
  rw [children_reverse, List.getElem?_reverse (by rw [List.length_map]; omega), List.length_map,
    List.getElem?_map, show t.children.length - 1 - (t.entries.length - i) = i by omega, hc]
  rfl

theorem gap?_reverse (hgap : t.gap? i = some g) :
    t.reverse.gap? (t.entries.length - 1 - i) = some g.reverse := by
  obtain ⟨hl, hm, hr⟩ := gap?_eq_some.mp hgap
  have hi := (List.getElem?_eq_some_iff.mp hm).1
  have hleft := child_reverse hr
  have hright := child_reverse hl
  rw [show t.entries.length - (i + 1) = t.entries.length - 1 - i by omega] at hleft
  rw [show t.entries.length - i = t.entries.length - 1 - i + 1 by omega] at hright
  exact gap?_eq_some.mpr ⟨hleft, entry_reverse hm, hright⟩

theorem setChild_reverse (hc : t.children[i]? = some c) (x : Tree K V) :
    t.reverse.setChild (t.entries.length - i) x.reverse = (t.setChild i x).reverse := by
  cases t <;> rcases i with _ | _ | _ | _ | i <;> cases hc <;> rfl

theorem setEntry_reverse {a : Entry K V} (ha : t.entries[i]? = some a) (e : Entry K V) :
    t.reverse.setEntry (t.entries.length - 1 - i) e = (t.setEntry i e).reverse := by
  cases t <;> rcases i with _ | _ | _ | i <;> cases ha <;> rfl

theorem setGap_reverse (hgap : t.gap? i = some g) (g' : Gap K V) :
    t.reverse.setGap (t.entries.length - 1 - i) g'.reverse = (t.setGap i g').reverse := by
  obtain ⟨-, hm, -⟩ := gap?_eq_some.mp hgap
  cases t <;> rcases i with _ | _ | _ | i <;> cases hm <;> rfl

theorem closeGap_reverse (hgap : t.gap? i = some g) (c : Tree K V) :
    t.reverse.closeGap (t.entries.length - 1 - i) c.reverse =
      Prod.map reverse id <$> t.closeGap i c := by
  obtain ⟨-, hm, -⟩ := gap?_eq_some.mp hgap
  cases t <;> rcases i with _ | _ | _ | i <;> cases hm <;> rfl

/-! ## Mending a node -/

theorem lendLast?_reverse (t : Tree K V) : t.reverse.lendLast? = t.lendFirst?.map Gap.reverse := by
  cases t <;> rfl

theorem append_reverse (l : Tree K V) (e : Entry K V) (t : Tree K V) :
    t.reverse.append e l.reverse = reverse <$> prepend l e t := by
  cases t <;> rfl

/-- A loan from the right is, in the reverse, one from the left. -/
theorem rotateFromLeft?_reverse (hi : i ≤ t.entries.length) :
    t.reverse.rotateFromLeft? (t.entries.length - i) = (t.rotateFromRight? i).map reverse := by
  rcases Nat.lt_or_eq_of_le hi with hlt | rfl
  · obtain ⟨g, hgap⟩ := exists_gap hlt
    rw [show t.entries.length - i = t.entries.length - 1 - i + 1 by omega]
    simp only [rotateFromLeft?, rotateFromRight?, gap?_reverse hgap, hgap, writeGap?_ok hgap,
      writeGap?_ok (gap?_reverse hgap), Option.bind_eq_bind, Option.bind_some, Gap.reverse,
      lendLast?_reverse]
    cases g.right.lendFirst? with
    | none => rfl
    | some loan =>
      exact congrArg some
        (setGap_reverse hgap ⟨two g.left g.middle loan.left, loan.middle, loan.right⟩)
  · -- nothing is to the right of the last child, and nothing to the left of the first
    have hnone : t.gap? t.entries.length = none := by simp [gap?]
    rw [Nat.sub_self, rotateFromRight?, hnone]
    rfl

theorem rotateFromRight?_reverse (hi : i ≤ t.entries.length) :
    t.reverse.rotateFromRight? (t.entries.length - i) = (t.rotateFromLeft? i).map reverse := by
  have h := rotateFromLeft?_reverse (t := t.reverse) (i := t.entries.length - i)
    (by rw [length_entries_reverse]; omega)
  rw [reverse_reverse, length_entries_reverse,
    show t.entries.length - (t.entries.length - i) = i by omega] at h
  rw [h, Option.map_map, show reverse ∘ reverse = @id (Tree K V) from funext reverse_reverse,
    Option.map_id, id]

/-- A merge of the first child is, in the reverse, one of the last child. -/
theorem merge_reverse (hempty : t.isEmpty = false) :
    t.reverse.merge t.entries.length = Prod.map reverse id <$> t.merge 0 := by
  obtain ⟨g, hgap⟩ := exists_gap (entries_length_pos hempty)
  obtain ⟨n, hn⟩ := Nat.exists_eq_add_of_lt (entries_length_pos hempty)
  rw [Nat.zero_add] at hn
  have hreverse := gap?_reverse hgap
  have hclose := closeGap_reverse hgap
  rw [hn, Nat.add_sub_cancel, Nat.sub_zero] at hreverse hclose
  simp only [hn, merge, hreverse, hgap, Gap.reverse, append_reverse]
  cases prepend g.left g.middle g.right with
  | error fault => rfl
  | ok c => exact hclose c

theorem repair_reverse (hempty : t.isEmpty = false) :
    t.reverse.repair t.entries.length = Prod.map reverse id <$> t.repair 0 := by
  have hleft := rotateFromLeft?_reverse (t := t) (Nat.zero_le _)
  have hright := rotateFromRight?_reverse (t := t) (Nat.zero_le _)
  rw [Nat.sub_zero] at hleft hright
  rw [repair, repair, isEmpty_reverse, hempty, hleft, hright]
  -- a child at an end has one sibling only, so that no choice is left
  simp only [Bool.false_eq_true, if_false, rotateFromLeft?, Option.map_none, Option.or_none,
    Option.none_or]
  cases t.rotateFromRight? 0 with
  | none => exact merge_reverse hempty
  | some u => rfl

/-! ## Heights -/

theorem HasHeight.reverse (ht : t.HasHeight h) : t.reverse.HasHeight h := by
  induction h generalizing t with
  | zero => rwa [hasHeight_zero_iff, isEmpty_reverse, ← hasHeight_zero_iff]
  | succ h ih =>
    rw [hasHeight_succ_iff] at ht ⊢
    obtain ⟨hempty, hchildren⟩ := ht
    refine ⟨by rwa [isEmpty_reverse], fun c hc => ?_⟩
    rw [children_reverse, List.mem_reverse, List.mem_map] at hc
    obtain ⟨d, hd, rfl⟩ := hc
    exact ih (hchildren d hd)

theorem HasHeight.isLeaf_reverse (ht : t.HasHeight h) : t.reverse.isLeaf = t.isLeaf := by
  cases h with
  | zero =>
    rw [isEmpty_iff.mp (hasHeight_zero_iff.mp ht)]
    rfl
  | succ h => rw [Bool.eq_iff_iff, ht.reverse.isLeaf_iff, ht.isLeaf_iff]

/-! ## The removals at both ends -/

/-- At the bottom an entry is dropped together with an empty subtree, whichever side it is on. -/
theorem HasHeight.dropEntry_eq (ht : t.HasHeight 1) (hc : t.children[i]? = some c) :
    t.dropEntry i = t.closeGap i empty := by
  rw [closeGap_of_child hc, ← isEmpty_iff.mp (hasHeight_zero_iff.mp (ht.child hc)),
    setChild_self hc]

theorem removeAt_reverse (ht : t.HasHeight 1) (he : t.entries[i]? = some e) :
    t.reverse.removeAt (t.entries.length - 1 - i) = Removal.reverse <$> t.removeAt i := by
  obtain ⟨l, r, hgap⟩ := exists_gap_around he
  have hclose : t.reverse.closeGap (t.entries.length - 1 - i) empty = _ :=
    closeGap_reverse hgap empty
  simp only [removeAt, he, entry_reverse he, ht.dropEntry_eq (gap?_eq_some.mp hgap).1,
    ht.reverse.dropEntry_eq (gap?_eq_some.mp (gap?_reverse hgap)).1, hclose]
  cases t.closeGap i empty <;> rfl

theorem afterRemoval_reverse (hc : t.children[0]? = some c) (r : Removal K V) :
    t.reverse.afterRemoval t.entries.length r.reverse = Removal.reverse <$> t.afterRemoval 0 r := by
  have hset := setChild_reverse hc r.tree
  have hlast := child_reverse hc
  have hrepair := repair_reverse (t := t.setChild 0 r.tree)
    (by rw [isEmpty_setChild, isEmpty_of_child hc])
  rw [entries_setChild] at hrepair
  rw [Nat.sub_zero] at hset hlast
  rw [afterRemoval_of_child hlast, afterRemoval_of_child hc]
  simp only [Removal.reverse, hset, hrepair]
  cases r.short with
  | false => rfl
  | true => cases (t.setChild 0 r.tree).repair 0 <;> rfl

/-- **To remove the last entry of the reverse is to remove the first entry.** -/
theorem HasHeight.removeLast_reverse (ht : t.HasHeight h) :
    t.reverse.removeLast = Option.map Removal.reverse <$> t.removeFirst := by
  fun_induction removeFirst t generalizing h with
  | case1 t hempty =>
    rw [removeLast, isEmpty_reverse, if_pos hempty]
    rfl
  | case2 t hempty hleaf =>
    obtain ⟨k, rfl⟩ := ht.exists_eq_succ (Bool.eq_false_iff.mpr hempty)
    obtain rfl := ht.isLeaf_iff.mp hleaf
    have he := List.getElem?_eq_getElem (entries_length_pos (Bool.eq_false_iff.mpr hempty))
    have hremove := removeAt_reverse ht he
    rw [Nat.sub_zero] at hremove
    rw [removeLast, isEmpty_reverse, if_neg hempty, ht.isLeaf_reverse, if_pos hleaf,
      length_entries_reverse, hremove]
    cases t.removeAt 0 <;> rfl
  | case3 t hempty hleaf hnone =>
    exact absurd (isEmpty_of_no_child (Nat.zero_le _) hnone) hempty
  | case4 t hempty hleaf c hc ih =>
    obtain ⟨k, rfl⟩ := ht.exists_eq_succ (Bool.eq_false_iff.mpr hempty)
    have hlast := child_reverse hc
    have hafter := afterRemoval_reverse hc
    rw [Nat.sub_zero] at hlast
    rw [removeLast, isEmpty_reverse, if_neg hempty, ht.isLeaf_reverse, if_neg hleaf,
      length_entries_reverse, hlast]
    simp only [ih (ht.child hc)]
    obtain fault | _ | r := c.removeFirst
    · rfl
    · rfl
    · refine (congrArg (some <$> ·) (hafter r)).trans ?_
      change _ = Option.map Removal.reverse <$> some <$> t.afterRemoval 0 r
      cases t.afterRemoval 0 r <;> rfl

theorem removal_reverse_reverse (r : Removal K V) : r.reverse.reverse = r := by
  simp [Removal.reverse]

theorem HasHeight.removeFirst_reverse (ht : t.HasHeight h) :
    t.reverse.removeFirst = Option.map Removal.reverse <$> t.removeLast := by
  have hlast := ht.reverse.removeLast_reverse
  rw [reverse_reverse] at hlast
  rw [hlast]
  obtain fault | _ | r := t.reverse.removeFirst
  · rfl
  · rfl
  · exact congrArg (fun r => Except.ok (some r)) (removal_reverse_reverse r).symm

end Tree

/-! ## The updates -/

namespace Edit

variable {t : Tree K V}

theorem apply_eraseLast_reverse (ht : t.Balanced) :
    eraseLast.apply t.reverse = Effect.reverse <$> eraseFirst.apply t := by
  obtain ⟨h, ht⟩ := ht
  simp only [apply, ht.removeLast_reverse, Tree.isEmpty_reverse]
  obtain fault | _ | r := t.removeFirst
  · rfl
  · cases t.isEmpty <;> rfl
  · rfl

theorem apply_eraseFirst_reverse (ht : t.Balanced) :
    eraseFirst.apply t.reverse = Effect.reverse <$> eraseLast.apply t := by
  obtain ⟨h, ht⟩ := ht
  simp only [apply, ht.removeFirst_reverse, Tree.isEmpty_reverse]
  obtain fault | _ | r := t.removeLast
  · rfl
  · cases t.isEmpty <;> rfl
  · rfl

end Edit

end Multiway
