import Multiway.Proofs.Ascending
import Multiway.Proofs.Search

/-!
# Searching an ascending tree

If the list of a tree is ascending and the comparison is a total preorder, a search that goes into a
child leaves smaller keys on one side and greater keys on the other. So it cannot miss an entry.

* `Tree.entries_sublist`: the entries of the root node in the list of the tree;
* **`Tree.sides_of_locate_child`**: what lies on both sides of the child;
* **`Tree.ne_of_find?_eq_none`**: a search that finds nothing has missed nothing.
-/

namespace Multiway

namespace Tree

variable {K V : Type} {cmp : Comparison K} {key : K} {t c : Tree K V} {i : Nat}

theorem entries_sublist (t : Tree K V) : t.entries.Sublist t.toList := by
  cases t <;> simp [entries, toList]

theorem inOrder_keys [Std.TransCmp cmp] (h : Ascending cmp t.toList) (key : K) :
    Location.InOrder (t.keys.map (cmp · key)) := by
  rw [keys, List.map_map]
  exact Ascending.inOrder (h.sublist t.entries_sublist) key

theorem sides_of_locate_child [Std.TransCmp cmp] (h : Ascending cmp t.toList)
    (hloc : locate cmp t.keys key = .child i) (hc : t.children[i]? = some c) :
    Below cmp key (t.listBefore i) ∧ Above cmp key (t.listFrom i) := by
  obtain ⟨hless, hgreater⟩ := answers_of_locate_child (inOrder_keys h key) hloc
  constructor
  · -- the entry just before the child is less, and so is all that lies before it
    obtain _ | j := i
    · exact fun _ ha => absurd ha List.not_mem_nil
    · obtain ⟨k, hk, hlt⟩ := hless j (Nat.lt_succ_self j)
      rw [keys, List.getElem?_map, Option.map_eq_some_iff] at hk
      obtain ⟨a, ha, rfl⟩ := hk
      obtain ⟨l, r, hgap⟩ := exists_gap_around ha
      rw [toList_of_gap hgap, ← List.append_assoc] at h
      have hbefore : Below cmp key (t.listBefore j ++ l.toList) := h.below (by rw [hlt]; decide)
      rw [listBefore_succ (gap?_eq_some.mp hgap).1 ha, ← List.append_assoc]
      intro b hb
      rcases List.mem_append.mp hb with hb | hb
      · exact hbefore b hb
      · rw [List.mem_singleton.mp hb]
        exact hlt
  · -- the entry just behind the child is greater, if there is one, and so is all behind it
    cases ha : t.entries[i]? with
    | none =>
      rw [listFrom_eq_nil (List.getElem?_eq_none_iff.mp ha)]
      exact fun _ hb => absurd hb List.not_mem_nil
    | some a =>
      have hgt : cmp a.key key = .gt :=
        hgreater i a.key (Nat.le_refl i) (by rw [keys, List.getElem?_map, ha, Option.map_some])
      obtain ⟨l, r, hgap⟩ := exists_gap_around ha
      have hfrom := listFrom_eq_cons ha (gap?_eq_some.mp hgap).2.2
      rw [toList_of_child hc, hfrom, ← List.append_assoc] at h
      rw [hfrom]
      exact List.forall_mem_cons.mpr ⟨hgt, h.above (by rw [hgt]; decide)⟩

theorem ascending_child (h : Ascending cmp t.toList) (hc : t.children[i]? = some c) :
    Ascending cmp c.toList := by
  rw [toList_of_child hc] at h
  exact (List.pairwise_append.mp (List.pairwise_append.mp h).2.1).1

/-- **A search that finds nothing has missed nothing.** -/
theorem ne_of_find?_eq_none [Std.TransCmp cmp] (h : Ascending cmp t.toList)
    (hnone : t.find? cmp key = none) : ∀ a ∈ t.toList, cmp a.key key ≠ .eq := by
  fun_induction find? cmp t key with
  | case1 t i hloc =>
    rw [List.getElem?_eq_getElem (locate_slot_lt hloc)] at hnone
    cases hnone
  | case2 t i hloc hchild =>
    rw [toList_eq_nil (isEmpty_of_no_child (locate_child_le hloc) hchild)]
    exact fun _ ha => absurd ha List.not_mem_nil
  | case3 t i hloc c hc ih =>
    obtain ⟨hbefore, hbehind⟩ := sides_of_locate_child h hloc hc
    have hchild := ih (ascending_child h hc) hnone
    rw [toList_of_child hc]
    intro a ha
    rcases List.mem_append.mp ha with ha | ha
    · rw [hbefore a ha]
      decide
    · rcases List.mem_append.mp ha with ha | ha
      · exact hchild a ha
      · rw [hbehind a ha]
        decide

end Tree

end Multiway
