import Multiway.Proofs.Seek

/-!
# Lookups as scans of the list

A lookup goes down one way through the tree and sees only a few of its entries. What it returns is
what a scan of the whole list would return.

* `Tree.findGE?_of_child`, **`Tree.Cuts.findGE?_eq`**: the search from a bound on, told by the cut;
* **`Tree.filter_eq_find?`**: all entries with a key, told by the search for it;
* **`lookup_eq_scan`**: the lookups in a tree that passes the check, and the ends of any tree.
-/

namespace Multiway

variable {K V : Type}

namespace Tree

variable {cmp : Comparison K} {key : K} {t c : Tree K V} {i : Nat}
  {before behind : List (Entry K V)}

theorem findGE?_of_child (hloc : locate cmp t.keys key = .child i) (hc : t.children[i]? = some c) :
    t.findGE? cmp key = (c.findGE? cmp key).or t.entries[i]? := by
  rw [findGE?, hloc]
  exact match_child hc

theorem findGE?_empty (cmp : Comparison K) (key : K) :
    (empty : Tree K V).findGE? cmp key = none := by
  rw [findGE?]
  rfl

theorem Cuts.findGE?_eq (hcut : Cuts cmp key t before behind) :
    t.findGE? cmp key = behind.head? := by
  induction hcut with
  | atBottom hempty => rw [isEmpty_iff.mp hempty, findGE?_empty, List.head?_nil]
  | atSlot hloc hgap =>
    rw [findGE?, hloc]
    exact (gap?_eq_some.mp hgap).2.1
  | inChild hloc hc _ ih =>
    -- what the child holds from the bound on comes before the entry to its right
    rw [findGE?_of_child hloc hc, ih, List.head?_append, head?_listFrom]

theorem filter_eq_find? [Std.TransCmp cmp] (h : Ascending cmp t.toList) (key : K) :
    t.toList.filter (cmp ·.key key == .eq) = (t.find? cmp key).toList := by
  cases hfind : t.find? cmp key with
  | none =>
    refine List.filter_eq_nil_iff.mpr fun a ha => ?_
    rw [beq_iff_eq]
    exact ne_of_find?_eq_none h hfind a ha
  | some e =>
    obtain ⟨before, behind, hfound⟩ := find?_eq_some_iff.mp hfind
    have hanswer := hfound.answer
    rw [hfound.toList_eq] at h ⊢
    have hbefore : Below cmp key before := h.below (by rw [hanswer]; decide)
    have hbehind : Above cmp key behind := h.above (by rw [hanswer]; decide)
    rw [List.filter_append, List.filter_eq_nil_iff.mpr fun a ha => by simp [hbefore a ha],
      List.filter_cons_of_pos (by rw [hanswer]; rfl),
      List.filter_eq_nil_iff.mpr fun b hb => by simp [hbehind b hb]]
    rfl

end Tree

/-- **A lookup returns what a scan of the whole list returns.** -/
theorem lookup_eq_scan (t : Tree K V) :
    (∀ (cmp : Comparison K) (key : K) (d : Nat), Std.TransCmp cmp → t.validate cmp = .ok d →
        t.toList.countP (cmp ·.key key == .eq) ≤ 1 ∧
          t.find? cmp key = t.toList.find? (cmp ·.key key == .eq) ∧
          t.get? cmp key = (t.toList.find? (cmp ·.key key == .eq)).map Entry.value ∧
          t.contains cmp key = t.toList.any (cmp ·.key key == .eq) ∧
          t.findGE? cmp key = t.toList.find? (cmp ·.key key != .lt)) ∧
      (t.min? = t.toList.head? ∧ t.max? = t.toList.getLast?) ∧
      (t.min? = none ↔ t = .empty) ∧ (t.max? = none ↔ t = .empty) := by
  refine ⟨fun cmp key d hcmp hvalid => ?_, ⟨t.min?_eq_head?, t.max?_eq_getLast?⟩,
    Tree.min?_eq_none_iff, Tree.max?_eq_none_iff⟩
  have h := (Tree.validate_eq_ok_iff.mp hvalid).1
  have hfilter := Tree.filter_eq_find? h key
  have hfind : t.find? cmp key = t.toList.find? (cmp ·.key key == .eq) := by
    rw [← List.head?_filter, hfilter, Option.head?_toList]
  obtain ⟨before, behind, hcut⟩ := t.exists_cuts cmp key
  refine ⟨?_, hfind, congrArg (Option.map Entry.value) hfind, ?_, ?_⟩
  · rw [List.countP_eq_length_filter, hfilter]
    cases t.find? cmp key with
    | none => exact Nat.zero_le 1
    | some e => exact Nat.le_refl 1
  · rw [Tree.contains_eq_isSome_find?, hfind, Bool.eq_iff_iff, List.find?_isSome, List.any_eq_true]
  · rw [hcut.findGE?_eq, (hcut.split h).2, List.head?_filter]

/-- Integers by magnitude: in place of -3 a search finds the entry of 3, and from 4 on comes -5. -/
theorem lookup_eq_scan_byMagnitude :
    let t : Tree Int64 Nat :=
      .two (.leaf ⟨-1, 10⟩) ⟨2, 20⟩ (.three .empty ⟨3, 30⟩ .empty ⟨-5, 50⟩ .empty)
    Std.TransCmp Comparison.byMagnitude ∧ t.validate Comparison.byMagnitude = .ok 2 ∧
      t.toList.countP (Comparison.byMagnitude ·.key (-3) == .eq) ≤ 1 ∧
      t.find? Comparison.byMagnitude (-3) = some ⟨3, 30⟩ ∧
      t.get? Comparison.byMagnitude 4 = none ∧ t.contains Comparison.byMagnitude 1 = true ∧
      t.findGE? Comparison.byMagnitude 4 = some ⟨-5, 50⟩ ∧
      t.min? = some ⟨-1, 10⟩ ∧ t.max? = some ⟨-5, 50⟩ ∧ t.max? ≠ none := by
  intro t
  have hcmp : Std.TransCmp Comparison.byMagnitude := inferInstanceAs (Std.TransCmp (compareOn _))
  have hvalid : t.validate Comparison.byMagnitude = .ok 2 := by decide
  obtain ⟨hlaw, ⟨hmin, hmax⟩, -, hnone⟩ := lookup_eq_scan t
  obtain ⟨hcount, hfind, -⟩ := hlaw Comparison.byMagnitude (-3) 2 hcmp hvalid
  obtain ⟨-, -, hget, -, hge⟩ := hlaw Comparison.byMagnitude 4 2 hcmp hvalid
  obtain ⟨-, -, -, hcontains, -⟩ := hlaw Comparison.byMagnitude 1 2 hcmp hvalid
  exact ⟨hcmp, hvalid, hcount, hfind.trans (by decide), hget.trans (by decide),
    hcontains.trans (by decide), hge.trans (by decide), hmin.trans (by decide),
    hmax.trans (by decide), fun h => absurd (hnone.mp h) (by decide)⟩

end Multiway
