import Multiway.Proofs.History

/-!
# The ways a removal can go

A removal goes down to a leaf and takes an entry out there. On the way back every node takes in what
is left of its child, and mends it if it is short. All removals share this way back; they differ
only in the child to which they go down, and in the middle of the tree an entry is replaced by its
successor.

* `Tree.Removes`: the ways, as a relation between a tree and what a removal leaves;
* `Tree.removes_of_removeFirst`, `Tree.removes_of_removeLast`, **`Tree.removes_of_erase`**: every
  removal that goes through has gone one of them;
* `Edit.isRemoval`, `Tree.Withdrawal`, **`Change.exists_withdrawal`**: the removals from a balanced
  tree.
-/

namespace Multiway

variable {K V : Type}

namespace Tree

variable {cmp : Comparison K} {key : K} {t : Tree K V} {r : Removal K V} {i : Nat}

/-- What a removal from a subtree may leave. -/
inductive Removes : Tree K V → Removal K V → Prop
  | atLeaf {t : Tree K V} {r : Removal K V} {i : Nat} (hleaf : t.isLeaf = true)
      (hr : t.removeAt i = .ok r) : Removes t r
  | inChild {t c : Tree K V} {r r' : Removal K V} {i : Nat} (hleaf : t.isLeaf = false)
      (hc : t.children[i]? = some c) (hbelow : Removes c r) (hr : t.afterRemoval i r = .ok r') :
      Removes t r'
  | inner {t c : Tree K V} {next r : Removal K V} {e : Entry K V} {i : Nat}
      (hleaf : t.isLeaf = false) (he : t.entries[i]? = some e) (hc : t.children[i + 1]? = some c)
      (hbelow : Removes c next)
      (hr : (t.setEntry i next.entry).afterRemoval (i + 1) next = .ok r) :
      Removes t ⟨r.tree, e, r.short⟩

/-! ## What has gone through -/

theorem exists_below_of_afterRemoval {answer : Except Fault (Option (Removal K V))}
    (h : (do
      match ← answer with
      | none => return none
      | some below => some <$> t.afterRemoval i below) = .ok (some r)) :
    ∃ below, answer = .ok (some below) ∧ t.afterRemoval i below = .ok r := by
  cases answer with
  | error fault => cases h
  | ok answer =>
    cases answer with
    | none => cases h
    | some below => exact ⟨below, rfl, eq_ok_of_map_some h⟩

theorem removes_of_removeFirst (h : t.removeFirst = .ok (some r)) : t.Removes r := by
  fun_induction removeFirst t generalizing r with
  | case1 => cases h
  | case2 t _ hleaf => exact .atLeaf hleaf (eq_ok_of_map_some h)
  | case3 => cases h
  | case4 t _ hleaf c hc ih =>
    obtain ⟨below, hbelow, hr⟩ := exists_below_of_afterRemoval h
    exact .inChild (Bool.eq_false_iff.mpr hleaf) hc (ih hbelow) hr

theorem removes_of_removeLast (h : t.removeLast = .ok (some r)) : t.Removes r := by
  fun_induction removeLast t generalizing r
  case case1 => cases h
  case case2 t last hempty hleaf => exact .atLeaf hleaf (eq_ok_of_map_some h)
  case case3 => cases h
  case case4 t last hempty hleaf c hc ih =>
    obtain ⟨below, hbelow, hr⟩ := exists_below_of_afterRemoval h
    exact .inChild (Bool.eq_false_iff.mpr hleaf) hc (ih hbelow) hr

theorem removes_of_removeInner (hleaf : t.isLeaf = false) (h : t.removeInner i = .ok (some r)) :
    t.Removes r := by
  unfold removeInner at h
  split at h
  · next e c he hc =>
    obtain ⟨answer, hanswer, h⟩ := bind_eq_ok_iff.mp h
    cases answer with
    | none => cases h
    | some next =>
      obtain ⟨u, hwrite, h⟩ := bind_eq_ok_iff.mp h
      obtain ⟨r, hr, h⟩ := bind_eq_ok_iff.mp h
      cases h
      cases hwrite.symm.trans (writeEntry_ok he _)
      exact .inner hleaf he hc (removes_of_removeFirst hanswer) hr
  · cases h

theorem removes_of_removeBelow (h : t.removeBelow cmp key = .ok (some r)) : t.Removes r := by
  fun_induction removeBelow cmp t key generalizing r with
  | case1 t i _ hleaf => exact .atLeaf hleaf (eq_ok_of_map_some h)
  | case2 t i _ hleaf => exact removes_of_removeInner (Bool.eq_false_iff.mpr hleaf) h
  | case3 => cases h
  | case4 => cases h
  | case5 t i _ hleaf c hc ih =>
    obtain ⟨below, hbelow, hr⟩ := exists_below_of_afterRemoval h
    exact .inChild (Bool.eq_false_iff.mpr hleaf) hc (ih hbelow) hr

theorem removes_of_erase (h : t.erase cmp key = .ok (some r)) : t.Removes r := by
  unfold erase at h
  split at h
  · exact removes_of_removeBelow h
  · cases h

end Tree

/-! ## Removals from a balanced tree -/

section

variable {t : Tree K V} {h : Nat}

/-- Whether the update takes an entry out. -/
def Edit.isRemoval : Edit K V → Bool
  | insert .. => false
  | erase .. | eraseFirst | eraseLast => true

/-- What a removal leaves of a tree of height `h`: the tree as it was, or the tree without one
entry, which has gone one of the ways. -/
inductive Tree.Withdrawal (t : Tree K V) (h : Nat) : Tree K V → Prop
  | untouched : Withdrawal t h t
  | removed {before behind : List (Entry K V)} {r : Removal K V} {k : Nat} (hk : h = k + 1)
      (hremoved : t.Removed k before behind r) (hways : t.Removes r) : Withdrawal t h r.tree

/-- **Every removal from a balanced tree goes through**, and takes out one entry at most. -/
theorem Change.exists_withdrawal {edit : Edit K V} (hedit : edit.isRemoval = true)
    (ht : t.HasHeight h) :
    ∃ u, (Change.edit edit).apply t = .ok u ∧ t.Withdrawal h u := by
  cases edit with
  | insert => cases hedit
  | erase cmp key =>
    cases hfind : t.find? cmp key with
    | none =>
      refine ⟨t, ?_, .untouched⟩
      rw [apply, Edit.apply, Tree.erase_eq_none hfind, Tree.contains_eq_isSome_find?,
        hfind]
      rfl
    | some e =>
      obtain ⟨before, behind, hfound⟩ := Tree.find?_eq_some_iff.mp hfind
      obtain ⟨k, r, hk, hok, -, hremoved⟩ := Tree.exists_erase hfound ht
      exact ⟨r.tree, by rw [apply, Edit.apply, hok]; rfl,
        .removed hk hremoved (Tree.removes_of_erase hok)⟩
  | eraseFirst =>
    obtain _ | k := h
    · obtain rfl := Tree.isEmpty_iff.mp (Tree.hasHeight_zero_iff.mp ht)
      exact ⟨_, by rw [apply, Edit.apply, Tree.removeFirst]; rfl, .untouched⟩
    · obtain ⟨r, behind, hok, hremoved⟩ := Tree.exists_removeFirst ht
      exact ⟨r.tree, by rw [apply, Edit.apply, hok]; rfl,
        .removed rfl hremoved (Tree.removes_of_removeFirst hok)⟩
  | eraseLast =>
    obtain _ | k := h
    · obtain rfl := Tree.isEmpty_iff.mp (Tree.hasHeight_zero_iff.mp ht)
      exact ⟨_, by rw [apply, Edit.apply, Tree.removeLast]; rfl, .untouched⟩
    · obtain ⟨r, before, hok, hremoved⟩ := Tree.exists_removeLast ht
      exact ⟨r.tree, by rw [apply, Edit.apply, hok]; rfl,
        .removed rfl hremoved (Tree.removes_of_removeLast hok)⟩

end

end Multiway
