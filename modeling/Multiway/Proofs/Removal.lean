import Multiway.Proofs.Repair
import Multiway.Proofs.Search
import Multiway.Tree.Delete

/-!
# What a removal takes out

In a balanced tree no removal fails. The entry that goes is the first one, the last one, or the one
at which the search for a key stops; all other entries stay in their order. The tree is balanced
again, and a level shorter only if its root had a single entry.

* `Tree.Removed`: what a removal from a balanced tree leaves;
* `Tree.exists_removeAt`, `Tree.exists_afterRemoval`: one step at the bottom, and on the way up;
* **`Tree.exists_removeFirst`**, **`Tree.exists_removeLast`**, **`Tree.exists_removeBelow`**;
* **`Tree.exists_erase`**, `Tree.erase_eq_none`: removal of a key from the whole tree.
-/

namespace Multiway

namespace Tree

variable {K V : Type} {cmp : Comparison K} {key : K} {t c : Tree K V} {e : Entry K V}
  {g : Gap K V} {r r' : Removal K V} {before behind : List (Entry K V)} {h i : Nat}

/-- From the tree `t` of height `h + 1` the entry between `before` and `behind` has been taken
out. -/
structure Removed (t : Tree K V) (h : Nat) (before behind : List (Entry K V)) (r : Removal K V) :
    Prop where
  toList_of : t.toList = before ++ r.entry :: behind
  toList_eq : r.tree.toList = before ++ behind
  hasHeight : r.tree.HasHeight (if r.short then h else h + 1)
  arity_of_short : r.short = true → t.arity = 2

theorem Removed.balanced (hremoved : Removed t h before behind r) : r.tree.Balanced :=
  ⟨_, hremoved.hasHeight⟩

/-! ## One step -/

theorem setChild_self (hc : t.children[i]? = some c) : t.setChild i c = t := by
  cases t <;> rcases i with _ | _ | _ | _ | i <;> cases hc <;> rfl

theorem arity_setChild (t : Tree K V) (i : Nat) (x : Tree K V) :
    (t.setChild i x).arity = t.arity := by
  rw [← length_children, children_setChild, List.length_set, length_children]

theorem exists_removeAt (ht : t.HasHeight 1) (hgap : t.gap? i = some g) :
    ∃ r, t.removeAt i = .ok r ∧ r.entry = g.middle ∧
      Removed t 0 (t.listBefore i ++ g.left.toList) (g.right.toList ++ t.listFrom (i + 1)) r := by
  obtain ⟨hl, hm, hr⟩ := gap?_eq_some.mp hgap
  obtain ⟨t', hclose⟩ := exists_closeGap hgap g.left
  have hdrop : t.dropEntry i = .ok (t', t.arity == 2) := by
    rw [← hclose, closeGap_of_child hl, setChild_self hl]
  have hright : g.right.toList = [] := toList_eq_nil (hasHeight_zero_iff.mp (ht.child hr))
  refine ⟨⟨t', g.middle, t.arity == 2⟩, ?_, rfl, ?_, ?_, ?_, ?_⟩
  · simp only [removeAt, hm, hdrop, bind, Except.bind, pure, Except.pure]
  · rw [toList_of_gap hgap, List.append_assoc]
  · rw [toList_closeGap hgap hclose, hright, List.append_assoc]
    rfl
  · exact hasHeight_closeGap hgap hclose (ht.child hl) fun j d _ _ hd => ht.child hd
  · exact beq_iff_eq.mp

theorem exists_afterRemoval (ht : t.HasHeight (h + 2)) (hc : t.children[i]? = some c)
    (hr : Removed c h before behind r) :
    ∃ r', t.afterRemoval i r = .ok r' ∧ r'.entry = r.entry ∧
      Removed t (h + 1) (t.listBefore i ++ before) (behind ++ t.listFrom i) r' := by
  have hof : t.toList = t.listBefore i ++ before ++ r.entry :: (behind ++ t.listFrom i) := by
    rw [toList_of_child hc, hr.toList_of]
    simp only [List.append_assoc, List.cons_append]
  have hlist : (t.setChild i r.tree).toList =
      t.listBefore i ++ before ++ (behind ++ t.listFrom i) := by
    rw [toList_setChild hc, hr.toList_eq]
    simp only [List.append_assoc]
  have hheight := hr.hasHeight
  cases hshort : r.short with
  | false =>
    rw [hshort] at hheight
    refine ⟨⟨t.setChild i r.tree, r.entry, false⟩, ?_, rfl, hof, hlist, ht.setChild hheight,
      fun hfalse => absurd hfalse Bool.false_ne_true⟩
    rw [afterRemoval_of_child hc, if_neg (by rw [hshort]; exact Bool.false_ne_true)]
  | true =>
    -- the node with the shorter child in place is what the repair is given
    rw [hshort] at hheight
    have hat : (t.setChild i r.tree).ShortAt i h := by
      refine ⟨by rw [isEmpty_setChild, ht.isEmpty_eq], ⟨_, getElem?_setChild_self hc _, hheight⟩,
        fun j d hj hd => ?_⟩
      rw [children_setChild, List.getElem?_set_ne (Ne.symm hj)] at hd
      exact ht.child hd
    obtain ⟨t', short, hrepair, hmended⟩ := exists_repair hat
    refine ⟨⟨t', r.entry, short⟩, ?_, rfl, hof, hmended.toList_eq.trans hlist,
      hmended.hasHeight, fun htrue => ?_⟩
    · rw [afterRemoval_of_child hc, if_pos hshort, hrepair]
      rfl
    · rw [← arity_setChild t i r.tree]
      exact (hmended.short_iff.mp htrue).1

/-! ## The way down

A removal that goes through in a child goes through in its node, if the node can be mended. -/

theorem removeFirst_of_child (hleaf : t.isLeaf = false) (hc : t.children[0]? = some c)
    (hr : c.removeFirst = .ok (some r)) (hafter : t.afterRemoval 0 r = .ok r') :
    t.removeFirst = .ok (some r') := by
  rw [removeFirst, isEmpty_of_child hc, hleaf]
  simp only [Bool.false_eq_true, if_false]
  refine (match_child hc).trans ?_
  simp only [hr, bind, Except.bind, hafter, Functor.map, Except.map]

theorem removeLast_of_child (hleaf : t.isLeaf = false)
    (hc : t.children[t.entries.length]? = some c) (hr : c.removeLast = .ok (some r))
    (hafter : t.afterRemoval t.entries.length r = .ok r') : t.removeLast = .ok (some r') := by
  rw [removeLast, isEmpty_of_child hc, hleaf]
  simp only [Bool.false_eq_true, if_false]
  refine (match_child hc).trans ?_
  simp only [hr, bind, Except.bind, hafter, Functor.map, Except.map]

theorem removeBelow_of_child (hloc : locate cmp t.keys key = .child i) (hleaf : t.isLeaf = false)
    (hc : t.children[i]? = some c) (hr : c.removeBelow cmp key = .ok (some r))
    (hafter : t.afterRemoval i r = .ok r') : t.removeBelow cmp key = .ok (some r') := by
  rw [removeBelow, hloc, hleaf]
  simp only [Bool.false_eq_true, if_false]
  refine (match_child hc).trans ?_
  simp only [hr, bind, Except.bind, hafter, Functor.map, Except.map]

/-! ## The first and the last entry -/

theorem exists_removeFirst (ht : t.HasHeight (h + 1)) :
    ∃ r behind, t.removeFirst = .ok (some r) ∧ Removed t h [] behind r := by
  have hempty := ht.isEmpty_eq
  induction h generalizing t with
  | zero =>
    obtain ⟨g, hgap⟩ := exists_gap (entries_length_pos hempty)
    obtain ⟨r, hr, -, hremoved⟩ := exists_removeAt ht hgap
    have hleft : g.left.toList = [] :=
      toList_eq_nil (hasHeight_zero_iff.mp (ht.child (gap?_eq_some.mp hgap).1))
    rw [listBefore_zero, hleft] at hremoved
    refine ⟨r, _, ?_, hremoved⟩
    rw [removeFirst, hempty, ht.isLeaf_iff.mpr rfl, hr]
    rfl
  | succ h ih =>
    obtain ⟨c, hc⟩ := exists_child hempty (Nat.zero_le _)
    have hheight := ht.child hc
    obtain ⟨r, behind, hr, hremoved⟩ := ih hheight hheight.isEmpty_eq
    obtain ⟨r', hr', -, hremoved'⟩ := exists_afterRemoval ht hc hremoved
    exact ⟨r', _, removeFirst_of_child ht.isLeaf_eq_false hc hr hr', hremoved'⟩

theorem exists_removeLast (ht : t.HasHeight (h + 1)) :
    ∃ r before, t.removeLast = .ok (some r) ∧ Removed t h before [] r := by
  have hempty := ht.isEmpty_eq
  induction h generalizing t with
  | zero =>
    have hpos := entries_length_pos hempty
    obtain ⟨g, hgap⟩ := exists_gap (t := t) (i := t.entries.length - 1) (by omega)
    obtain ⟨r, hr, -, hremoved⟩ := exists_removeAt ht hgap
    have hright : g.right.toList = [] :=
      toList_eq_nil (hasHeight_zero_iff.mp (ht.child (gap?_eq_some.mp hgap).2.2))
    rw [hright, listFrom_eq_nil (by omega)] at hremoved
    refine ⟨r, _, ?_, hremoved⟩
    rw [removeLast, hempty, ht.isLeaf_iff.mpr rfl]
    simp only [Bool.false_eq_true, if_false, if_true, hr, Functor.map, Except.map]
  | succ h ih =>
    obtain ⟨c, hc⟩ := exists_child hempty (Nat.le_refl _)
    have hheight := ht.child hc
    obtain ⟨r, before, hr, hremoved⟩ := ih hheight hheight.isEmpty_eq
    obtain ⟨r', hr', -, hremoved'⟩ := exists_afterRemoval ht hc hremoved
    rw [listFrom_eq_nil (Nat.le_refl _)] at hremoved'
    exact ⟨r', _, removeLast_of_child ht.isLeaf_eq_false hc hr hr', hremoved'⟩

/-! ## The entry of a key -/

/-- The entry of a gap is replaced by its successor. -/
theorem exists_removeInner (ht : t.HasHeight (h + 2)) (hgap : t.gap? i = some g) :
    ∃ r, t.removeInner i = .ok (some r) ∧ r.entry = g.middle ∧
      Removed t (h + 1) (t.listBefore i ++ g.left.toList)
        (g.right.toList ++ t.listFrom (i + 1)) r := by
  obtain ⟨hl, hm, hr⟩ := gap?_eq_some.mp hgap
  obtain ⟨next, behind, hnext, hremoved⟩ := exists_removeFirst (ht.child hr)
  -- the successor is in place before its own removal is reported upwards
  obtain ⟨r, hafter, -, hremoved'⟩ := exists_afterRemoval (ht.setEntry (i := i) (e := next.entry))
    (by rwa [children_setEntry]) hremoved
  refine ⟨⟨r.tree, g.middle, r.short⟩, ?_, rfl, ?_, ?_, hremoved'.hasHeight, ?_⟩
  · simp only [removeInner, hm, hr, hnext, writeEntry_ok hm, hafter, bind, Except.bind, pure,
      Except.pure]
  · rw [toList_of_gap hgap, List.append_assoc]
  · have hentry : (t.setEntry i next.entry).entries[i]? = some next.entry := by
      rw [entries_setEntry, List.getElem?_set_self (List.getElem?_eq_some_iff.mp hm).1]
    have hbefore : (t.setEntry i next.entry).listBefore i = t.listBefore i := by
      cases t <;> rcases i with _ | _ | _ | i <;> rfl
    have hfrom : (t.setEntry i next.entry).listFrom (i + 1) = t.listFrom (i + 1) := by
      cases t <;> rcases i with _ | _ | _ | i <;> rfl
    rw [hremoved'.toList_eq, hremoved.toList_of,
      listBefore_succ (by rwa [children_setEntry]) hentry, hbefore, hfrom]
    simp only [List.append_assoc, List.cons_append, List.nil_append]
  · intro hshort
    rw [← hremoved'.arity_of_short hshort, ← length_children, ← length_children,
      children_setEntry]

theorem exists_removeBelow (hfound : Finds cmp key t before e behind) (ht : t.HasHeight h) :
    ∃ k r, h = k + 1 ∧ t.removeBelow cmp key = .ok (some r) ∧ r.entry = e ∧
      Removed t k before behind r := by
  induction hfound generalizing h with
  | atSlot hloc hgap =>
    obtain ⟨k, rfl⟩ := ht.exists_eq_succ (isEmpty_of_child (gap?_eq_some.mp hgap).1)
    obtain _ | k := k
    · obtain ⟨r, hr, hentry, hremoved⟩ := exists_removeAt ht hgap
      refine ⟨0, r, rfl, ?_, hentry, hremoved⟩
      rw [removeBelow, hloc, ht.isLeaf_iff.mpr rfl]
      simp only [if_true, hr, Functor.map, Except.map]
    · obtain ⟨r, hr, hentry, hremoved⟩ := exists_removeInner ht hgap
      refine ⟨k + 1, r, rfl, ?_, hentry, hremoved⟩
      rw [removeBelow, hloc, ht.isLeaf_eq_false]
      exact hr
  | inChild hloc hc _ ih =>
    obtain ⟨k, rfl⟩ := ht.exists_eq_succ (isEmpty_of_child hc)
    obtain ⟨k, r, rfl, hr, hentry, hremoved⟩ := ih (ht.child hc)
    obtain ⟨r', hr', hentry', hremoved'⟩ := exists_afterRemoval ht hc hremoved
    exact ⟨k + 1, r', rfl, removeBelow_of_child hloc ht.isLeaf_eq_false hc hr hr',
      hentry'.trans hentry, hremoved'⟩

theorem erase_eq_none (hnone : t.find? cmp key = none) : t.erase cmp key = .ok none := by
  rw [erase, contains_eq_isSome_find?, hnone]
  rfl

/-- **A key that is found can be removed** from a balanced tree. -/
theorem exists_erase (hfound : Finds cmp key t before e behind) (ht : t.HasHeight h) :
    ∃ k r, h = k + 1 ∧ t.erase cmp key = .ok (some r) ∧ r.entry = e ∧
      Removed t k before behind r := by
  rw [erase, contains_eq_isSome_find?, find?_eq_some_iff.mpr ⟨before, behind, hfound⟩]
  exact exists_removeBelow hfound ht

end Tree

end Multiway
