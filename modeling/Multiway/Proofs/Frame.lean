import Multiway.Tree.Repair

/-!
# What a step at one node does to the whole list

A step at child or entry `i` of a node changes the list of the whole tree in one place only. What
lies before child `i` and what lies from entry `i` on stay where they are.

* `Tree.listBefore`: what lies before child `i`;
* `Tree.exists_child`, `Tree.exists_gap`, `Tree.match_child`: the children that are there;
* `Tree.toList_of_child`, `Tree.toList_of_gap`: the list, cut at a child or around an entry;
* `Tree.getLast?_listBefore`, `Tree.head?_listFrom`: the entries on both sides of a child;
* `Tree.toList_setChild`, `Tree.toList_insertEntry`, `Tree.toList_setEntry`,
  `Tree.toList_setGap`, `Tree.toList_closeGap`: the list after a step.
-/

namespace Multiway

namespace Tree

variable {K V : Type} {t t' c : Tree K V} {e : Entry K V} {g : Gap K V} {i : Nat}

/-- What lies before child `i` of the root node: the first `i` children, each with the entry to its
right. -/
def listBefore (t : Tree K V) (i : Nat) : List (Entry K V) :=
  ((t.children.zip t.entries).take i).flatMap fun b => b.1.toList ++ [b.2]

theorem listBefore_zero (t : Tree K V) : t.listBefore 0 = [] := rfl

theorem listBefore_succ (hc : t.children[i]? = some c) (he : t.entries[i]? = some e) :
    t.listBefore (i + 1) = t.listBefore i ++ (c.toList ++ [e]) := by
  have hz : (t.children.zip t.entries)[i]? = some (c, e) :=
    List.getElem?_zip_eq_some.mpr ⟨hc, he⟩
  rw [listBefore, List.take_add_one, hz, List.flatMap_append, listBefore]
  simp

/-! ## Children and gaps -/

theorem gap?_eq_some : t.gap? i = some g ↔
    t.children[i]? = some g.left ∧ t.entries[i]? = some g.middle ∧
      t.children[i + 1]? = some g.right := by
  obtain ⟨l, m, r⟩ := g
  simp only [gap?, Option.bind_eq_bind, Option.bind_eq_some_iff, Option.pure_def,
    Option.some.injEq, Gap.mk.injEq]
  constructor
  · rintro ⟨l, hl, m, hm, r, hr, rfl, rfl, rfl⟩
    exact ⟨hl, hm, hr⟩
  · rintro ⟨hl, hm, hr⟩
    exact ⟨l, hl, m, hm, r, hr, rfl, rfl, rfl⟩

theorem length_children_eq (h : t.isEmpty = false) : t.children.length = t.entries.length + 1 := by
  cases t <;> first | rfl | cases h

theorem entries_length_pos (hempty : t.isEmpty = false) : 0 < t.entries.length := by
  cases t <;> first | exact Nat.zero_lt_succ _ | cases hempty

theorem exists_child (h : t.isEmpty = false) (hi : i ≤ t.entries.length) :
    ∃ c, t.children[i]? = some c := by
  have hlen : i < t.children.length := by
    rw [length_children_eq h]
    omega
  exact ⟨_, List.getElem?_eq_getElem hlen⟩

theorem isEmpty_of_child (hc : t.children[i]? = some c) : t.isEmpty = false := by
  cases t <;> first | rfl | cases hc

theorem isEmpty_of_no_child (hi : i ≤ t.entries.length) (hnone : t.children[i]? = none) :
    t.isEmpty = true := by
  cases hempty : t.isEmpty with
  | true => rfl
  | false =>
    obtain ⟨c, hc⟩ := exists_child hempty hi
    rw [hc] at hnone
    cases hnone

/-- A descent that asks for a child goes on with it, if it is there. -/
theorem match_child {β : Type} {none' : t.children[i]? = none → β}
    {some' : (d : Tree K V) → t.children[i]? = some d → β} (hc : t.children[i]? = some c) :
    (match h : t.children[i]? with
      | none => none' h
      | some d => some' d h) = some' c hc := by
  split
  · next hnone =>
    rw [hc] at hnone
    cases hnone
  · next d hd =>
    obtain rfl : d = c := Option.some.inj (hd.symm.trans hc)
    rfl

theorem exists_gap (hi : i < t.entries.length) : ∃ g, t.gap? i = some g := by
  have hempty : t.isEmpty = false := by
    cases t <;> first | rfl | cases hi
  obtain ⟨l, hl⟩ := exists_child hempty (Nat.le_of_lt hi)
  obtain ⟨r, hr⟩ := exists_child hempty hi
  exact ⟨⟨l, t.entries[i], r⟩, gap?_eq_some.mpr ⟨hl, List.getElem?_eq_getElem hi, hr⟩⟩

theorem exists_gap_around (he : t.entries[i]? = some e) : ∃ l r, t.gap? i = some ⟨l, e, r⟩ := by
  obtain ⟨⟨l, m, r⟩, hgap⟩ := exists_gap (List.getElem?_eq_some_iff.mp he).1
  obtain rfl : m = e := Option.some.inj ((gap?_eq_some.mp hgap).2.1.symm.trans he)
  exact ⟨l, r, hgap⟩

theorem exists_gap_before (hc : t.children[i + 1]? = some c) :
    ∃ l m, t.gap? i = some ⟨l, m, c⟩ := by
  have hlength := length_children_eq (isEmpty_of_child hc)
  have hi := (List.getElem?_eq_some_iff.mp hc).1
  obtain ⟨⟨l, m, r⟩, hgap⟩ := exists_gap (t := t) (i := i) (by omega)
  obtain rfl : r = c := Option.some.inj ((gap?_eq_some.mp hgap).2.2.symm.trans hc)
  exact ⟨l, m, hgap⟩

/-! ## Cutting the list -/

theorem toList_of_child (hc : t.children[i]? = some c) :
    t.toList = t.listBefore i ++ (c.toList ++ t.listFrom i) := by
  cases t <;> rcases i with _ | _ | _ | _ | i <;> cases hc <;>
    simp [toList, listBefore, listFrom, children, entries]

theorem toList_of_gap (h : t.gap? i = some g) :
    t.toList =
      t.listBefore i ++ (g.left.toList ++ g.middle :: (g.right.toList ++ t.listFrom (i + 1))) := by
  obtain ⟨hl, hm, hr⟩ := gap?_eq_some.mp h
  rw [toList_of_child hl, listFrom_eq_cons hm hr]

theorem getLast?_listBefore (hc : t.children[i]? = some c) :
    (t.listBefore i).getLast? = if i = 0 then none else t.entries[i - 1]? := by
  obtain _ | i := i
  · rfl
  · obtain ⟨l, m, hgap⟩ := exists_gap_before hc
    obtain ⟨hl, hm, -⟩ := gap?_eq_some.mp hgap
    rw [listBefore_succ hl hm, ← List.append_assoc, List.getLast?_concat,
      if_neg (Nat.succ_ne_zero i), Nat.add_sub_cancel, hm]

theorem head?_listFrom (t : Tree K V) (i : Nat) : (t.listFrom i).head? = t.entries[i]? := by
  cases he : t.entries[i]? with
  | none => rw [listFrom_eq_nil (List.getElem?_eq_none_iff.mp he), List.head?_nil]
  | some e =>
    obtain ⟨l, r, hgap⟩ := exists_gap_around he
    rw [listFrom_eq_cons he (gap?_eq_some.mp hgap).2.2, List.head?_cons]

/-! ## The list after a step -/

theorem listBefore_setChild (t : Tree K V) (i : Nat) (x : Tree K V) :
    (t.setChild i x).listBefore i = t.listBefore i := by
  cases t <;> rcases i with _ | _ | _ | _ | i <;> rfl

theorem listFrom_setChild (t : Tree K V) (i : Nat) (x : Tree K V) :
    (t.setChild i x).listFrom i = t.listFrom i := by
  cases t <;> rcases i with _ | _ | _ | _ | i <;> rfl

theorem getElem?_setChild_self (hc : t.children[i]? = some c) (x : Tree K V) :
    (t.setChild i x).children[i]? = some x := by
  rw [children_setChild]
  exact List.getElem?_set_self (List.getElem?_eq_some_iff.mp hc).1

theorem toList_setChild (hc : t.children[i]? = some c) (x : Tree K V) :
    (t.setChild i x).toList = t.listBefore i ++ (x.toList ++ t.listFrom i) := by
  rw [toList_of_child (getElem?_setChild_self hc x), listBefore_setChild, listFrom_setChild]

theorem toList_insertEntry {r : Tree K V} (hc : t.children[i]? = some c)
    (h : t.insertEntry i e r = .ok t') :
    t'.toList = t.listBefore i ++ (c.toList ++ e :: (r.toList ++ t.listFrom i)) := by
  cases t <;> rcases i with _ | _ | _ | _ | i <;> cases hc <;> cases h <;>
    simp [toList, listBefore, listFrom, children, entries]

theorem toList_of_split {l r : Tree K V} {m : Entry K V} (hsplit : c.split = .ok (l, m, r)) :
    c.toList = l.toList ++ m :: r.toList := by
  cases c <;> cases hsplit
  simp [toList]

theorem toList_insertEntry_setChild {l r : Tree K V} {m : Entry K V}
    (hc : t.children[i]? = some c) (hinsert : (t.setChild i l).insertEntry i m r = .ok t') :
    t'.toList = t.listBefore i ++ (l.toList ++ m :: r.toList ++ t.listFrom i) := by
  rw [toList_insertEntry (getElem?_setChild_self hc l) hinsert, listBefore_setChild,
    listFrom_setChild]
  simp only [List.append_assoc, List.cons_append]

theorem toList_setGap (h : t.gap? i = some g) (g' : Gap K V) :
    (t.setGap i g').toList =
      t.listBefore i ++
        (g'.left.toList ++ g'.middle :: (g'.right.toList ++ t.listFrom (i + 1))) := by
  obtain ⟨hl, hm, hr⟩ := gap?_eq_some.mp h
  cases t <;> rcases i with _ | _ | _ | i <;> cases hm <;>
    simp [setGap, setChild, setEntry, toList, listBefore, listFrom, children, entries]

theorem toList_setEntry (h : t.gap? i = some g) (e : Entry K V) :
    (t.setEntry i e).toList =
      t.listBefore i ++ (g.left.toList ++ e :: (g.right.toList ++ t.listFrom (i + 1))) := by
  obtain ⟨hl, hm, hr⟩ := gap?_eq_some.mp h
  cases t <;> rcases i with _ | _ | _ | i <;> cases hm <;> cases hl <;> cases hr <;>
    simp [setEntry, toList, listBefore, listFrom, children, entries]

theorem toList_closeGap {short : Bool} (h : t.gap? i = some g)
    (hclose : t.closeGap i c = .ok (t', short)) :
    t'.toList = t.listBefore i ++ (c.toList ++ t.listFrom (i + 1)) := by
  obtain ⟨hl, hm, hr⟩ := gap?_eq_some.mp h
  cases t <;> rcases i with _ | _ | _ | i <;> cases hm <;> cases hclose <;>
    simp [toList, listBefore, listFrom, children, entries]

end Tree

end Multiway
