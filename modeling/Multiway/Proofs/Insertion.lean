import Multiway.Proofs.Balance
import Multiway.Proofs.Search
import Multiway.Tree.Insert

/-!
# The ways an insertion can go

An insertion never fails, on no tree and for no comparison. It goes one of seven ways at every node
that it enters, and what one of them does to a tree is all there is to know about insertion.

* `Tree.Inserts`: the seven ways, as a relation between a tree and what an insertion leaves;
* **`Tree.exists_inserts`**: from a root that is not full, one of them is always open;
* `Tree.insertBelow_of_child`: what insertion does in a node that is no leaf;
* `Tree.splitRoot`, **`Tree.exists_insert`**: the same for insertion into any tree;
* `Tree.Inserts.hasHeight`: below the root no way gets longer.
-/

namespace Multiway

namespace Tree

variable {K V : Type} {cmp : Comparison K} {t : Tree K V} {e : Entry K V}
  {ins : Insertion K V} {h : Nat}

/-- What an insertion of `e` into a tree whose root is not full may leave. -/
inductive Inserts (cmp : Comparison K) (e : Entry K V) : Tree K V → Insertion K V → Prop
  | bottom : Inserts cmp e empty ⟨leaf e, none⟩
  | overwrite {t : Tree K V} {i : Nat} {a : Entry K V}
      (hloc : locate cmp t.keys e.key = .slot i) (ha : t.entries[i]? = some a) :
      Inserts cmp e t ⟨t.setEntry i ⟨a.key, e.value⟩, some a.value⟩
  | atLeaf {t t' : Tree K V} {i : Nat} (hloc : locate cmp t.keys e.key = .child i)
      (hleaf : t.isLeaf = true) (hinsert : t.insertEntry i e empty = .ok t') :
      Inserts cmp e t ⟨t', none⟩
  | descend {t c : Tree K V} {i : Nat} {ins : Insertion K V}
      (hloc : locate cmp t.keys e.key = .child i) (hleaf : t.isLeaf = false)
      (hc : t.children[i]? = some c) (hbelow : Inserts cmp e c ins) :
      Inserts cmp e t ⟨t.setChild i ins.tree, ins.previous⟩
  | splitLeft {t t' c l r : Tree K V} {i : Nat} {m : Entry K V} {ins : Insertion K V}
      (hloc : locate cmp t.keys e.key = .child i) (hleaf : t.isLeaf = false)
      (hc : t.children[i]? = some c) (hsplit : c.split = .ok (l, m, r))
      (hm : cmp e.key m.key = .lt) (hbelow : Inserts cmp e l ins)
      (hinsert : (t.setChild i ins.tree).insertEntry i m r = .ok t') :
      Inserts cmp e t ⟨t', ins.previous⟩
  | splitRight {t t' c l r : Tree K V} {i : Nat} {m : Entry K V} {ins : Insertion K V}
      (hloc : locate cmp t.keys e.key = .child i) (hleaf : t.isLeaf = false)
      (hc : t.children[i]? = some c) (hsplit : c.split = .ok (l, m, r))
      (hm : cmp e.key m.key = .gt) (hbelow : Inserts cmp e r ins)
      (hinsert : (t.setChild i l).insertEntry i m ins.tree = .ok t') :
      Inserts cmp e t ⟨t', ins.previous⟩
  | splitMiddle {t t' c l r : Tree K V} {i : Nat} {m : Entry K V}
      (hloc : locate cmp t.keys e.key = .child i) (hleaf : t.isLeaf = false)
      (hc : t.children[i]? = some c) (hsplit : c.split = .ok (l, m, r))
      (hm : cmp e.key m.key = .eq)
      (hinsert : (t.setChild i l).insertEntry i ⟨m.key, e.value⟩ r = .ok t') :
      Inserts cmp e t ⟨t', some m.value⟩

/-! ## One way is always open -/

theorem isFull_setChild (t : Tree K V) (i : Nat) (x : Tree K V) :
    (t.setChild i x).isFull = t.isFull := by
  cases t <;> rcases i with _ | _ | _ | _ | i <;> rfl

theorem exists_insertEntry {i : Nat} (hempty : t.isEmpty = false) (hfull : t.isFull = false)
    (hi : i ≤ t.entries.length) (x : Tree K V) (m : Entry K V) (r : Tree K V) :
    ∃ t', (t.setChild i x).insertEntry i m r = .ok t' := by
  rw [← isEmpty_setChild t i x] at hempty
  rw [← isFull_setChild t i x] at hfull
  rw [← entries_setChild t i x] at hi
  obtain ⟨t', ht', -⟩ := insertEntry_ok m r hempty hfull hi
  exact ⟨t', ht'⟩

theorem isFull_of_split {c l r : Tree K V} {m : Entry K V} (h : c.split = .ok (l, m, r)) :
    l.isFull = false ∧ r.isFull = false := by
  cases c <;> cases h
  exact ⟨rfl, rfl⟩

theorem exists_split {c : Tree K V} (h : c.isFull = true) : ∃ p, c.split = .ok p := by
  cases c <;> cases h
  exact ⟨_, rfl⟩

theorem not_split_of_room {c l r : Tree K V} {m : Entry K V} (h : c.isFull = false) :
    c.split ≠ .ok (l, m, r) := by
  intro hsplit
  cases c <;> cases hsplit
  cases h

/-- **Insertion into a tree whose root is not full never fails.** -/
theorem exists_inserts (cmp : Comparison K) (t : Tree K V) (e : Entry K V)
    (hfull : t.isFull = false) : ∃ ins, t.insertBelow cmp e = .ok ins ∧ Inserts cmp e t ins := by
  -- one case for every branch; those that answer with a fault are ruled out by the counts
  fun_induction insertBelow cmp t e with
  | case1 t hempty =>
    cases t with
    | empty => exact ⟨_, rfl, .bottom⟩
    | _ => cases hempty
  | case2 t hempty i hloc =>
    have ha := List.getElem?_eq_getElem (locate_slot_lt hloc)
    exact ⟨_, overwrite_ok ha e.value, .overwrite hloc ha⟩
  | case3 t hempty i hloc hleaf =>
    obtain ⟨t', ht', -⟩ := insertEntry_ok e empty (Bool.eq_false_iff.mpr hempty) hfull
      (locate_child_le hloc)
    exact ⟨_, by rw [ht']; rfl, .atLeaf hloc hleaf ht'⟩
  | case4 t hempty i hloc hleaf hnone =>
    exact absurd (isEmpty_of_no_child (locate_child_le hloc) hnone) hempty
  | case5 t hempty i hloc hleaf c hc hcfull fault herror =>
    obtain ⟨p, hp⟩ := exists_split hcfull
    rw [hp] at herror
    cases herror
  | case6 t hempty i hloc hleaf c hc hcfull l m r hsplit hm ih =>
    obtain ⟨ins, hok, hins⟩ := ih (isFull_of_split hsplit).1
    obtain ⟨t', ht'⟩ := exists_insertEntry (Bool.eq_false_iff.mpr hempty) hfull
      (locate_child_le hloc) ins.tree m r
    refine ⟨⟨t', ins.previous⟩, ?_, .splitLeft hloc (Bool.eq_false_iff.mpr hleaf) hc hsplit
      hm hins ht'⟩
    simp only [hok, writeChild_ok hc, ht', bind, Except.bind, pure, Except.pure]
  | case7 t hempty i hloc hleaf c hc hcfull l m r hsplit hm ih =>
    obtain ⟨ins, hok, hins⟩ := ih (isFull_of_split hsplit).2
    obtain ⟨t', ht'⟩ := exists_insertEntry (Bool.eq_false_iff.mpr hempty) hfull
      (locate_child_le hloc) l m ins.tree
    refine ⟨⟨t', ins.previous⟩, ?_, .splitRight hloc (Bool.eq_false_iff.mpr hleaf) hc hsplit
      hm hins ht'⟩
    simp only [hok, writeChild_ok hc, ht', bind, Except.bind, pure, Except.pure]
  | case8 t hempty i hloc hleaf c hc hcfull l m r hsplit hm =>
    obtain ⟨t', ht'⟩ := exists_insertEntry (Bool.eq_false_iff.mpr hempty) hfull
      (locate_child_le hloc) l ⟨m.key, e.value⟩ r
    refine ⟨⟨t', some m.value⟩, ?_, .splitMiddle hloc (Bool.eq_false_iff.mpr hleaf) hc hsplit
      hm ht'⟩
    simp only [writeChild_ok hc, ht', bind, Except.bind, pure, Except.pure]
  | case9 t hempty i hloc hleaf c hc hcfull ih =>
    obtain ⟨ins, hok, hins⟩ := ih (Bool.eq_false_iff.mpr hcfull)
    refine ⟨⟨t.setChild i ins.tree, ins.previous⟩, ?_, .descend hloc
      (Bool.eq_false_iff.mpr hleaf) hc hins⟩
    simp only [hok, writeChild_ok hc, bind, Except.bind, pure, Except.pure]

theorem insertBelow_of_child {c : Tree K V} {i : Nat}
    (hempty : ¬t.isEmpty = true) (hloc : locate cmp t.keys e.key = .child i)
    (hleaf : ¬t.isLeaf = true) (hc : t.children[i]? = some c) :
    t.insertBelow cmp e =
      if c.isFull then do
        let (l, m, u) ← c.split
        match cmp e.key m.key with
        | .lt => do
          let below ← l.insertBelow cmp e
          return ⟨← (t.setChild i below.tree).insertEntry i m u, below.previous⟩
        | .gt => do
          let below ← u.insertBelow cmp e
          return ⟨← (t.setChild i l).insertEntry i m below.tree, below.previous⟩
        | .eq => return ⟨← (t.setChild i l).insertEntry i ⟨m.key, e.value⟩ u, some m.value⟩
      else do
        let below ← c.insertBelow cmp e
        return ⟨t.setChild i below.tree, below.previous⟩ := by
  rw [insertBelow, if_neg hempty, hloc]
  simp only
  rw [if_neg hleaf, hc]
  simp only [writeChild_ok hc]
  split
  · split
    · next fault hsplit => rw [hsplit]; rfl
    · next l m u hsplit => rw [hsplit]; rfl
  · rfl

/-! ## The root -/

/-- The tree with a full root split into two. -/
def splitRoot : Tree K V → Tree K V
  | four c₀ a c₁ b c₂ c c₃ => two (two c₀ a c₁) b (two c₂ c c₃)
  | t => t

theorem insert_eq (cmp : Comparison K) (t : Tree K V) (e : Entry K V) :
    t.insert cmp e = t.splitRoot.insertBelow cmp e := by
  cases t <;> rfl

theorem isFull_splitRoot (t : Tree K V) : t.splitRoot.isFull = false := by
  cases t <;> rfl

theorem splitRoot_of_room (h : t.isFull = false) : t.splitRoot = t := by
  cases t <;> first | rfl | cases h

theorem splitRoot_of_split {l r : Tree K V} {m : Entry K V} (h : t.split = .ok (l, m, r)) :
    t.splitRoot = two l m r ∧ l.isEmpty = false := by
  cases t <;> cases h
  exact ⟨rfl, rfl⟩

theorem toList_splitRoot (t : Tree K V) : t.splitRoot.toList = t.toList := by
  cases t <;> simp [splitRoot, toList]

theorem HasHeight.splitRoot (ht : t.HasHeight h) :
    t.splitRoot.HasHeight (if t.isFull then h + 1 else h) := by
  cases t with
  | four =>
    obtain _ | h := h
    · exact absurd (hasHeight_zero_iff.mp ht) (by simp [isEmpty])
    · obtain ⟨h₀, h₁, h₂, h₃⟩ := hasHeight_four.mp ht
      exact hasHeight_two.mpr ⟨hasHeight_two.mpr ⟨h₀, h₁⟩, hasHeight_two.mpr ⟨h₂, h₃⟩⟩
  | _ => exact ht

theorem exists_insert (cmp : Comparison K) (t : Tree K V) (e : Entry K V) :
    ∃ ins, t.insert cmp e = .ok ins ∧ Inserts cmp e t.splitRoot ins := by
  rw [insert_eq]
  exact exists_inserts cmp t.splitRoot e t.isFull_splitRoot

/-! ## Heights -/

/-- **A balanced tree stays balanced**, and keeps its height if it had a node. -/
theorem Inserts.hasHeight (hins : Inserts cmp e t ins) (ht : t.HasHeight (h + 1)) :
    ins.tree.HasHeight (h + 1) := by
  induction hins generalizing h with
  | bottom => exact absurd ht.isEmpty_eq (by simp [isEmpty])
  | overwrite => exact ht.setEntry
  | atLeaf _ hleaf hinsert =>
    obtain rfl := ht.isLeaf_iff.mp hleaf
    exact ht.insertEntry hasHeight_empty hinsert
  | descend _ hleaf hc _ ih =>
    obtain ⟨k, rfl⟩ := ht.exists_succ hleaf
    exact ht.setChild (ih (ht.child hc))
  | splitLeft _ hleaf hc hsplit _ _ hinsert ih =>
    obtain ⟨k, rfl⟩ := ht.exists_succ hleaf
    obtain ⟨hl, hr⟩ := (ht.child hc).split hsplit
    exact (ht.setChild (ih hl)).insertEntry hr hinsert
  | splitRight _ hleaf hc hsplit _ _ hinsert ih =>
    obtain ⟨k, rfl⟩ := ht.exists_succ hleaf
    obtain ⟨hl, hr⟩ := (ht.child hc).split hsplit
    exact (ht.setChild hl).insertEntry (ih hr) hinsert
  | splitMiddle _ hleaf hc hsplit _ hinsert =>
    obtain ⟨k, rfl⟩ := ht.exists_succ hleaf
    obtain ⟨hl, hr⟩ := (ht.child hc).split hsplit
    exact (ht.setChild hl).insertEntry hr hinsert

theorem Inserts.eq_bottom (hins : Inserts cmp e empty ins) : ins = ⟨leaf e, none⟩ := by
  cases hins with
  | bottom => rfl
  | overwrite _ ha => cases ha
  | atLeaf _ _ hinsert => cases hinsert
  | descend _ hleaf | splitLeft _ hleaf | splitRight _ hleaf | splitMiddle _ hleaf => cases hleaf

theorem Balanced.splitRoot_cases (ht : t.Balanced) :
    t = empty ∨ ∃ h, t.splitRoot.HasHeight (h + 1) := by
  obtain ⟨h, ht⟩ := ht
  cases t with
  | empty => exact .inl rfl
  | four => exact .inr ⟨h, ht.splitRoot⟩
  | _ =>
    obtain ⟨k, rfl⟩ := ht.exists_eq_succ rfl
    exact .inr ⟨k, ht⟩

theorem Inserts.balanced (hins : Inserts cmp e t.splitRoot ins) (ht : t.Balanced) :
    ins.tree.Balanced := by
  rcases ht.splitRoot_cases with rfl | ⟨h, hroot⟩
  · rw [hins.eq_bottom]
    exact ⟨1, hasHeight_leaf e⟩
  · exact ⟨h + 1, hins.hasHeight hroot⟩

end Tree

end Multiway
