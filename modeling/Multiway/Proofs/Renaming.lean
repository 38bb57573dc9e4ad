import Multiway.Proofs.Refinement
import Multiway.Proofs.Walk

/-!
# Renaming

The entries of a tree get other keys and other values, each in its place. A renaming need not be
injective. Every step on a node commutes with it by cases on the node; so does everything that is
made of such steps and does not compare keys.

* `Renaming`, `Renaming.tree`: every entry renamed in its place;
* `Renaming.Respects`: the new keys compare as the old ones;
* the steps on a node: `Renaming.setChild_tree`, `Renaming.insertEntry_tree` and others;
* **`Renaming.repair_tree`**, `Renaming.removeFirst_tree`, `Renaming.removeLast_tree`: mending a
  node, and the removals at both ends;
* **`Renaming.advances_cursor`**: walks.
-/

namespace Multiway

variable {K V K' V' : Type}

/-- A function of keys and a function of values. -/
structure Renaming (K V K' V' : Type) where
  key : K → K'
  value : V → V'

namespace Renaming

variable (r : Renaming K V K' V')

/-- The new keys compare as the old ones did. -/
def Respects (cmp : Comparison K) (cmp' : Comparison K') : Prop :=
  ∀ a b, cmp' (r.key a) (r.key b) = cmp a b

/-! ## What is renamed -/

/-- The entry with another key and another value. -/
def entry (e : Entry K V) : Entry K' V' := ⟨r.key e.key, r.value e.value⟩

/-- The tree with every entry renamed in its place. -/
def tree : Tree K V → Tree K' V'
  | .empty => .empty
  | .two c₀ a c₁ => .two (tree c₀) (r.entry a) (tree c₁)
  | .three c₀ a c₁ b c₂ => .three (tree c₀) (r.entry a) (tree c₁) (r.entry b) (tree c₂)
  | .four c₀ a c₁ b c₂ c c₃ =>
    .four (tree c₀) (r.entry a) (tree c₁) (r.entry b) (tree c₂) (r.entry c) (tree c₃)

/-- The gap with its entry and both its children renamed. -/
def gap (g : Gap K V) : Gap K' V' := ⟨r.tree g.left, r.entry g.middle, r.tree g.right⟩

/-- What an insertion leaves, renamed. -/
def insertion (ins : Insertion K V) : Insertion K' V' :=
  ⟨r.tree ins.tree, ins.previous.map r.value⟩

/-- What a removal leaves, renamed. -/
def removal (d : Removal K V) : Removal K' V' := ⟨r.tree d.tree, r.entry d.entry, d.short⟩

/-- The answer of an update, renamed. -/
def answer : Answer K V → Answer K' V'
  | .nothing => .nothing
  | .value v => .value (v.map r.value)
  | .entry e => .entry (e.map r.entry)

/-- What an update leaves, renamed. -/
def effect (effect : Effect K V) : Effect K' V' :=
  ⟨effect.root.map r.tree, r.answer effect.answer⟩

/-- The update with the renamed entry or key. -/
def update : Update K V → Update K' V'
  | .insert e => .insert (r.entry e)
  | .erase key => .erase (r.key key)
  | .eraseFirst => .eraseFirst
  | .eraseLast => .eraseLast

/-- The frame at the same slot of the renamed node. -/
def frame (f : Frame K V) : Frame K' V' := ⟨r.tree f.node, f.slot⟩

/-- The cursor at the same place of the renamed tree. -/
def cursor (c : Cursor K V) : Cursor K' V' := ⟨c.stack.map r.frame⟩

/-! ## One node -/

section

variable (t : Tree K V) (i : Nat)

theorem isEmpty_tree : (r.tree t).isEmpty = t.isEmpty := by
  cases t <;> rfl

theorem isFull_tree : (r.tree t).isFull = t.isFull := by
  cases t <;> rfl

theorem isLeaf_tree : (r.tree t).isLeaf = t.isLeaf := by
  cases t <;> simp only [tree, Tree.isLeaf, isEmpty_tree]

theorem entries_tree : (r.tree t).entries = t.entries.map r.entry := by
  cases t <;> rfl

theorem children_tree : (r.tree t).children = t.children.map r.tree := by
  cases t <;> rfl

theorem keys_tree : (r.tree t).keys = t.keys.map r.key := by
  rw [Tree.keys, entries_tree, Tree.keys, List.map_map, List.map_map]
  rfl

theorem getElem?_entries : (r.tree t).entries[i]? = t.entries[i]?.map r.entry := by
  rw [entries_tree, List.getElem?_map]

theorem getElem?_children : (r.tree t).children[i]? = t.children[i]?.map r.tree := by
  rw [children_tree, List.getElem?_map]

theorem child_of_child {c : Tree K V} {i : Nat} (hc : t.children[i]? = some c) :
    (r.tree t).children[i]? = some (r.tree c) := by
  rw [getElem?_children, hc, Option.map_some]

theorem setChild_tree (c : Tree K V) :
    (r.tree t).setChild i (r.tree c) = r.tree (t.setChild i c) := by
  cases t <;> rcases i with _ | _ | _ | _ | i <;> rfl

theorem setEntry_tree (e : Entry K V) :
    (r.tree t).setEntry i (r.entry e) = r.tree (t.setEntry i e) := by
  cases t <;> rcases i with _ | _ | _ | i <;> rfl

theorem writeChild_tree (c : Tree K V) :
    (r.tree t).writeChild i (r.tree c) = r.tree <$> t.writeChild i c := by
  rw [Tree.writeChild, Tree.writeChild, getElem?_children, setChild_tree]
  cases t.children[i]? <;> rfl

theorem writeEntry_tree (e : Entry K V) :
    (r.tree t).writeEntry i (r.entry e) = r.tree <$> t.writeEntry i e := by
  rw [Tree.writeEntry, Tree.writeEntry, getElem?_entries, setEntry_tree]
  cases t.entries[i]? <;> rfl

theorem insertEntry_tree (e : Entry K V) (c : Tree K V) :
    (r.tree t).insertEntry i (r.entry e) (r.tree c) = r.tree <$> t.insertEntry i e c := by
  cases t <;> rcases i with _ | _ | _ | i <;> rfl

theorem append_tree (e : Entry K V) (c : Tree K V) :
    (r.tree t).append (r.entry e) (r.tree c) = r.tree <$> t.append e c := by
  cases t <;> rfl

theorem prepend_tree (c : Tree K V) (e : Entry K V) :
    Tree.prepend (r.tree c) (r.entry e) (r.tree t) = r.tree <$> Tree.prepend c e t := by
  cases t <;> rfl

theorem dropEntry_tree : (r.tree t).dropEntry i = Prod.map r.tree id <$> t.dropEntry i := by
  cases t <;> rcases i with _ | _ | _ | i <;> rfl

theorem split_tree :
    (r.tree t).split = Prod.map r.tree (Prod.map r.entry r.tree) <$> t.split := by
  cases t <;> rfl

theorem overwrite_tree (v : V) :
    (r.tree t).overwrite i (r.value v) = r.insertion <$> t.overwrite i v := by
  rw [Tree.overwrite, Tree.overwrite, getElem?_entries]
  cases t.entries[i]? with
  | none => rfl
  | some e =>
    have hwrite : (r.tree t).writeEntry i ⟨r.key e.key, r.value v⟩ =
        r.tree <$> t.writeEntry i ⟨e.key, v⟩ := r.writeEntry_tree t i ⟨e.key, v⟩
    simp only [Option.map_some, entry, hwrite]
    cases t.writeEntry i ⟨e.key, v⟩ <;> rfl

theorem splitRoot_tree : (r.tree t).splitRoot = r.tree t.splitRoot := by
  cases t <;> rfl

/-- What a node does with the value that was there before. -/
theorem bind_insertEntry (e : Entry K V) (c : Tree K V) (previous : Option V) :
    (do
      let u ← (r.tree t).insertEntry i (r.entry e) (r.tree c)
      return (⟨u, previous.map r.value⟩ : Insertion K' V')) =
    r.insertion <$> (do
      let u ← t.insertEntry i e c
      return ⟨u, previous⟩) := by
  rw [insertEntry_tree]
  cases t.insertEntry i e c <;> rfl

theorem bind_insertEntry_setChild (x : Tree K V) (e : Entry K V) (c : Tree K V)
    (previous : Option V) :
    (do
      let u ← ((r.tree t).setChild i (r.tree x)).insertEntry i (r.entry e) (r.tree c)
      return (⟨u, previous.map r.value⟩ : Insertion K' V')) =
    r.insertion <$> (do
      let u ← (t.setChild i x).insertEntry i e c
      return ⟨u, previous⟩) := by
  rw [setChild_tree]
  exact r.bind_insertEntry (t.setChild i x) i e c previous

/-! ## Mending a node -/

theorem lendLast?_tree : (r.tree t).lendLast? = t.lendLast?.map r.gap := by
  cases t <;> rfl

theorem lendFirst?_tree : (r.tree t).lendFirst? = t.lendFirst?.map r.gap := by
  cases t <;> rfl

theorem gap?_tree : (r.tree t).gap? i = (t.gap? i).map r.gap := by
  rw [Tree.gap?, Tree.gap?, getElem?_children, getElem?_entries, getElem?_children]
  cases t.children[i]? <;> cases t.entries[i]? <;> cases t.children[i + 1]? <;> rfl

theorem setGap_tree (g : Gap K V) : (r.tree t).setGap i (r.gap g) = r.tree (t.setGap i g) := by
  simp only [Tree.setGap, gap, setChild_tree, setEntry_tree]

theorem writeGap?_tree (g : Gap K V) :
    (r.tree t).writeGap? i (r.gap g) = (t.writeGap? i g).map r.tree := by
  rw [Tree.writeGap?, Tree.writeGap?, gap?_tree, setGap_tree, Option.map_map, Option.map_map]
  rfl

theorem closeGap_tree (c : Tree K V) :
    (r.tree t).closeGap i (r.tree c) = Prod.map r.tree id <$> t.closeGap i c := by
  rw [Tree.closeGap, Tree.closeGap, writeChild_tree]
  cases t.writeChild i c with
  | error fault => rfl
  | ok u => exact r.dropEntry_tree u i

theorem rotateFromLeft?_tree :
    (r.tree t).rotateFromLeft? i = (t.rotateFromLeft? i).map r.tree := by
  cases i with
  | zero => rfl
  | succ i =>
    simp only [Tree.rotateFromLeft?, gap?_tree]
    cases t.gap? i with
    | none => rfl
    | some g =>
      simp only [Option.map_some, Option.bind_eq_bind, Option.bind_some, gap, lendLast?_tree]
      cases g.left.lendLast? with
      | none => rfl
      | some loan =>
        exact r.writeGap?_tree t i ⟨loan.left, loan.middle, .two loan.right g.middle g.right⟩

theorem rotateFromRight?_tree :
    (r.tree t).rotateFromRight? i = (t.rotateFromRight? i).map r.tree := by
  simp only [Tree.rotateFromRight?, gap?_tree]
  cases t.gap? i with
  | none => rfl
  | some g =>
    simp only [Option.map_some, Option.bind_eq_bind, Option.bind_some, gap, lendFirst?_tree]
    cases g.right.lendFirst? with
    | none => rfl
    | some loan =>
      exact r.writeGap?_tree t i ⟨.two g.left g.middle loan.left, loan.middle, loan.right⟩

theorem merge_tree : (r.tree t).merge i = Prod.map r.tree id <$> t.merge i := by
  cases i with
  | zero =>
    simp only [Tree.merge, gap?_tree]
    cases t.gap? 0 with
    | none => rfl
    | some g =>
      simp only [Option.map_some, gap, prepend_tree]
      cases Tree.prepend g.left g.middle g.right with
      | error fault => rfl
      | ok c => exact r.closeGap_tree t 0 c
  | succ i =>
    simp only [Tree.merge, gap?_tree]
    cases t.gap? i with
    | none => rfl
    | some g =>
      simp only [Option.map_some, gap, append_tree]
      cases g.left.append g.middle g.right with
      | error fault => rfl
      | ok c => exact r.closeGap_tree t i c

theorem repair_tree : (r.tree t).repair i = Prod.map r.tree id <$> t.repair i := by
  rw [Tree.repair, Tree.repair, isEmpty_tree, rotateFromLeft?_tree, rotateFromRight?_tree,
    ← Option.map_or]
  cases t.isEmpty with
  | true => rfl
  | false =>
    cases (t.rotateFromLeft? i).or (t.rotateFromRight? i) with
    | none => exact r.merge_tree t i
    | some u => rfl

/-! ## Removals that do not compare -/

theorem removeAt_tree : (r.tree t).removeAt i = r.removal <$> t.removeAt i := by
  rw [Tree.removeAt, Tree.removeAt, getElem?_entries]
  cases t.entries[i]? with
  | none => rfl
  | some e =>
    simp only [Option.map_some, dropEntry_tree]
    cases t.dropEntry i <;> rfl

theorem afterRemoval_tree (d : Removal K V) :
    (r.tree t).afterRemoval i (r.removal d) = r.removal <$> t.afterRemoval i d := by
  obtain ⟨c, e, short⟩ := d
  simp only [Tree.afterRemoval, removal, writeChild_tree]
  cases t.writeChild i c with
  | error fault => rfl
  | ok u =>
    cases short with
    | false => rfl
    | true =>
      simp only [bind, Except.bind, Functor.map, Except.map, repair_tree]
      cases u.repair i <;> rfl

/-- What a node does after a removal from its child, if anything was removed there. -/
theorem bind_afterRemoval (below : Except Fault (Option (Removal K V))) :
    (do
      match ← Option.map r.removal <$> below with
      | none => return none
      | some d => some <$> (r.tree t).afterRemoval i d) =
    Option.map r.removal <$> (do
      match ← below with
      | none => return none
      | some d => some <$> t.afterRemoval i d) := by
  obtain fault | _ | d := below
  · rfl
  · rfl
  · have hafter := congrArg (some <$> ·) (r.afterRemoval_tree t i d)
    refine hafter.trans ?_
    change _ = Option.map r.removal <$> some <$> t.afterRemoval i d
    cases t.afterRemoval i d <;> rfl

theorem removeFirst_tree : (r.tree t).removeFirst = Option.map r.removal <$> t.removeFirst := by
  fun_induction Tree.removeFirst t with
  | case1 t hempty =>
    rw [Tree.removeFirst, isEmpty_tree, if_pos hempty]
    rfl
  | case2 t hempty hleaf =>
    rw [Tree.removeFirst, isEmpty_tree, if_neg hempty, isLeaf_tree, if_pos hleaf, removeAt_tree]
    cases t.removeAt 0 <;> rfl
  | case3 t hempty hleaf hnone =>
    rw [Tree.removeFirst, isEmpty_tree, if_neg hempty, isLeaf_tree, if_neg hleaf,
      getElem?_children, hnone]
    rfl
  | case4 t hempty hleaf c hc ih =>
    rw [Tree.removeFirst, isEmpty_tree, if_neg hempty, isLeaf_tree, if_neg hleaf,
      r.child_of_child t hc]
    simp only [ih]
    exact r.bind_afterRemoval t 0 c.removeFirst

theorem removeLast_tree : (r.tree t).removeLast = Option.map r.removal <$> t.removeLast := by
  fun_induction Tree.removeLast t with
  | case1 t hempty =>
    rw [Tree.removeLast, isEmpty_tree, if_pos hempty]
    rfl
  | case2 t last hempty hleaf =>
    rw [Tree.removeLast, isEmpty_tree, if_neg hempty, isLeaf_tree, if_pos hleaf, entries_tree,
      List.length_map, removeAt_tree]
    cases t.removeAt (t.entries.length - 1) <;> rfl
  | case3 t last hempty hleaf hnone =>
    rw [Tree.removeLast, isEmpty_tree, if_neg hempty, isLeaf_tree, if_neg hleaf, entries_tree,
      List.length_map, getElem?_children, hnone]
    rfl
  | case4 t last hempty hleaf c hc ih =>
    rw [Tree.removeLast, isEmpty_tree, if_neg hempty, isLeaf_tree, if_neg hleaf, entries_tree,
      List.length_map, r.child_of_child t hc]
    simp only [ih]
    exact r.bind_afterRemoval t last c.removeLast

theorem removeInner_tree : (r.tree t).removeInner i = Option.map r.removal <$> t.removeInner i := by
  rw [Tree.removeInner, Tree.removeInner, getElem?_entries, getElem?_children]
  cases t.entries[i]? with
  | none => rfl
  | some e =>
    cases t.children[i + 1]? with
    | none => rfl
    | some c =>
      simp only [Option.map_some, removeFirst_tree]
      obtain fault | _ | d := c.removeFirst
      · rfl
      · rfl
      · have hentry : (r.removal d).entry = r.entry d.entry := rfl
        simp only [bind, Except.bind, Functor.map, Except.map, Option.map_some, hentry,
          writeEntry_tree]
        cases t.writeEntry i d.entry with
        | error fault => rfl
        | ok u =>
          simp only [afterRemoval_tree]
          cases u.afterRemoval (i + 1) d <;> rfl

end

/-! ## Cursors -/

theorem settle_map (stack : List (Frame K V)) :
    Cursor.settle (stack.map r.frame) = (Cursor.settle stack).map r.frame := by
  rw [Cursor.settle, List.dropWhile_map, Cursor.settle]
  simp only [Function.comp_def, frame, entries_tree, List.length_map]

theorem descend_map (t : Tree K V) (stack : List (Frame K V)) :
    Cursor.descend (r.tree t) (stack.map r.frame) = (Cursor.descend t stack).map r.frame := by
  induction t generalizing stack with
  | empty => rfl
  | two c₀ a c₁ ih => exact ih (⟨.two c₀ a c₁, 0⟩ :: stack)
  | three c₀ a c₁ b c₂ ih => exact ih (⟨.three c₀ a c₁ b c₂, 0⟩ :: stack)
  | four c₀ a c₁ b c₂ c c₃ ih => exact ih (⟨.four c₀ a c₁ b c₂ c c₃, 0⟩ :: stack)

theorem start_tree (t : Tree K V) : Cursor.start (r.tree t) = r.cursor (Cursor.start t) :=
  congrArg Cursor.mk (r.descend_map t [])

theorem get?_cursor (c : Cursor K V) : (r.cursor c).get? = c.get?.map r.entry := by
  obtain ⟨_ | ⟨f, below⟩⟩ := c
  · rfl
  · exact r.getElem?_entries f.node f.slot

theorem stackDepth_cursor (c : Cursor K V) : (r.cursor c).stackDepth = c.stackDepth :=
  List.length_map ..

theorem advance_cursor (c : Cursor K V) : (r.cursor c).advance = r.cursor <$> c.advance := by
  obtain ⟨_ | ⟨f, below⟩⟩ := c
  · rfl
  · simp only [cursor, List.map_cons, Cursor.advance, frame, getElem?_children]
    cases hc : f.node.children[f.slot + 1]? with
    | none => rfl
    | some child =>
      have hsettle := r.settle_map (⟨f.node, f.slot + 1⟩ :: below)
      have hdescend := r.descend_map child (⟨f.node, f.slot + 1⟩ :: below)
      simp only [List.map_cons, frame] at hsettle hdescend
      simp only [Option.map_some, isEmpty_tree, hsettle, hdescend]
      cases child.isEmpty <;> rfl

/-- **A walk in the renamed tree is the walk in the tree, renamed.** -/
theorem advances_cursor (c : Cursor K V) (n : Nat) :
    (r.cursor c).advances n = r.cursor <$> c.advances n := by
  induction n with
  | zero => rfl
  | succ n ih =>
    rw [Cursor.advances, ih, Cursor.advances]
    cases c.advances n with
    | error fault => rfl
    | ok c' => exact r.advance_cursor c'

end Renaming

end Multiway
