import Multiway.Proofs.Renaming

/-!
# Keys and values are opaque

No decision of the library looks at a key but through the comparison, and none looks at a value. So
if the entries of a tree are renamed, and the new keys compare as the old ones did, every operation
gives what it gave before, renamed. The comparison need not be an order and the tree may have any
shape. Even what fails does so on both sides, for the same reason.

Every descent is followed by induction on its own recursion: at each node the old and the new keys
give the same answers, so both sides take the same way.

* `Renaming.locate_keys`: the search in a node;
* the lookups: `Renaming.find?_tree`, `Renaming.findLT?_tree` and others;
* the updates: `Renaming.insertBelow_tree`, `Renaming.removeBelow_tree`, and together
  **`Renaming.apply_edit`**, `Renaming.updates_tree`;
* `Renaming.seek_tree`: the cursor at a key;
* **`operations_renamed`**: all operations.
-/

namespace Multiway

variable {K V K' V' : Type}

namespace Renaming

variable (r : Renaming K V K' V')

/-! ## Lookups -/

theorem partitionPoint_keys {test : K → Bool} {test' : K' → Bool}
    (h : ∀ a, test' (r.key a) = test a) (ks : List K) :
    partitionPoint test' (ks.map r.key) = partitionPoint test ks := by
  rw [partitionPoint, partitionPoint, List.map_map]
  simp only [Function.comp_def, h]

theorem min?_tree (t : Tree K V) : (r.tree t).min? = t.min?.map r.entry := by
  induction t with
  | empty => rfl
  | two _ _ _ ih | three _ _ _ _ _ ih | four _ _ _ _ _ _ _ ih =>
    rw [tree, Tree.min?, Tree.min?, ih, Option.map_or, Option.map_some]

theorem max?_tree (t : Tree K V) : (r.tree t).max? = t.max?.map r.entry := by
  induction t with
  | empty => rfl
  | two _ _ _ _ ih | three _ _ _ _ _ _ _ ih | four _ _ _ _ _ _ _ _ _ _ ih =>
    rw [tree, Tree.max?, Tree.max?, ih, Option.map_or, Option.map_some]

theorem middle?_tree (t : Tree K V) : (r.tree t).middle? = t.middle?.map r.entry := by
  rw [Tree.middle?, getElem?_entries, entries_tree, List.length_map, Tree.middle?]

section

variable {r} {cmp : Comparison K} {cmp' : Comparison K'}

theorem locate_keys (h : r.Respects cmp cmp') (t : Tree K V) (key : K) :
    locate cmp' (r.tree t).keys (r.key key) = locate cmp t.keys key := by
  rw [keys_tree, locate, locate, List.map_map]
  simp only [Function.comp_def, h _ _]

theorem find?_tree (h : r.Respects cmp cmp') (t : Tree K V) (key : K) :
    (r.tree t).find? cmp' (r.key key) = (t.find? cmp key).map r.entry := by
  fun_induction Tree.find? cmp t key with
  | case1 t i hloc =>
    rw [Tree.find?, locate_keys h, hloc]
    exact r.getElem?_entries t i
  | case2 t i hloc hnone =>
    rw [Tree.find?, locate_keys h, hloc]
    simp only
    rw [getElem?_children, hnone]
    rfl
  | case3 t i hloc c hc ih =>
    rw [Tree.find?, locate_keys h, hloc]
    simp only
    rw [r.child_of_child t hc]
    exact ih

theorem get?_tree (h : r.Respects cmp cmp') (t : Tree K V) (key : K) :
    (r.tree t).get? cmp' (r.key key) = (t.get? cmp key).map r.value := by
  rw [Tree.get?, find?_tree h, Tree.get?, Option.map_map, Option.map_map]
  rfl

theorem contains_tree (h : r.Respects cmp cmp') (t : Tree K V) (key : K) :
    (r.tree t).contains cmp' (r.key key) = t.contains cmp key := by
  rw [Tree.contains_eq_isSome_find?, find?_tree h, Tree.contains_eq_isSome_find?,
    Option.isSome_map]

theorem findGE?_tree (h : r.Respects cmp cmp') (t : Tree K V) (bound : K) :
    (r.tree t).findGE? cmp' (r.key bound) = (t.findGE? cmp bound).map r.entry := by
  fun_induction Tree.findGE? cmp t bound with
  | case1 t i hloc =>
    rw [Tree.findGE?, locate_keys h, hloc]
    exact r.getElem?_entries t i
  | case2 t i hloc hnone =>
    rw [Tree.findGE?, locate_keys h, hloc]
    simp only
    rw [getElem?_children, hnone]
    rfl
  | case3 t i hloc c hc ih =>
    rw [Tree.findGE?, locate_keys h, hloc]
    simp only
    rw [r.child_of_child t hc]
    simp only [ih, getElem?_entries, Option.map_or]

theorem findLT?_tree (h : r.Respects cmp cmp') (t : Tree K V) (bound : K) :
    (r.tree t).findLT? cmp' (r.key bound) = (t.findLT? cmp bound).map r.entry := by
  have htest (t : Tree K V) : partitionPoint (cmp' · (r.key bound) == .lt) (r.tree t).keys =
      partitionPoint (cmp · bound == .lt) t.keys := by
    rw [keys_tree, r.partitionPoint_keys fun a => by rw [h a bound]]
  fun_induction Tree.findLT? cmp t bound with
  | case1 t i hnone =>
    rw [Tree.findLT?, htest, getElem?_children, hnone]
    rfl
  | case2 t i c hc ih =>
    rw [Tree.findLT?, htest, r.child_of_child t hc]
    simp only [ih, Option.map_or]
    split
    · rfl
    · rw [getElem?_entries]

theorem findGT?_tree (h : r.Respects cmp cmp') (t : Tree K V) (bound : K) :
    (r.tree t).findGT? cmp' (r.key bound) = (t.findGT? cmp bound).map r.entry := by
  have htest (t : Tree K V) : partitionPoint (cmp' · (r.key bound) != .gt) (r.tree t).keys =
      partitionPoint (cmp · bound != .gt) t.keys := by
    rw [keys_tree, r.partitionPoint_keys fun a => by rw [h a bound]]
  fun_induction Tree.findGT? cmp t bound with
  | case1 t i hnone =>
    rw [Tree.findGT?, htest, getElem?_children, hnone]
    rfl
  | case2 t i c hc ih =>
    rw [Tree.findGT?, htest, r.child_of_child t hc]
    simp only [ih, getElem?_entries, Option.map_or, i]

/-! ## Updates -/

theorem removeBelow_tree (h : r.Respects cmp cmp') (t : Tree K V) (key : K) :
    (r.tree t).removeBelow cmp' (r.key key) = Option.map r.removal <$> t.removeBelow cmp key := by
  fun_induction Tree.removeBelow cmp t key with
  | case1 t i hloc hleaf =>
    rw [Tree.removeBelow, locate_keys h, hloc]
    simp only
    rw [isLeaf_tree, if_pos hleaf, removeAt_tree]
    cases t.removeAt i <;> rfl
  | case2 t i hloc hleaf =>
    rw [Tree.removeBelow, locate_keys h, hloc]
    simp only
    rw [isLeaf_tree, if_neg hleaf, removeInner_tree]
  | case3 t i hloc hleaf =>
    rw [Tree.removeBelow, locate_keys h, hloc]
    simp only
    rw [isLeaf_tree, if_pos hleaf]
    rfl
  | case4 t i hloc hleaf hnone =>
    rw [Tree.removeBelow, locate_keys h, hloc]
    simp only
    rw [isLeaf_tree, if_neg hleaf, getElem?_children, hnone]
    rfl
  | case5 t i hloc hleaf c hc ih =>
    rw [Tree.removeBelow, locate_keys h, hloc]
    simp only
    rw [isLeaf_tree, if_neg hleaf, r.child_of_child t hc]
    simp only [ih]
    exact r.bind_afterRemoval t i (c.removeBelow cmp key)

theorem erase_tree (h : r.Respects cmp cmp') (t : Tree K V) (key : K) :
    (r.tree t).erase cmp' (r.key key) = Option.map r.removal <$> t.erase cmp key := by
  rw [Tree.erase, contains_tree h, Tree.erase]
  cases t.contains cmp key with
  | true => exact removeBelow_tree h t key
  | false => rfl

theorem insertBelow_tree (h : r.Respects cmp cmp') (t : Tree K V) (e : Entry K V) :
    (r.tree t).insertBelow cmp' (r.entry e) = r.insertion <$> t.insertBelow cmp e := by
  have hloc' (t : Tree K V) : locate cmp' (r.tree t).keys (r.entry e).key =
      locate cmp t.keys e.key := locate_keys h t e.key
  have hentry' (m : Entry K V) : cmp' (r.entry e).key (r.entry m).key = cmp e.key m.key :=
    h e.key m.key
  have hchild {t c : Tree K V} {i : Nat} (hempty : ¬t.isEmpty = true)
      (hloc : locate cmp t.keys e.key = .child i) (hleaf : ¬t.isLeaf = true)
      (hc : t.children[i]? = some c) :=
    Tree.insertBelow_of_child (t := r.tree t) (e := r.entry e) (by rwa [isEmpty_tree])
      ((hloc' t).trans hloc) (by rwa [isLeaf_tree]) (r.child_of_child t hc)
  fun_induction Tree.insertBelow cmp t e with
  | case1 t hempty =>
    rw [Tree.insertBelow, isEmpty_tree, if_pos hempty]
    rfl
  | case2 t hempty i hloc =>
    rw [Tree.insertBelow, isEmpty_tree, if_neg hempty, hloc', hloc]
    exact r.overwrite_tree t i e.value
  | case3 t hempty i hloc hleaf =>
    rw [Tree.insertBelow, isEmpty_tree, if_neg hempty, hloc', hloc]
    simp only
    rw [isLeaf_tree, if_pos hleaf]
    exact r.bind_insertEntry t i e .empty none
  | case4 t hempty i hloc hleaf hnone =>
    rw [Tree.insertBelow, isEmpty_tree, if_neg hempty, hloc', hloc]
    simp only
    rw [isLeaf_tree, if_neg hleaf, getElem?_children, hnone]
    rfl
  | case5 t hempty i hloc hleaf c hc hfull fault hsplit =>
    rw [hchild hempty hloc hleaf hc, isFull_tree, if_pos hfull, split_tree, hsplit]
    rfl
  | case6 t hempty i hloc hleaf c hc hfull l m u hsplit hm ih =>
    rw [hchild hempty hloc hleaf hc, isFull_tree, if_pos hfull, split_tree, hsplit]
    simp only [Functor.map, Except.map, Prod.map, bind, Except.bind, hentry', hm, ih,
      Tree.writeChild_ok hc]
    cases l.insertBelow cmp e with
    | error fault => rfl
    | ok below => exact r.bind_insertEntry_setChild t i below.tree m u below.previous
  | case7 t hempty i hloc hleaf c hc hfull l m u hsplit hm ih =>
    rw [hchild hempty hloc hleaf hc, isFull_tree, if_pos hfull, split_tree, hsplit]
    simp only [Functor.map, Except.map, Prod.map, bind, Except.bind, hentry', hm, ih,
      Tree.writeChild_ok hc]
    cases u.insertBelow cmp e with
    | error fault => rfl
    | ok below => exact r.bind_insertEntry_setChild t i l m below.tree below.previous
  | case8 t hempty i hloc hleaf c hc hfull l m u hsplit hm =>
    rw [hchild hempty hloc hleaf hc, isFull_tree, if_pos hfull, split_tree, hsplit]
    simp only [Functor.map, Except.map, Prod.map, bind, Except.bind, hentry', hm,
      Tree.writeChild_ok hc]
    exact r.bind_insertEntry_setChild t i l ⟨m.key, e.value⟩ u (some m.value)
  | case9 t hempty i hloc hleaf c hc hfull ih =>
    rw [hchild hempty hloc hleaf hc, isFull_tree, if_neg hfull, ih]
    simp only [Tree.writeChild_ok hc]
    cases c.insertBelow cmp e with
    | error fault => rfl
    | ok below =>
      have hset := r.setChild_tree t i below.tree
      exact congrArg (fun u => Except.ok (Insertion.mk u (below.previous.map r.value))) hset

theorem insert_tree (h : r.Respects cmp cmp') (t : Tree K V) (e : Entry K V) :
    (r.tree t).insert cmp' (r.entry e) = r.insertion <$> t.insert cmp e := by
  rw [Tree.insert_eq, Tree.insert_eq, splitRoot_tree, insertBelow_tree h]

/-- **An update of the renamed tree is the update of the tree, renamed.** -/
theorem apply_edit (h : r.Respects cmp cmp') (t : Tree K V) (update : Update K V) :
    ((r.update update).edit cmp').apply (r.tree t) =
      r.effect <$> (update.edit cmp).apply t := by
  cases update with
  | insert e =>
    simp only [Renaming.update, Update.edit, Edit.apply, insert_tree h]
    cases t.insert cmp e <;> rfl
  | erase key =>
    simp only [Renaming.update, Update.edit, Edit.apply, erase_tree h, contains_tree h, isLeaf_tree]
    obtain fault | _ | d := t.erase cmp key
    · rfl
    · simp only [bind, Except.bind, pure, Except.pure, Functor.map, Except.map, Option.map_none,
        effect, apply_ite (Option.map r.tree), Option.map_some]
      rfl
    · rfl
  | eraseFirst =>
    simp only [Renaming.update, Update.edit, Edit.apply, removeFirst_tree, isEmpty_tree]
    obtain fault | _ | d := t.removeFirst
    · rfl
    · cases t.isEmpty <;> rfl
    · rfl
  | eraseLast =>
    simp only [Renaming.update, Update.edit, Edit.apply, removeLast_tree, isEmpty_tree]
    obtain fault | _ | d := t.removeLast
    · rfl
    · cases t.isEmpty <;> rfl
    · rfl

theorem updates_tree (h : r.Respects cmp cmp') (t : Tree K V) (updates : List (Update K V)) :
    (r.tree t).updates cmp' (updates.map r.update) =
      List.map (Prod.map r.tree r.answer) <$> t.updates cmp updates := by
  induction updates generalizing t with
  | nil => rfl
  | cons update later ih =>
    simp only [List.map_cons, Tree.updates, apply_edit h]
    cases (update.edit cmp).apply t with
    | error fault => rfl
    | ok effect =>
      obtain ⟨root, answer⟩ := effect
      have hroot : (root.map r.tree).getD (r.tree t) = r.tree (root.getD t) := by
        cases root <;> rfl
      simp only [bind, Except.bind, Functor.map, Except.map, Renaming.effect, hroot, ih]
      cases (root.getD t).updates cmp later <;> rfl

/-! ## Walks -/

theorem seekFrom_tree (h : r.Respects cmp cmp') (key : K) (t : Tree K V)
    (stack : List (Frame K V)) :
    Cursor.seekFrom cmp' (r.key key) (r.tree t) (stack.map r.frame) =
      (Cursor.seekFrom cmp key t stack).map r.frame := by
  fun_induction Cursor.seekFrom cmp key t stack with
  | case1 t stack i hloc =>
    rw [Cursor.seekFrom, locate_keys h, hloc]
    rfl
  | case2 t stack i hloc hnone =>
    rw [Cursor.seekFrom, locate_keys h, hloc]
    simp only
    rw [getElem?_children, hnone]
    exact r.settle_map stack
  | case3 t stack i hloc c hc ih =>
    rw [Cursor.seekFrom, locate_keys h, hloc]
    simp only
    rw [r.child_of_child t hc]
    exact ih

theorem seek_tree (h : r.Respects cmp cmp') (t : Tree K V) (key : K) :
    Cursor.seek cmp' (r.tree t) (r.key key) = r.cursor (Cursor.seek cmp t key) :=
  congrArg Cursor.mk (seekFrom_tree h key t [])

end

end Renaming

/-- **Keys and values are opaque**, as long as the new keys compare as the old ones did. -/
theorem operations_renamed (r : Renaming K V K' V') {cmp : Comparison K} {cmp' : Comparison K'}
    (h : r.Respects cmp cmp') (t : Tree K V) :
    (∀ update : Update K V,
      ((r.update update).edit cmp').apply (r.tree t) = r.effect <$> (update.edit cmp).apply t) ∧
    (∀ updates : List (Update K V),
      (r.tree t).updates cmp' (updates.map r.update) =
        List.map (Prod.map r.tree r.answer) <$> t.updates cmp updates) ∧
    (∀ key,
      (r.tree t).find? cmp' (r.key key) = (t.find? cmp key).map r.entry ∧
      (r.tree t).get? cmp' (r.key key) = (t.get? cmp key).map r.value ∧
      (r.tree t).contains cmp' (r.key key) = t.contains cmp key ∧
      (r.tree t).findLT? cmp' (r.key key) = (t.findLT? cmp key).map r.entry ∧
      (r.tree t).findGT? cmp' (r.key key) = (t.findGT? cmp key).map r.entry ∧
      (r.tree t).findGE? cmp' (r.key key) = (t.findGE? cmp key).map r.entry) ∧
    ((r.tree t).min? = t.min?.map r.entry ∧ (r.tree t).max? = t.max?.map r.entry ∧
      (r.tree t).middle? = t.middle?.map r.entry) ∧
    (∀ n, (Cursor.start (r.tree t)).advances n = r.cursor <$> (Cursor.start t).advances n) ∧
    (∀ key n, (Cursor.seek cmp' (r.tree t) (r.key key)).advances n =
      r.cursor <$> (Cursor.seek cmp t key).advances n) ∧
    ∀ c : Cursor K V,
      (r.cursor c).get? = c.get?.map r.entry ∧ (r.cursor c).stackDepth = c.stackDepth := by
  refine ⟨Renaming.apply_edit h t, Renaming.updates_tree h t, fun key => ?_,
    ⟨r.min?_tree t, r.max?_tree t, r.middle?_tree t⟩, fun n => ?_, fun key n => ?_,
    fun c => ⟨r.get?_cursor c, r.stackDepth_cursor c⟩⟩
  · exact ⟨Renaming.find?_tree h t key, Renaming.get?_tree h t key, Renaming.contains_tree h t key,
      Renaming.findLT?_tree h t key, Renaming.findGT?_tree h t key, Renaming.findGE?_tree h t key⟩
  · rw [Renaming.start_tree, Renaming.advances_cursor]
  · rw [Renaming.seek_tree h, Renaming.advances_cursor]

/-- Integers compared by magnitude, renamed to their magnitudes, which joins 3 and -3. -/
theorem operations_renamed_natAbs :
    let r : Renaming Int64 Nat Nat Nat := ⟨fun a => a.toInt.natAbs, (· + 1)⟩
    let t : Tree Int64 Nat := .two (.leaf ⟨-1, 10⟩) ⟨2, 20⟩ (.leaf ⟨-3, 30⟩)
    r.Respects Comparison.byMagnitude compare ∧
      (Update.edit compare (.erase 3)).apply (r.tree t) =
        r.effect <$> (Update.edit Comparison.byMagnitude (.erase 3)).apply t ∧
      (r.tree t).find? compare 3 = some ⟨3, 31⟩ ∧
      (Cursor.seek compare (r.tree t) 3).advances 1 =
        r.cursor <$> (Cursor.seek Comparison.byMagnitude t 3).advances 1 := by
  intro r t
  have h : r.Respects Comparison.byMagnitude compare := fun _ _ => rfl
  obtain ⟨happly, -, hfind, -, -, hseek, -⟩ := operations_renamed r h t
  have hfound : t.find? Comparison.byMagnitude 3 = some ⟨-3, 30⟩ := by cbv
  exact ⟨h, happly (.erase 3), (hfind 3).1.trans (by rw [hfound]; rfl), hseek 3 1⟩

end Multiway
