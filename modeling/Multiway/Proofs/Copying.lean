import Multiway.Proofs.Descent

/-!
# What an update copies

An update builds new nodes along one way down and takes over all others from the tree that it is
given. Beside the way there is a new node wherever a child is split or a sibling lends an entry: an
insertion makes at most two nodes of every level new, and a removal one of every level and two more
for a loan, of which there is at most one.

What carries the proof is a bound that is relative to what was new below the node before. A step
makes the node itself new and a few nodes beside the way, and it never counts the child that it
replaces. The tree that an update is given has nothing new below its root.

* `Tree.nodes`, **`Tree.mem_nodes_iff`**: the nodes of a tree;
* `Tree.newNodes`, `Tree.newBelow`: how many of them do not occur in another tree;
  `Tree.newNodes_eq_zero_iff`: when there are none;
* `Tree.newBelow_setChild`, `Tree.newBelow_insertEntry`, `Tree.newBelow_split`,
  `Tree.newBelow_setGap` and others: one step at one node;
* **`Tree.Inserts.newNodes_le`**, `Tree.Inserts.newNodes_le_of_room`, `Tree.Inserts.newNodes_lt`:
  insertion below a node, below two halves, and into any balanced tree;
* `Tree.newNodes_repair`, `Tree.newNodes_afterRemoval`, **`Tree.Removes.newNodes_le`**: removal;
* **`updates_copy_one_way`**: all updates.
-/

namespace Multiway

namespace Tree

variable {K V : Type} {t t' c l r u : Tree K V} {e m : Entry K V} {g g' loan : Gap K V} {h i : Nat}

/-! ## New nodes -/

/-- The nodes of the tree, each with all that hangs below it, one for every place. -/
def nodes : Tree K V → List (Tree K V)
  | empty => []
  | two c₀ a c₁ => two c₀ a c₁ :: (c₀.nodes ++ c₁.nodes)
  | three c₀ a c₁ b c₂ => three c₀ a c₁ b c₂ :: (c₀.nodes ++ (c₁.nodes ++ c₂.nodes))
  | four c₀ a c₁ b c₂ c c₃ =>
    four c₀ a c₁ b c₂ c c₃ :: (c₀.nodes ++ (c₁.nodes ++ (c₂.nodes ++ c₃.nodes)))

theorem nodes_eq_cons (hempty : t.isEmpty = false) :
    t.nodes = t :: t.children.flatMap nodes := by
  cases t with
  | empty => cases hempty
  | _ => simp [nodes, children]

theorem exists_nodeAt_of_mem_nodes {t n : Tree K V} (hn : n ∈ t.nodes) :
    ∃ level, t.NodeAt level n := by
  have hempty : t.isEmpty = false := by
    cases t <;> first | rfl | cases hn
  rw [nodes_eq_cons hempty, List.mem_cons, List.mem_flatMap] at hn
  rcases hn with rfl | ⟨c, hc, hn⟩
  · exact ⟨0, .root hempty⟩
  · obtain ⟨i, hi⟩ := List.mem_iff_getElem?.mp hc
    have hless := size_child_lt hi
    obtain ⟨level, hlevel⟩ := exists_nodeAt_of_mem_nodes hn
    exact ⟨level + 1, .child hc hlevel⟩
termination_by t.size

/-- **The nodes are those of all levels.** -/
theorem mem_nodes_iff {n : Tree K V} : n ∈ t.nodes ↔ ∃ level, t.NodeAt level n := by
  refine ⟨exists_nodeAt_of_mem_nodes, ?_⟩
  rintro ⟨level, hn⟩
  induction hn with
  | root hempty =>
    rw [nodes_eq_cons hempty]
    exact List.mem_cons_self
  | child hc _ ih =>
    obtain ⟨i, hi⟩ := List.mem_iff_getElem?.mp hc
    rw [nodes_eq_cons (isEmpty_of_child hi)]
    exact List.mem_cons_of_mem _ (List.mem_flatMap.mpr ⟨_, hc, ih⟩)

variable [DecidableEq K] [DecidableEq V] (old : Tree K V)

/-- The number of places in the tree `u` whose node, with all that hangs below it, is none of the
nodes of the tree `old`. -/
def newNodes (u old : Tree K V) : Nat := u.nodes.countP (· ∉ old.nodes)

/-- The number of places below the root at which a node is new. -/
def newBelow (u old : Tree K V) : Nat := u.nodes.tail.countP (· ∉ old.nodes)

theorem newNodes_eq_zero_iff : u.newNodes old = 0 ↔
    ∀ level n, u.NodeAt level n → ∃ level', old.NodeAt level' n := by
  simp only [newNodes, List.countP_eq_zero, mem_nodes_iff, decide_eq_true_eq, not_not]
  constructor
  · intro h level n hn
    exact h n ⟨level, hn⟩
  · rintro h n ⟨level, hn⟩
    exact h level n hn

@[simp]
theorem newNodes_self (t : Tree K V) : t.newNodes t = 0 :=
  (newNodes_eq_zero_iff t).mpr fun level _ hn => ⟨level, hn⟩

theorem newBelow_le_newNodes (u old : Tree K V) : u.newBelow old ≤ u.newNodes old :=
  (List.tail_sublist u.nodes).countP_le

theorem newNodes_le_newBelow (u old : Tree K V) : u.newNodes old ≤ u.newBelow old + 1 := by
  rw [newNodes, newBelow]
  cases u.nodes with
  | nil => exact Nat.zero_le _
  | cons n ns =>
    rw [List.tail_cons, List.countP_cons]
    split <;> omega

@[simp]
theorem newBelow_self (t : Tree K V) : t.newBelow t = 0 :=
  Nat.le_zero.mp (t.newNodes_self ▸ t.newBelow_le_newNodes t)

@[simp]
theorem newNodes_empty : (empty : Tree K V).newNodes old = 0 := rfl

@[simp]
theorem newBelow_two {c₀ c₁ : Tree K V} {a : Entry K V} :
    (two c₀ a c₁).newBelow old = c₀.newNodes old + c₁.newNodes old := by
  simp [newBelow, newNodes, nodes]

@[simp]
theorem newBelow_three {c₀ c₁ c₂ : Tree K V} {a b : Entry K V} :
    (three c₀ a c₁ b c₂).newBelow old = c₀.newNodes old + c₁.newNodes old + c₂.newNodes old := by
  simp [newBelow, newNodes, nodes, Nat.add_assoc]

@[simp]
theorem newBelow_four {c₀ c₁ c₂ c₃ : Tree K V} {a b c : Entry K V} :
    (four c₀ a c₁ b c₂ c c₃).newBelow old =
      c₀.newNodes old + c₁.newNodes old + c₂.newNodes old + c₃.newNodes old := by
  simp [newBelow, newNodes, nodes, Nat.add_assoc]

/-! ## One step at one node -/

theorem newBelow_setChild (hc : t.children[i]? = some c) (x : Tree K V) :
    (t.setChild i x).newBelow old + c.newNodes old = t.newBelow old + x.newNodes old := by
  cases t <;> rcases i with _ | _ | _ | _ | i <;> cases hc <;> simp [setChild] <;> omega

@[simp]
theorem newBelow_setEntry (t : Tree K V) (i : Nat) (e : Entry K V) :
    (t.setEntry i e).newBelow old = t.newBelow old := by
  cases t <;> rcases i with _ | _ | _ | i <;> simp [setEntry]

theorem newBelow_insertEntry (hinsert : t.insertEntry i e r = .ok t') :
    t'.newBelow old = t.newBelow old + r.newNodes old := by
  cases t <;> rcases i with _ | _ | _ | i <;> cases hinsert <;> simp <;> omega

theorem newBelow_split (hsplit : c.split = .ok (l, m, r)) :
    l.newBelow old + r.newBelow old ≤ c.newNodes old := by
  refine Nat.le_trans ?_ (c.newBelow_le_newNodes old)
  cases c <;> cases hsplit
  simp
  omega

theorem newBelow_lendLast? (hloan : c.lendLast? = some loan) :
    loan.left.newBelow old + loan.right.newNodes old = c.newBelow old := by
  cases c <;> cases hloan <;> simp

theorem newBelow_lendFirst? (hloan : c.lendFirst? = some loan) :
    loan.left.newNodes old + loan.right.newBelow old = c.newBelow old := by
  cases c <;> cases hloan <;> simp <;> omega

theorem newBelow_append (happend : l.append m r = .ok u) :
    u.newBelow old = l.newBelow old + r.newNodes old := by
  cases l <;> cases happend <;> simp

theorem newBelow_prepend (hprepend : prepend l m r = .ok u) :
    u.newBelow old = l.newNodes old + r.newBelow old := by
  cases r <;> cases hprepend <;> simp <;> omega

theorem newBelow_setGap (hgap : t.gap? i = some g) (g' : Gap K V) :
    (t.setGap i g').newBelow old + (g.left.newNodes old + g.right.newNodes old) =
      t.newBelow old + (g'.left.newNodes old + g'.right.newNodes old) := by
  obtain ⟨hl, -, hr⟩ := gap?_eq_some.mp hgap
  have hr' : ((t.setChild i g'.left).setEntry i g'.middle).children[i + 1]? = some g.right := by
    rw [children_setEntry, children_setChild, List.getElem?_set_ne (by omega), hr]
  have hleft := newBelow_setChild old hl g'.left
  have hright := newBelow_setChild old hr' g'.right
  rw [newBelow_setEntry] at hright
  rw [setGap]
  omega

theorem newNodes_dropEntry {short : Bool} (hc : t.children[i + 1]? = some c)
    (hdrop : t.dropEntry i = .ok (t', short)) :
    t'.newNodes old + c.newNodes old ≤ t.newBelow old + (if short then 0 else 1) := by
  -- a node that gives up its only entry is no node of the result any more
  have hroot := t'.newNodes_le_newBelow old
  cases t <;> rcases i with _ | _ | _ | i <;> cases hdrop <;> cases hc <;> simp_all <;> omega

theorem newNodes_closeGap {short : Bool} (hgap : t.gap? i = some g)
    (hclose : t.closeGap i c = .ok (t', short)) :
    t'.newNodes old + (g.left.newNodes old + g.right.newNodes old) ≤
      t.newBelow old + c.newNodes old + (if short then 0 else 1) := by
  obtain ⟨hl, -, hr⟩ := gap?_eq_some.mp hgap
  have hr' : (t.setChild i c).children[i + 1]? = some g.right := by
    rw [children_setChild, List.getElem?_set_ne (by omega), hr]
  have hset := newBelow_setChild old hl c
  rw [closeGap_of_child hl] at hclose
  have hdrop := newNodes_dropEntry old hr' hclose
  omega

/-! ## Insertion -/

theorem newNodes_of_halves (hc : t.children[i]? = some c)
    (hinsert : (t.setChild i l).insertEntry i m r = .ok t') :
    t'.newNodes old + c.newNodes old ≤
      t.newBelow old + (l.newNodes old + r.newNodes old) + 1 := by
  have hroot := t'.newNodes_le_newBelow old
  have hset := newBelow_setChild old hc l
  rw [newBelow_insertEntry old hinsert] at hroot
  omega

/-- **Below the root an insertion makes at most two nodes of every level new.** -/
theorem Inserts.newNodes_le {cmp : Comparison K} {ins : Insertion K V}
    (hins : Inserts cmp e t ins) (ht : t.HasHeight (h + 1)) :
    ins.tree.newNodes old ≤ t.newBelow old + 2 * h + 1 := by
  induction hins generalizing h with
  | bottom => exact absurd ht.isEmpty_eq (by simp [isEmpty])
  | @overwrite t i a _ _ =>
    have hroot := (t.setEntry i ⟨a.key, e.value⟩).newNodes_le_newBelow old
    rw [newBelow_setEntry] at hroot
    show (t.setEntry i ⟨a.key, e.value⟩).newNodes old ≤ _
    omega
  | @atLeaf t t' i _ _ hinsert =>
    have hroot := t'.newNodes_le_newBelow old
    rw [newBelow_insertEntry old hinsert, newNodes_empty] at hroot
    show t'.newNodes old ≤ _
    omega
  | @descend t c i ins _ hleaf hc _ ih =>
    obtain ⟨k, rfl⟩ := ht.exists_succ hleaf
    have hbelow := ih (ht.child hc)
    have hroot := (t.setChild i ins.tree).newNodes_le_newBelow old
    have hset := newBelow_setChild old hc ins.tree
    have hchild := c.newBelow_le_newNodes old
    show (t.setChild i ins.tree).newNodes old ≤ _
    omega
  | @splitLeft t t' c l r i m ins _ hleaf hc hsplit _ _ hinsert ih =>
    obtain ⟨k, rfl⟩ := ht.exists_succ hleaf
    have hbelow := ih ((ht.child hc).split hsplit).1
    have hhalf := r.newNodes_le_newBelow old
    have hnode := newNodes_of_halves old hc hinsert
    have hchild := newBelow_split old hsplit
    show t'.newNodes old ≤ _
    omega
  | @splitRight t t' c l r i m ins _ hleaf hc hsplit _ _ hinsert ih =>
    obtain ⟨k, rfl⟩ := ht.exists_succ hleaf
    have hbelow := ih ((ht.child hc).split hsplit).2
    have hhalf := l.newNodes_le_newBelow old
    have hnode := newNodes_of_halves old hc hinsert
    have hchild := newBelow_split old hsplit
    show t'.newNodes old ≤ _
    omega
  | @splitMiddle t t' c l r i m _ hleaf hc hsplit _ hinsert =>
    obtain ⟨k, rfl⟩ := ht.exists_succ hleaf
    have hleft := l.newNodes_le_newBelow old
    have hright := r.newNodes_le_newBelow old
    have hnode := newNodes_of_halves old hc hinsert
    have hchild := newBelow_split old hsplit
    show t'.newNodes old ≤ _
    omega

theorem Inserts.newNodes_le_of_room {cmp : Comparison K} {ins : Insertion K V}
    (hins : Inserts cmp e (two l m r) ins) (ht : (two l m r).HasHeight (h + 2))
    (hl : l.isFull = false) (hr : r.isFull = false) :
    ins.tree.newNodes old ≤ l.newBelow old + r.newBelow old + 2 * h + 3 := by
  have hleft := l.newNodes_le_newBelow old
  have hright := r.newNodes_le_newBelow old
  have hroot := ins.tree.newNodes_le_newBelow old
  have hroom {c : Tree K V} {i : Nat} (hc : (two l m r).children[i]? = some c) :
      c.isFull = false := by
    rcases i with _ | _ | i <;> cases hc <;> assumption
  cases hins with
  | overwrite =>
    rw [newBelow_setEntry, newBelow_two] at hroot
    omega
  | atLeaf _ hleaf =>
    rw [ht.isLeaf_eq_false] at hleaf
    cases hleaf
  | @descend _ c i ins _ _ hc hbelow =>
    have hnew := hbelow.newNodes_le old (ht.child hc)
    have hset := newBelow_setChild old hc ins.tree
    rw [newBelow_two] at hset
    dsimp only at hroot ⊢
    -- the child that is not entered may be new itself, as a half of the old root
    rcases i with _ | _ | i <;> cases hc <;> omega
  | splitLeft _ _ hc hsplit | splitRight _ _ hc hsplit | splitMiddle _ _ hc hsplit =>
    exact absurd hsplit (not_split_of_room (hroom hc))

/-- **An insertion makes at most two nodes of every level new**, and only one at the root. -/
theorem Inserts.newNodes_lt {cmp : Comparison K} {ins : Insertion K V}
    (hins : Inserts cmp e t.splitRoot ins) (ht : t.Balanced) :
    ins.tree.newNodes t < 2 * ins.tree.depth := by
  rcases ht.splitRoot_cases with rfl | ⟨h, hroot⟩
  · rw [hins.eq_bottom]
    exact Nat.lt_succ_of_le (newNodes_le_newBelow _ _)
  rw [(hins.hasHeight hroot).depth_eq]
  cases hfull : t.isFull with
  | false =>
    rw [splitRoot_of_room hfull] at hins hroot
    have hnew := hins.newNodes_le t hroot
    rw [newBelow_self] at hnew
    omega
  | true =>
    -- the root is new, and so are its two halves, but nothing below them is
    obtain ⟨⟨l, m, r⟩, hsplit⟩ := exists_split hfull
    obtain ⟨heq, hempty⟩ := splitRoot_of_split hsplit
    rw [heq] at hins hroot
    obtain ⟨hlroom, hrroom⟩ := isFull_of_split hsplit
    obtain ⟨k, rfl⟩ := (hasHeight_two.mp hroot).1.exists_eq_succ hempty
    have hhalves := newBelow_split t hsplit
    have hnew := hins.newNodes_le_of_room t hroot hlroom hrroom
    rw [newNodes_self] at hhalves
    omega

/-! ## Removal -/

theorem newNodes_rotateFromLeft? (hrotate : t.rotateFromLeft? i = some t') :
    t'.newNodes old ≤ t.newBelow old + 3 := by
  obtain ⟨j, g, loan, -, hgap, hloan, rfl⟩ := exists_loan_left hrotate
  have hset := newBelow_setGap old hgap
    ⟨loan.left, loan.middle, two loan.right g.middle g.right⟩
  have hlent := newBelow_lendLast? old hloan
  have hsibling := g.left.newBelow_le_newNodes old
  have hlender := loan.left.newNodes_le_newBelow old
  have hborrower := (two loan.right g.middle g.right).newNodes_le_newBelow old
  rw [newBelow_two] at hborrower
  refine Nat.le_trans (newNodes_le_newBelow _ old) ?_
  dsimp only at hset
  omega

theorem newNodes_rotateFromRight? (hrotate : t.rotateFromRight? i = some t') :
    t'.newNodes old ≤ t.newBelow old + 3 := by
  obtain ⟨g, loan, hgap, hloan, rfl⟩ := exists_loan_right hrotate
  have hset := newBelow_setGap old hgap
    ⟨two g.left g.middle loan.left, loan.middle, loan.right⟩
  have hlent := newBelow_lendFirst? old hloan
  have hsibling := g.right.newBelow_le_newNodes old
  have hlender := loan.right.newNodes_le_newBelow old
  have hborrower := (two g.left g.middle loan.left).newNodes_le_newBelow old
  rw [newBelow_two] at hborrower
  refine Nat.le_trans (newNodes_le_newBelow _ old) ?_
  dsimp only at hset
  omega

theorem newNodes_of_merged {short : Bool} (hgap : t.gap? i = some g)
    (hu : u.newBelow old ≤ g.left.newNodes old + g.right.newNodes old)
    (hclose : t.closeGap i u = .ok (t', short)) :
    t'.newNodes old ≤ t.newBelow old + (if short then 1 else 2) := by
  have hnode := newNodes_closeGap old hgap hclose
  have hmerged := u.newNodes_le_newBelow old
  cases short <;> simp at hnode ⊢ <;> omega

theorem newNodes_merge {short : Bool} (hmerge : t.merge i = .ok (t', short)) :
    t'.newNodes old ≤ t.newBelow old + (if short then 1 else 2) := by
  unfold merge at hmerge
  split at hmerge
  · split at hmerge
    · cases hmerge
    · next g hgap =>
      obtain ⟨u, hprepend, hclose⟩ := bind_eq_ok_iff.mp hmerge
      refine newNodes_of_merged old hgap ?_ hclose
      rw [newBelow_prepend old hprepend]
      exact Nat.add_le_add_left (g.right.newBelow_le_newNodes old) _
  · split at hmerge
    · cases hmerge
    · next g hgap =>
      obtain ⟨u, happend, hclose⟩ := bind_eq_ok_iff.mp hmerge
      refine newNodes_of_merged old hgap ?_ hclose
      rw [newBelow_append old happend]
      exact Nat.add_le_add_right (g.left.newBelow_le_newNodes old) _

theorem newNodes_repair {short : Bool} (hrepair : t.repair i = .ok (t', short)) :
    t'.newNodes old ≤ t.newBelow old + (if short then 1 else 3) := by
  unfold repair at hrepair
  split at hrepair
  · cases hrepair
  · split at hrepair
    · next v hrotate =>
      cases hrepair
      rcases Option.or_eq_some_iff.mp hrotate with hleft | ⟨-, hright⟩
      · exact newNodes_rotateFromLeft? old hleft
      · exact newNodes_rotateFromRight? old hright
    · have hnew := newNodes_merge old hrepair
      cases short <;> simp at hnew ⊢ <;> omega

theorem newNodes_removeAt {r : Removal K V} (hr : t.removeAt i = .ok r) :
    r.tree.newNodes old ≤ t.newBelow old + (if r.short then 0 else 1) := by
  unfold removeAt at hr
  split at hr
  · cases hr
  · next e he =>
    obtain ⟨⟨u, short⟩, hdrop, hr⟩ := bind_eq_ok_iff.mp hr
    cases hr
    obtain ⟨l, c, hgap⟩ := exists_gap_around he
    have hnode := newNodes_dropEntry old (gap?_eq_some.mp hgap).2.2 hdrop
    dsimp only
    omega

/-- A short child may make two other nodes new for a loan; then nothing is short any more. -/
theorem newNodes_afterRemoval {r r' : Removal K V} (hc : t.children[i]? = some c)
    (hr : t.afterRemoval i r = .ok r')
    (hbelow : r.tree.newNodes old ≤ c.newBelow old + (if r.short then h else h + 2)) :
    r'.tree.newNodes old ≤ t.newBelow old + (if r'.short then h + 1 else h + 3) := by
  have hset := newBelow_setChild old hc r.tree
  have hchild := c.newBelow_le_newNodes old
  rw [afterRemoval_of_child hc] at hr
  split at hr
  · next hshort =>
    obtain ⟨⟨u, short⟩, hrepair, hr⟩ := bind_eq_ok_iff.mp hr
    cases hr
    have hnode := newNodes_repair old hrepair
    rw [if_pos hshort] at hbelow
    cases short <;> simp at hnode ⊢ <;> omega
  · next hshort =>
    cases hr
    have hnode := (t.setChild i r.tree).newNodes_le_newBelow old
    rw [if_neg hshort] at hbelow
    simp only [Bool.false_eq_true, if_false]
    omega

/-- **A removal makes one node of every level new**, and two more for a loan. -/
theorem Removes.newNodes_le {r : Removal K V} (hr : t.Removes r) (ht : t.HasHeight (h + 1)) :
    r.tree.newNodes old ≤ t.newBelow old + (if r.short then h else h + 2) := by
  induction hr generalizing h with
  | @atLeaf t r i _ hr =>
    refine Nat.le_trans (newNodes_removeAt old hr) (Nat.add_le_add_left ?_ _)
    cases r.short <;> simp
  | inChild hleaf hc _ hr ih =>
    obtain ⟨k, rfl⟩ := ht.exists_succ hleaf
    exact newNodes_afterRemoval old hc hr (ih (ht.child hc))
  | @inner t c next r e i hleaf _ hc _ hr ih =>
    obtain ⟨k, rfl⟩ := ht.exists_succ hleaf
    rw [← children_setEntry t i next.entry] at hc
    have hnode := newNodes_afterRemoval old hc hr (ih (ht.setEntry.child hc))
    rwa [newBelow_setEntry] at hnode

theorem Withdrawal.newNodes_le (hu : t.Withdrawal h u) (ht : t.HasHeight h) :
    u.newNodes t ≤ u.depth + 1 := by
  cases hu with
  | untouched =>
    rw [newNodes_self]
    exact Nat.zero_le _
  | @removed before behind r k hk hremoved hways =>
    subst hk
    have hnew := hways.newNodes_le t ht
    have hdepth := hremoved.hasHeight.depth_eq
    rw [newBelow_self] at hnew
    cases hshort : r.short with
    | true =>
      rw [hshort, if_pos rfl] at hnew hdepth
      omega
    | false =>
      rw [hshort, if_neg Bool.false_ne_true] at hnew hdepth
      omega

end Tree

/-- **An update copies one way down**: at most `2 * depth - 1` nodes are new, or `depth + 1` if an
entry is removed. -/
theorem updates_copy_one_way {K V : Type} [DecidableEq K] [DecidableEq V] {t : Tree K V}
    (ht : t.Balanced) :
    (∀ (cmp : Comparison K) (e : Entry K V),
      ∃ u, (Change.edit (.insert cmp e)).apply t = .ok u ∧ u.newNodes t ≤ 2 * u.depth - 1) ∧
    ∀ edit : Edit K V, edit.isRemoval = true →
      ∃ u, (Change.edit edit).apply t = .ok u ∧ u.newNodes t ≤ u.depth + 1 := by
  refine ⟨fun cmp e => ?_, fun edit hedit => ?_⟩
  · obtain ⟨ins, hok, hins⟩ := Tree.exists_insert cmp t e
    refine ⟨ins.tree, by rw [Change.apply, Edit.apply, hok]; rfl, ?_⟩
    exact Nat.le_sub_one_of_lt (hins.newNodes_lt ht)
  · obtain ⟨h, hh⟩ := ht
    obtain ⟨u, hok, hu⟩ := Change.exists_withdrawal hedit hh
    exact ⟨u, hok, hu.newNodes_le hh⟩

/-- Both bounds are reached, by two splits and by a loan right below the root. -/
theorem updates_copy_one_way_reached :
    let lender : Tree Int64 Nat := .three .empty ⟨3, 30⟩ .empty ⟨4, 40⟩ .empty
    let full : Tree Int64 Nat := .four .empty ⟨8, 80⟩ .empty ⟨9, 90⟩ .empty ⟨10, 100⟩ .empty
    let t : Tree Int64 Nat :=
      .four (.leaf ⟨1, 10⟩) ⟨2, 20⟩ lender ⟨5, 50⟩ (.leaf ⟨6, 60⟩) ⟨7, 70⟩ full
    let grown : Tree Int64 Nat :=
      .two (.two (.leaf ⟨1, 10⟩) ⟨2, 20⟩ lender) ⟨5, 50⟩
        (.three (.leaf ⟨6, 60⟩) ⟨7, 70⟩ (.leaf ⟨8, 80⟩) ⟨9, 90⟩
          (.three .empty ⟨10, 100⟩ .empty ⟨11, 110⟩ .empty))
    let shrunk : Tree Int64 Nat :=
      .four (.leaf ⟨2, 20⟩) ⟨3, 30⟩ (.leaf ⟨4, 40⟩) ⟨5, 50⟩ (.leaf ⟨6, 60⟩) ⟨7, 70⟩ full
    t.Balanced ∧
      (Change.edit (.insert compare ⟨11, 110⟩)).apply t = .ok grown ∧
      grown.newNodes t = 5 ∧ grown.newNodes t ≤ 2 * grown.depth - 1 ∧
      (Change.edit .eraseFirst).apply t = .ok shrunk ∧
      shrunk.newNodes t = 3 ∧ shrunk.newNodes t ≤ shrunk.depth + 1 := by
  intro lender full t grown shrunk
  have ht : t.Balanced := ⟨2, by simp [t, lender, full, Tree.leaf, Tree.hasHeight_empty]⟩
  have hgrow : (Change.edit (.insert compare ⟨11, 110⟩)).apply t = .ok grown := by cbv
  have hshrink : (Change.edit .eraseFirst).apply t = .ok shrunk := by cbv
  obtain ⟨hinsert, hremove⟩ := updates_copy_one_way ht
  obtain ⟨u, hu, hunew⟩ := hinsert compare ⟨11, 110⟩
  obtain ⟨v, hv, hvnew⟩ := hremove .eraseFirst rfl
  obtain rfl := Except.ok.inj (hgrow.symm.trans hu)
  obtain rfl := Except.ok.inj (hshrink.symm.trans hv)
  exact ⟨ht, hgrow, by decide +kernel, hunew, hshrink, by decide +kernel, hvnew⟩

end Multiway
