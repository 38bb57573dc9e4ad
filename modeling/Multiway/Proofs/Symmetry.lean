import Multiway.Proofs.Edit
import Multiway.Proofs.Neighbours
import Multiway.Proofs.Reversal
import Multiway.Proofs.Validate

/-!
# The library does not prefer a side

What is done on one side of a tree is, in its reverse, done on the other side. For the removals at
both ends this holds of every balanced tree. Insertion and the neighbour searches compare keys, so
the reverse is given the comparison with its arguments exchanged, and the tree has to pass the
check: among equal keys the search within a node may stop at any, and from the other side it would
stop at another.

What carries the proof is that in a node of such a tree only one place fits a key. The search finds
it from either side, and an insertion takes the same way down, counted from the right.

* `Location.Strict`, `Location.Fits`, `Location.Fits.eq`: the one place that fits;
* **`Location.ofAnswers_reverse`**, `Tree.Sound.locate_reverse`: the search within a node;
* `Tree.Sound`: the trees that pass the check;
* `Tree.insertEntry_reverse`: an entry between the halves of a split child;
* **`Tree.Sound.insertBelow_reverse`**: insertion;
* `Tree.findLT?_reverse`: the neighbour searches;
* **`operations_reversed`**: removals at the ends, insertion and searches.
-/

namespace Multiway

variable {K V : Type}

/-! ## The search within a node -/

namespace Location

variable {answers : List Ordering} {l l' : Location} {n : Nat}

/-- The answers are first all `lt`, then at most one `eq`, then all `gt`. -/
def Strict (answers : List Ordering) : Prop := answers.Pairwise fun a b => a ≠ .lt → b = .gt

/-- A slot whose answer is `eq`, or the child between the `lt` answers and the `gt` answers. -/
def Fits (answers : List Ordering) : Location → Prop
  | slot i => answers[i]? = some .eq
  | child i => i ≤ answers.length ∧
      ∀ j a, answers[j]? = some a → a = if j < i then .lt else .gt

/-- The same place in a node with `n` entries, counted from the right. -/
def reverse (n : Nat) : Location → Location
  | slot i => slot (n - 1 - i)
  | child i => child (n - i)

theorem Strict.inOrder (h : Strict answers) : InOrder answers :=
  h.imp fun {a b} hab => by cases a <;> cases b <;> simp_all

theorem Strict.reverse (h : Strict answers) : Strict (answers.map Ordering.swap).reverse := by
  refine List.pairwise_reverse.mpr (List.pairwise_map.mpr (h.imp fun {a b} hab => ?_))
  cases a <;> cases b <;> simp_all

theorem ofAnswers_fits (h : Strict answers) : (ofAnswers answers).Fits answers := by
  have hwithin := ofAnswers_within answers
  cases hloc : ofAnswers answers with
  | slot i => exact getElem?_of_ofAnswers_slot hloc
  | child i =>
    obtain ⟨hbefore, hbehind⟩ := getElem?_of_ofAnswers_child h.inOrder hloc
    rw [hloc] at hwithin
    refine ⟨hwithin, fun j a ha => ?_⟩
    split
    · next hlt => exact Option.some.inj (ha.symm.trans (hbefore j hlt))
    · next hge =>
      have hlen := (List.getElem?_eq_some_iff.mp ha).1
      exact Option.some.inj (ha.symm.trans (hbehind j (by omega) hlen))

theorem Strict.eq_of_eq {i j : Nat} (h : Strict answers) (hi : answers[i]? = some .eq)
    (hj : answers[j]? = some .eq) : i = j := by
  obtain ⟨hilen, hi⟩ := List.getElem?_eq_some_iff.mp hi
  obtain ⟨hjlen, hj⟩ := List.getElem?_eq_some_iff.mp hj
  have hpairs := List.pairwise_iff_getElem.mp h
  rcases Nat.lt_trichotomy i j with hlt | heq | hlt
  · have hgt := hpairs i j hilen hjlen hlt (by rw [hi]; decide)
    cases hj.symm.trans hgt
  · exact heq
  · have hgt := hpairs j i hjlen hilen hlt (by rw [hj]; decide)
    cases hi.symm.trans hgt

theorem Fits.not_slot {i c : Nat} (hchild : (child c).Fits answers) : ¬(slot i).Fits answers := by
  intro hslot
  have heq := hchild.2 i .eq hslot
  split at heq <;> cases heq

theorem Fits.child_le {c d : Nat} (hc : (child c).Fits answers) (hd : (child d).Fits answers) :
    c ≤ d := by
  refine Nat.le_of_not_lt fun hlt => ?_
  have hlen : d < answers.length := Nat.lt_of_lt_of_le hlt hc.1
  have ha := List.getElem?_eq_getElem hlen
  have hless := hc.2 d _ ha
  have hgreater := hd.2 d _ ha
  rw [if_pos hlt] at hless
  rw [if_neg (Nat.lt_irrefl d)] at hgreater
  cases hless.symm.trans hgreater

theorem Fits.eq (h : Strict answers) (hl : l.Fits answers) (hl' : l'.Fits answers) : l = l' := by
  cases l with
  | slot i =>
    cases l' with
    | slot j => exact congrArg slot (h.eq_of_eq hl hl')
    | child d => exact absurd hl hl'.not_slot
  | child c =>
    cases l' with
    | slot j => exact absurd hl' hl.not_slot
    | child d => exact congrArg child (Nat.le_antisymm (hl.child_le hl') (hl'.child_le hl))

theorem getElem?_swap_reverse {j : Nat} (hj : j < answers.length) :
    (answers.map Ordering.swap).reverse[j]? =
      (answers[answers.length - 1 - j]?).map Ordering.swap := by
  rw [List.getElem?_reverse (by rwa [List.length_map]), List.length_map, List.getElem?_map]

theorem Fits.reverse (hl : l.Fits answers) :
    (l.reverse answers.length).Fits (answers.map Ordering.swap).reverse := by
  cases l with
  | slot i =>
    have hi := (List.getElem?_eq_some_iff.mp hl).1
    rw [Location.reverse, Fits, getElem?_swap_reverse (by omega),
      show answers.length - 1 - (answers.length - 1 - i) = i by omega, hl]
    rfl
  | child c =>
    obtain ⟨hc, hanswers⟩ := hl
    refine ⟨?_, fun j a ha => ?_⟩
    · rw [List.length_reverse, List.length_map]
      exact Nat.sub_le ..
    · have hj := (List.getElem?_eq_some_iff.mp ha).1
      rw [List.length_reverse, List.length_map] at hj
      rw [getElem?_swap_reverse hj, Option.map_eq_some_iff] at ha
      obtain ⟨b, hb, rfl⟩ := ha
      rw [hanswers _ b hb]
      -- what is left of child `c` is right of it in the reverse
      by_cases hlt : answers.length - 1 - j < c
      · rw [if_pos hlt, if_neg (by omega)]
        rfl
      · rw [if_neg hlt, if_pos (by omega)]
        rfl

/-- **The search within a node does not prefer a side.** -/
theorem ofAnswers_reverse (h : Strict answers) :
    ofAnswers (answers.map Ordering.swap).reverse = (ofAnswers answers).reverse answers.length :=
  (ofAnswers_fits h.reverse).eq h.reverse (ofAnswers_fits h).reverse

end Location

/-! ## Ordered trees -/

section

variable {cmp : Comparison K} {es : List (Entry K V)}

instance [Std.TransCmp cmp] : Std.TransCmp cmp.reverse :=
  inferInstanceAs (Std.TransCmp fun a b => cmp b a)

theorem swap_eq_reverse [Std.OrientedCmp cmp] (a b : K) : (cmp a b).swap = cmp.reverse a b :=
  Std.OrientedCmp.eq_swap.symm

theorem Ascending.reverse (h : Ascending cmp es) : Ascending cmp.reverse es.reverse :=
  List.pairwise_reverse.mpr h

theorem Ascending.strict [Std.TransCmp cmp] (h : Ascending cmp es) (key : K) :
    Location.Strict (es.map fun e => cmp e.key key) := by
  refine List.pairwise_map.mpr (h.imp fun {a b} hlt hne => ?_)
  have hle : (cmp key a.key).isLE :=
    Ordering.isLE_iff_ne_gt.mpr fun hgt => hne (Std.OrientedCmp.lt_of_gt hgt)
  exact Std.OrientedCmp.gt_of_lt (Std.TransCmp.lt_of_isLE_of_lt hle hlt)

end

namespace Tree

variable {cmp : Comparison K} {t c l r : Tree K V} {e m : Entry K V} {h i : Nat}

/-- The tree passes the check: it is ascending and has height `h`. -/
structure Sound (cmp : Comparison K) (t : Tree K V) (h : Nat) : Prop where
  ascending : Ascending cmp t.toList
  hasHeight : t.HasHeight h

theorem Sound.reverse (ht : t.Sound cmp h) : t.reverse.Sound cmp.reverse h :=
  ⟨by rw [toList_reverse]; exact ht.ascending.reverse, ht.hasHeight.reverse⟩

theorem Sound.exists_child (ht : t.Sound cmp h) (hc : t.children[i]? = some c) :
    ∃ k, h = k + 1 ∧ c.Sound cmp k := by
  obtain ⟨k, rfl⟩ := ht.hasHeight.exists_eq_succ (isEmpty_of_child hc)
  exact ⟨k, rfl, ascending_child ht.ascending hc, ht.hasHeight.child hc⟩

theorem Sound.split [Std.TransCmp cmp] (hc : c.Sound cmp h) (hsplit : c.split = .ok (l, m, r)) :
    l.Sound cmp h ∧ r.Sound cmp h := by
  have hasc := hc.ascending
  rw [toList_of_split hsplit] at hasc
  obtain ⟨⟨hl, -⟩, hr, -⟩ := ascending_append_cons.mp hasc
  have hempty : c.isEmpty = false := by
    cases c <;> first | rfl | cases hsplit
  obtain ⟨k, rfl⟩ := hc.hasHeight.exists_eq_succ hempty
  obtain ⟨hheightl, hheightr⟩ := hc.hasHeight.split hsplit
  exact ⟨⟨hl, hheightl⟩, ⟨hr, hheightr⟩⟩

theorem Sound.locate_reverse [Std.TransCmp cmp] (ht : t.Sound cmp h) (key : K) :
    locate cmp.reverse t.reverse.keys key = (locate cmp t.keys key).reverse t.entries.length := by
  have hstrict : Location.Strict (t.keys.map (cmp · key)) := by
    rw [keys, List.map_map]
    exact Ascending.strict (ht.ascending.sublist t.entries_sublist) key
  have hanswers : t.reverse.keys.map (cmp.reverse · key) =
      ((t.keys.map (cmp · key)).map Ordering.swap).reverse := by
    simp only [keys_reverse, List.map_reverse, List.map_map, Function.comp_def, swap_eq_reverse]
  rw [locate, hanswers, Location.ofAnswers_reverse hstrict, List.length_map, length_keys, locate]

/-! ## Insertion -/

theorem overwrite_reverse {a : Entry K V} (ha : t.entries[i]? = some a) (v : V) :
    t.reverse.overwrite (t.entries.length - 1 - i) v = Insertion.reverse <$> t.overwrite i v := by
  rw [overwrite_ok (entry_reverse ha), overwrite_ok ha, setEntry_reverse ha]
  rfl

theorem split_reverse (hsplit : c.split = .ok (l, m, r)) :
    c.reverse.split = .ok (r.reverse, m, l.reverse) := by
  cases c <;> cases hsplit
  rfl

theorem splitRoot_reverse (t : Tree K V) : t.reverse.splitRoot = t.splitRoot.reverse := by
  cases t <;> rfl

/-- An entry goes in between two halves, which change places in the reverse. -/
theorem insertEntry_reverse (hc : t.children[i]? = some c) (l r : Tree K V) (m : Entry K V) :
    (t.reverse.setChild (t.entries.length - i) r.reverse).insertEntry (t.entries.length - i) m
      l.reverse = Tree.reverse <$> (t.setChild i l).insertEntry i m r := by
  cases t <;> rcases i with _ | _ | _ | _ | i <;> cases hc <;> rfl

theorem HasHeight.insertEntry_reverse (ht : t.HasHeight 1) (hc : t.children[i]? = some c)
    (e : Entry K V) :
    t.reverse.insertEntry (t.entries.length - i) e empty =
      Tree.reverse <$> t.insertEntry i e empty := by
  obtain rfl := isEmpty_iff.mp (hasHeight_zero_iff.mp (ht.child hc))
  have hc' : t.reverse.children[t.entries.length - i]? = some empty := child_reverse hc
  have hinsert : (t.reverse.setChild (t.entries.length - i) empty).insertEntry
      (t.entries.length - i) e empty = _ := Tree.insertEntry_reverse hc empty empty e
  rwa [setChild_self hc', setChild_self hc] at hinsert

theorem bind_insertEntry_reverse (hc : t.children[i]? = some c) (l r : Tree K V) (m : Entry K V)
    (previous : Option V) :
    (do
      let u ← (t.reverse.setChild (t.entries.length - i) r.reverse).insertEntry
        (t.entries.length - i) m l.reverse
      return (⟨u, previous⟩ : Insertion K V)) =
    Insertion.reverse <$> (do
      let u ← (t.setChild i l).insertEntry i m r
      return ⟨u, previous⟩) := by
  rw [insertEntry_reverse hc]
  cases (t.setChild i l).insertEntry i m r <;> rfl

/-- **An insertion takes the same way in the reverse**, on the other side. -/
theorem Sound.insertBelow_reverse [Std.TransCmp cmp] (ht : t.Sound cmp h) (e : Entry K V) :
    t.reverse.insertBelow cmp.reverse e = Insertion.reverse <$> t.insertBelow cmp e := by
  have hchild {t c : Tree K V} {h i : Nat} (ht : t.Sound cmp h)
      (hempty : ¬t.isEmpty = true) (hloc : locate cmp t.keys e.key = .child i)
      (hleaf : ¬t.isLeaf = true) (hc : t.children[i]? = some c) :=
    insertBelow_of_child (t := t.reverse) (e := e) (i := t.entries.length - i)
      (by rwa [isEmpty_reverse]) (by rw [ht.locate_reverse, hloc]; rfl)
      (by rwa [ht.hasHeight.isLeaf_reverse]) (child_reverse hc)
  fun_induction insertBelow cmp t e generalizing h with
  | case1 t hempty =>
    rw [insertBelow, isEmpty_reverse, if_pos hempty]
    rfl
  | case2 t hempty i hloc =>
    have ha := List.getElem?_eq_getElem (locate_slot_lt hloc)
    rw [insertBelow, isEmpty_reverse, if_neg hempty, ht.locate_reverse, hloc]
    exact overwrite_reverse ha e.value
  | case3 t hempty i hloc hleaf =>
    obtain ⟨c, hc⟩ := Tree.exists_child (Bool.eq_false_iff.mpr hempty) (locate_child_le hloc)
    obtain ⟨k, rfl, -⟩ := ht.exists_child hc
    obtain rfl := ht.hasHeight.isLeaf_iff.mp hleaf
    rw [insertBelow, isEmpty_reverse, if_neg hempty, ht.locate_reverse, hloc]
    simp only [Location.reverse, ht.hasHeight.isLeaf_reverse, hleaf, if_true,
      ht.hasHeight.insertEntry_reverse hc]
    cases t.insertEntry i e empty <;> rfl
  | case4 t hempty i hloc hleaf hnone =>
    exact absurd (isEmpty_of_no_child (locate_child_le hloc) hnone) hempty
  | case5 t hempty i hloc hleaf c hc hfull fault hsplit =>
    obtain ⟨p, hp⟩ := exists_split hfull
    rw [hp] at hsplit
    cases hsplit
  | case6 t hempty i hloc hleaf c hc hfull l m r hsplit hm ih =>
    -- the new key goes to the left of the entry that moves up, and in the reverse to its right
    obtain ⟨k, -, hsound⟩ := ht.exists_child hc
    have hm' : cmp.reverse e.key m.key = .gt := by rw [← swap_eq_reverse, hm]; rfl
    rw [hchild ht hempty hloc hleaf hc, isFull_reverse, if_pos hfull, split_reverse hsplit]
    simp only [bind, Except.bind, hm', ih (hsound.split hsplit).1, writeChild_ok hc]
    cases l.insertBelow cmp e with
    | error fault => rfl
    | ok below => exact bind_insertEntry_reverse hc below.tree r m below.previous
  | case7 t hempty i hloc hleaf c hc hfull l m r hsplit hm ih =>
    obtain ⟨k, -, hsound⟩ := ht.exists_child hc
    have hm' : cmp.reverse e.key m.key = .lt := by rw [← swap_eq_reverse, hm]; rfl
    rw [hchild ht hempty hloc hleaf hc, isFull_reverse, if_pos hfull, split_reverse hsplit]
    simp only [bind, Except.bind, hm', ih (hsound.split hsplit).2, writeChild_ok hc]
    cases r.insertBelow cmp e with
    | error fault => rfl
    | ok below => exact bind_insertEntry_reverse hc l below.tree m below.previous
  | case8 t hempty i hloc hleaf c hc hfull l m r hsplit hm =>
    have hm' : cmp.reverse e.key m.key = .eq := by rw [← swap_eq_reverse, hm]; rfl
    rw [hchild ht hempty hloc hleaf hc, isFull_reverse, if_pos hfull, split_reverse hsplit]
    simp only [bind, Except.bind, hm', writeChild_ok hc]
    exact bind_insertEntry_reverse hc l r ⟨m.key, e.value⟩ (some m.value)
  | case9 t hempty i hloc hleaf c hc hfull ih =>
    obtain ⟨k, -, hsound⟩ := ht.exists_child hc
    rw [hchild ht hempty hloc hleaf hc, isFull_reverse, if_neg hfull, ih hsound]
    simp only [writeChild_ok hc]
    cases c.insertBelow cmp e with
    | error fault => rfl
    | ok below =>
      have hset := setChild_reverse hc below.tree
      exact congrArg (fun u => Except.ok (Insertion.mk u below.previous)) hset

theorem Sound.splitRoot (ht : t.Sound cmp h) :
    t.splitRoot.Sound cmp (if t.isFull then h + 1 else h) :=
  ⟨by rw [toList_splitRoot]; exact ht.ascending, ht.hasHeight.splitRoot⟩

end Tree

theorem Edit.apply_insert_reverse {cmp : Comparison K} [Std.TransCmp cmp] {t : Tree K V} {h : Nat}
    (ht : t.Sound cmp h) (e : Entry K V) :
    (insert cmp.reverse e).apply t.reverse = Effect.reverse <$> (insert cmp e).apply t := by
  rw [apply, apply, Tree.insert_eq, Tree.insert_eq, Tree.splitRoot_reverse,
    ht.splitRoot.insertBelow_reverse]
  cases t.splitRoot.insertBelow cmp e <;> rfl

/-! ## Searches -/

theorem Ascending.leading {cmp : Comparison K} [Std.TransCmp cmp] {es : List (Entry K V)}
    (h : Ascending cmp es) (bound : K) :
    Leading (cmp ·.key bound == .lt) es ∧ Leading (cmp ·.key bound != .gt) es := by
  have hpairs := List.pairwise_map.mp (h.inOrder bound)
  exact ⟨hpairs.imp fun hab hb => beq_iff_eq.mpr (hab.2 (beq_iff_eq.mp hb)),
    hpairs.imp fun hab hb => bne_iff_ne.mpr fun ha => bne_iff_ne.mp hb (hab.1 ha)⟩

theorem Tree.findLT?_reverse {cmp : Comparison K} [Std.TransCmp cmp] {t : Tree K V}
    (h : Ascending cmp t.toList) (bound : K) :
    t.reverse.findLT? cmp.reverse bound = t.findGT? cmp bound := by
  have hreverse := h.reverse
  rw [← toList_reverse] at hreverse
  have htest (e : Entry K V) :
      (cmp.reverse e.key bound == .lt) = !(cmp e.key bound != .gt) := by
    rw [← swap_eq_reverse]
    cases cmp e.key bound <;> rfl
  rw [findLT?_eq_getLast? (hreverse.leading bound).1, findGT?_eq_head? (h.leading bound).2,
    toList_reverse, List.filter_reverse, List.getLast?_reverse]
  simp only [htest]

/-- **The library does not prefer a side.** In the reverse the other end answers, node by node, with
the arguments of the comparison exchanged. -/
theorem operations_reversed (t : Tree K V) :
    (t.Balanced →
      (∃ effect, Edit.eraseFirst.apply t = .ok effect ∧
        Edit.eraseLast.apply t.reverse = .ok effect.reverse) ∧
      ∃ effect, Edit.eraseLast.apply t = .ok effect ∧
        Edit.eraseFirst.apply t.reverse = .ok effect.reverse) ∧
    ∀ (cmp : Comparison K) (d : Nat), Std.TransCmp cmp → t.validate cmp = .ok d →
      t.reverse.validate cmp.reverse = .ok d ∧
      (∀ e, ∃ effect, (Edit.insert cmp e).apply t = .ok effect ∧
        (Edit.insert cmp.reverse e).apply t.reverse = .ok effect.reverse) ∧
      ∀ bound, t.reverse.findLT? cmp.reverse bound = t.findGT? cmp bound ∧
        t.reverse.findGT? cmp.reverse bound = t.findLT? cmp bound := by
  refine ⟨fun ht => ?_, fun cmp d hcmp hvalid => ?_⟩
  · obtain ⟨first, hfirst, -⟩ := Edit.eraseFirst.exists_outcome ht
    obtain ⟨last, hlast, -⟩ := Edit.eraseLast.exists_outcome ht
    refine ⟨⟨first, hfirst, ?_⟩, last, hlast, ?_⟩
    · rw [Edit.apply_eraseLast_reverse ht, hfirst]
      rfl
    · rw [Edit.apply_eraseFirst_reverse ht, hlast]
      rfl
  · obtain ⟨hasc, hheight⟩ := Tree.validate_eq_ok_iff.mp hvalid
    have ht : t.Sound cmp d := ⟨hasc, hheight⟩
    refine ⟨Tree.validate_eq_ok_iff.mpr ⟨ht.reverse.ascending, ht.reverse.hasHeight⟩,
      fun e => ?_, fun bound => ⟨Tree.findLT?_reverse hasc bound, ?_⟩⟩
    · obtain ⟨effect, heffect, -⟩ := (Edit.insert cmp e).exists_outcome ⟨d, hheight⟩
      refine ⟨effect, heffect, ?_⟩
      rw [Edit.apply_insert_reverse ht, heffect]
      rfl
    · have hfind := Tree.findLT?_reverse ht.reverse.ascending bound
      rw [Tree.reverse_reverse] at hfind
      exact hfind.symm

/-- Integers by magnitude: a loan from a full sibling and its split, on either side. -/
theorem operations_reversed_byMagnitude :
    let full : Tree Int64 Nat := .four .empty ⟨-3, 30⟩ .empty ⟨4, 40⟩ .empty ⟨5, 50⟩ .empty
    let t : Tree Int64 Nat := .two (.leaf ⟨-1, 10⟩) ⟨2, 20⟩ full
    let removed : Tree Int64 Nat :=
      .two (.leaf ⟨2, 20⟩) ⟨-3, 30⟩ (.three .empty ⟨4, 40⟩ .empty ⟨5, 50⟩ .empty)
    let inserted : Tree Int64 Nat :=
      .three (.leaf ⟨-1, 10⟩) ⟨2, 20⟩ (.leaf ⟨-3, 30⟩) ⟨4, 40⟩
        (.three .empty ⟨5, 50⟩ .empty ⟨-6, 60⟩ .empty)
    t.Balanced ∧ Std.TransCmp Comparison.byMagnitude ∧
      t.validate Comparison.byMagnitude = .ok 2 ∧
      Edit.eraseLast.apply t.reverse = .ok ⟨some removed.reverse, .entry (some ⟨-1, 10⟩)⟩ ∧
      (Edit.insert Comparison.byMagnitude.reverse ⟨-6, 60⟩).apply t.reverse =
        .ok ⟨some inserted.reverse, .value none⟩ ∧
      t.reverse.findLT? Comparison.byMagnitude.reverse 3 = some ⟨4, 40⟩ := by
  intro full t removed inserted
  have hcmp : Std.TransCmp Comparison.byMagnitude := inferInstanceAs (Std.TransCmp (compareOn _))
  have hvalid : t.validate Comparison.byMagnitude = .ok 2 := by decide
  have ht : t.Balanced := ⟨2, (Tree.validate_eq_ok_iff.mp hvalid).2⟩
  obtain ⟨hends, hlaw⟩ := operations_reversed t
  obtain ⟨⟨first, hfirst, hlast⟩, -⟩ := hends ht
  obtain ⟨-, hinsert, hsearch⟩ := hlaw Comparison.byMagnitude 2 hcmp hvalid
  obtain ⟨ins, hins, hins'⟩ := hinsert ⟨-6, 60⟩
  have hrun : Edit.eraseFirst.apply t = .ok ⟨some removed, .entry (some ⟨-1, 10⟩)⟩ := by cbv
  have hrun' : (Edit.insert Comparison.byMagnitude ⟨-6, 60⟩).apply t =
      .ok ⟨some inserted, .value none⟩ := by cbv
  have hfound : t.findGT? Comparison.byMagnitude 3 = some ⟨4, 40⟩ := by decide +kernel
  obtain rfl := Except.ok.inj (hfirst.symm.trans hrun)
  obtain rfl := Except.ok.inj (hins.symm.trans hrun')
  exact ⟨ht, hcmp, hvalid, hlast, hins', (hsearch 3).1.trans hfound⟩

end Multiway
