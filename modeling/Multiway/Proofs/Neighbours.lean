import Multiway.Proofs.Lookup

/-!
# The nearest entries around a bound

A neighbour search puts one test to the keys: whether a key is less than the bound, or whether it is
not greater. It needs no more of the tree than that the entries which pass come first. So several
entries may compare equal to the bound, in one node or on several levels, and the tree may have any
shape.

* `Leading`: the elements that pass a test come first;
* `partitionPoint_le`, **`partitionPoint_iff`**: the partition point of the keys of a node;
* **`Tree.sides_of_partitionPoint`**: what lies on both sides of the child there;
* **`Tree.filter_toList`**: the entries that pass and those that do not, told by this child;
* `Tree.findLT?_eq_getLast?`, `Tree.findGT?_eq_head?`: the two searches as scans of the list;
* **`neighbours_eq_ends`**: the nearest entries on both sides of those that compare equal.
-/

namespace Multiway

/-! ## A test that the first elements pass -/

/-- The elements that pass the test come first. -/
def Leading {α : Type} (test : α → Bool) (xs : List α) : Prop :=
  xs.Pairwise fun a b => test b = true → test a = true

section

variable {α : Type} {test : α → Bool} {xs ys : List α}

theorem Leading.of_append (h : Leading test (xs ++ ys)) : Leading test xs ∧ Leading test ys :=
  ⟨(List.pairwise_append.mp h).1, (List.pairwise_append.mp h).2.1⟩

theorem Leading.pass_of_getLast? (h : Leading test xs) (hlast : ∀ a ∈ xs.getLast?, test a = true) :
    ∀ a ∈ xs, test a = true := by
  cases hb : xs.getLast? with
  | none =>
    rw [List.getLast?_eq_none_iff.mp hb]
    exact fun _ ha => absurd ha List.not_mem_nil
  | some b =>
    obtain ⟨front, rfl⟩ := List.getLast?_eq_some_iff.mp hb
    intro a ha
    rcases List.mem_append.mp ha with ha | ha
    · exact (List.pairwise_append.mp h).2.2 a ha b List.mem_cons_self (hlast b hb)
    · rw [List.mem_singleton.mp ha]
      exact hlast b hb

theorem Leading.fail_of_head? (h : Leading test xs) (hhead : ∀ a ∈ xs.head?, test a = false) :
    ∀ b ∈ xs, test b = false := by
  cases xs with
  | nil => exact fun _ hb => absurd hb List.not_mem_nil
  | cons a rest =>
    have ha := hhead a rfl
    refine List.forall_mem_cons.mpr ⟨ha, fun b hb => Bool.eq_false_iff.mpr fun htest => ?_⟩
    rw [(List.pairwise_cons.mp h).1 b hb htest] at ha
    cases ha

end

/-! ## The partition point -/

section

variable {K : Type} {test : K → Bool} {keys : List K}

theorem partitionPoint_le (test : K → Bool) (keys : List K) :
    partitionPoint test keys ≤ keys.length := by
  have hwithin := Location.ofAnswers_within (keys.map fun key => if test key then .lt else .gt)
  rw [List.length_map] at hwithin
  rw [partitionPoint]
  cases hloc : Location.ofAnswers (keys.map fun key => if test key then .lt else .gt) with
  | slot i =>
    rw [hloc] at hwithin
    exact Nat.le_of_lt hwithin
  | child i =>
    rw [hloc] at hwithin
    exact hwithin

/-- **The keys before the partition point are those that pass**, if they come first. -/
theorem partitionPoint_iff (h : Leading test keys) {j : Nat} {k : K} (hk : keys[j]? = some k) :
    test k = true ↔ j < partitionPoint test keys := by
  let answers := keys.map fun key => if test key then Ordering.lt else .gt
  have hanswer : answers[j]? = some (if test k then .lt else .gt) := by
    rw [List.getElem?_map, hk, Option.map_some]
  have horder : Location.InOrder answers := by
    refine List.pairwise_map.mpr (h.imp fun {a b} hab => ?_)
    cases ha : test a <;> cases hb : test b <;> simp_all
  cases hloc : Location.ofAnswers answers with
  | slot i =>
    -- no answer is `eq`, so the search hits nothing
    have heq := Location.getElem?_of_ofAnswers_slot hloc
    rw [List.getElem?_map, Option.map_eq_some_iff] at heq
    obtain ⟨a, -, ha⟩ := heq
    split at ha <;> cases ha
  | child i =>
    obtain ⟨hbefore, hbehind⟩ := Location.getElem?_of_ofAnswers_child horder hloc
    rw [show partitionPoint test keys = i from congrArg Location.index hloc]
    rcases Nat.lt_or_ge j i with hlt | hle
    · have hlt' := hanswer.symm.trans (hbefore j hlt)
      cases htest : test k with
      | true => exact iff_of_true rfl hlt
      | false => rw [htest] at hlt'; cases hlt'
    · have hgt := hanswer.symm.trans (hbehind j hle (List.getElem?_eq_some_iff.mp hanswer).1)
      cases htest : test k with
      | true => rw [htest] at hgt; cases hgt
      | false => exact iff_of_false Bool.false_ne_true (Nat.not_lt_of_le hle)

end

variable {K V : Type}

/-! ## The child at the partition point -/

namespace Tree

variable {test : K → Bool} {cmp : Comparison K} {bound : K} {t c : Tree K V} {i : Nat}

theorem toList_eq_nil_of_partitionPoint (hnone : t.children[partitionPoint test t.keys]? = none) :
    t.toList = [] := by
  have hle := partitionPoint_le test t.keys
  rw [length_keys] at hle
  exact toList_eq_nil (isEmpty_of_no_child hle hnone)

theorem leading_child {test : Entry K V → Bool} (h : Leading test t.toList)
    (hc : t.children[i]? = some c) : Leading test c.toList := by
  rw [toList_of_child hc] at h
  exact h.of_append.2.of_append.1

theorem sides_of_partitionPoint (h : Leading (test ·.key) t.toList)
    (hc : t.children[partitionPoint test t.keys]? = some c) :
    (∀ a ∈ t.listBefore (partitionPoint test t.keys), test a.key = true) ∧
      ∀ b ∈ t.listFrom (partitionPoint test t.keys), test b.key = false := by
  have hkeys : Leading test t.keys := List.pairwise_map.mpr (h.sublist t.entries_sublist)
  have htest {j : Nat} {a : Entry K V} (ha : t.entries[j]? = some a) :
      test a.key = true ↔ j < partitionPoint test t.keys :=
    partitionPoint_iff hkeys (by rw [keys, List.getElem?_map, ha, Option.map_some])
  rw [toList_of_child hc] at h
  obtain ⟨hbefore, hrest⟩ := h.of_append
  -- the entries just before the child and just behind it decide for all others
  constructor
  · refine hbefore.pass_of_getLast? fun a ha => ?_
    rw [getLast?_listBefore hc] at ha
    split at ha
    · cases ha
    · exact (htest ha).mpr (by omega)
  · refine hrest.of_append.2.fail_of_head? fun b hb => ?_
    rw [head?_listFrom] at hb
    exact Bool.eq_false_iff.mpr fun htrue => Nat.lt_irrefl _ ((htest hb).mp htrue)

theorem filter_toList (test : K → Bool) (h : Leading (test ·.key) t.toList)
    (hc : t.children[partitionPoint test t.keys]? = some c) :
    t.toList.filter (test ·.key) =
        t.listBefore (partitionPoint test t.keys) ++ c.toList.filter (test ·.key) ∧
      t.toList.filter (!test ·.key) =
        c.toList.filter (!test ·.key) ++ t.listFrom (partitionPoint test t.keys) := by
  obtain ⟨hpass, hfail⟩ := sides_of_partitionPoint h hc
  have hpass' : ∀ a ∈ t.listBefore (partitionPoint test t.keys), ¬(!test a.key) = true :=
    fun a ha => by rw [hpass a ha]; decide
  have hfail' : ∀ b ∈ t.listFrom (partitionPoint test t.keys), (!test b.key) = true :=
    fun b hb => by rw [hfail b hb]; rfl
  have hnone := List.filter_eq_nil_iff.mpr fun b hb => Bool.eq_false_iff.mp (hfail b hb)
  rw [toList_of_child hc]
  simp only [List.filter_append]
  constructor
  · rw [List.filter_eq_self.mpr hpass, hnone, List.append_nil]
  · rw [List.filter_eq_nil_iff.mpr hpass', List.filter_eq_self.mpr hfail', List.nil_append]

/-! ## The searches -/

theorem findLT?_eq_getLast? (h : Leading (cmp ·.key bound == .lt) t.toList) :
    t.findLT? cmp bound = (t.toList.filter (cmp ·.key bound == .lt)).getLast? := by
  fun_induction findLT? cmp t bound with
  | case1 t i hnone =>
    rw [toList_eq_nil_of_partitionPoint hnone, List.filter_nil, List.getLast?_nil]
  | case2 t i c hc ih =>
    rw [ih (leading_child h hc), (filter_toList _ h hc).1, List.getLast?_append,
      getLast?_listBefore hc]

theorem findGT?_eq_head? (h : Leading (cmp ·.key bound != .gt) t.toList) :
    t.findGT? cmp bound = (t.toList.filter (!cmp ·.key bound != .gt)).head? := by
  fun_induction findGT? cmp t bound with
  | case1 t i hnone =>
    rw [toList_eq_nil_of_partitionPoint hnone, List.filter_nil, List.head?_nil]
  | case2 t i c hc ih =>
    rw [ih (leading_child h hc), (filter_toList _ h hc).2, List.head?_append, head?_listFrom]

end Tree

/-- **The neighbours of a bound are the ends of the parts around the equal keys.** The comparison
need not be an order. -/
theorem neighbours_eq_ends {cmp : Comparison K} {bound : K} {t : Tree K V} {l m n : Nat}
    (hanswers : t.toList.map (cmp ·.key bound) =
      List.replicate l .lt ++ (List.replicate m .eq ++ List.replicate n .gt)) :
    t.findLT? cmp bound = (t.toList.filter (cmp ·.key bound == .lt)).getLast? ∧
      t.findGT? cmp bound = (t.toList.filter (cmp ·.key bound == .gt)).head? := by
  have horder : Location.InOrder (t.toList.map (cmp ·.key bound)) := by
    rw [hanswers]
    exact Location.inOrder_replicate l m n
  have hpairs := List.pairwise_map.mp horder
  have hless : Leading (cmp ·.key bound == .lt) t.toList :=
    hpairs.imp fun hab hb => beq_iff_eq.mpr (hab.2 (beq_iff_eq.mp hb))
  have hnotGreater : Leading (cmp ·.key bound != .gt) t.toList :=
    hpairs.imp fun hab hb => bne_iff_ne.mpr fun ha => bne_iff_ne.mp hb (hab.1 ha)
  refine ⟨Tree.findLT?_eq_getLast? hless, (Tree.findGT?_eq_head? hnotGreater).trans ?_⟩
  simp only [bne, Bool.not_not]

/-- Integers by magnitude: three keys equal -3, on two levels of an uneven tree. -/
theorem neighbours_eq_ends_byMagnitude :
    let pair : Tree Int64 Nat := .three .empty ⟨-3, 31⟩ .empty ⟨3, 32⟩ (.leaf ⟨-5, 50⟩)
    let t : Tree Int64 Nat := .two (.two (.leaf ⟨-1, 10⟩) ⟨2, 20⟩ .empty) ⟨3, 30⟩ pair
    t.toList.map (Comparison.byMagnitude ·.key (-3)) =
        List.replicate 2 .lt ++ (List.replicate 3 .eq ++ List.replicate 1 .gt) ∧
      t.findLT? Comparison.byMagnitude (-3) = some ⟨2, 20⟩ ∧
      t.findGT? Comparison.byMagnitude (-3) = some ⟨-5, 50⟩ := by
  intro pair t
  have hanswers : t.toList.map (Comparison.byMagnitude ·.key (-3)) =
      List.replicate 2 .lt ++ (List.replicate 3 .eq ++ List.replicate 1 .gt) := by decide
  obtain ⟨hless, hgreater⟩ := neighbours_eq_ends hanswers
  exact ⟨hanswers, hless.trans (by decide), hgreater.trans (by decide)⟩

end Multiway
