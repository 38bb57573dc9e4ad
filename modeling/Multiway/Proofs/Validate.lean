import Multiway.Proofs.Ascending
import Multiway.Proofs.Balance
import Multiway.Tree.Validate

/-!
# The check is exact

The check of a tree looks at one node at a time: at neighbouring keys, at the first and the last key
against the nearest keys above, and at the height of a child against that of the first child. For a
comparison that is a total preorder it accepts just the sound trees, whose list is ascending and
whose empty subtrees all lie at one depth.

* `ascending_iff_pairwise`: neighbours are enough;
* `Tree.checkKeys_eq_ok_iff`, `Tree.checkLeaf_eq_ok`, `Tree.checkHeight_eq_ok_iff`: one node;
* **`Tree.check_eq_ok_iff`**: a subtree between two bounds;
* **`validate_exact`**: the whole tree.
-/

namespace Multiway

variable {K V : Type} {cmp : Comparison K}

theorem ascending_iff_pairwise [Std.TransCmp cmp] {ks : List K} :
    ascending cmp ks = true ↔ ks.Pairwise fun a b => cmp a b = .lt := by
  induction ks with
  | nil => simp [ascending]
  | cons a ks ih =>
    cases ks with
    | nil => simp [ascending]
    | cons b ks =>
      rw [ascending, Bool.and_eq_true, beq_iff_eq, ih]
      constructor
      · rintro ⟨hlt, hrest⟩
        refine List.pairwise_cons.mpr ⟨fun c hc => ?_, hrest⟩
        rcases List.mem_cons.mp hc with rfl | hc
        · exact hlt
        · exact Std.TransCmp.lt_trans hlt ((List.pairwise_cons.mp hrest).1 c hc)
      · intro hall
        obtain ⟨hlt, hrest⟩ := List.pairwise_cons.mp hall
        exact ⟨hlt b List.mem_cons_self, hrest⟩

namespace Tree

variable {t : Tree K V} {lower upper : Option K} {level h d : Nat}

/-! ## One node -/

theorem checkKeys_eq_ok_iff [Std.TransCmp cmp] {u : Unit} :
    checkKeys cmp lower upper level t = .ok u ↔
      (lower.toList ++ t.keys ++ upper.toList).Pairwise fun a b => cmp a b = .lt := by
  rw [checkKeys, ← ascending_iff_pairwise]
  split <;> simp_all

theorem checkLeaf_eq_ok (ht : t.HasHeight (h + 1)) : checkLeaf level t = .ok () := by
  refine if_pos (List.all_eq_true.mpr fun c hc => beq_iff_eq.mpr ?_)
  have hheight := (hasHeight_succ_iff.mp ht).2 c hc
  obtain _ | h := h
  · rw [hasHeight_zero_iff.mp hheight, ht.isLeaf_iff.mpr rfl]
  · rw [hheight.isEmpty_eq, ht.isLeaf_eq_false]

theorem checkHeight_eq_ok_iff {expected found : Nat} {u : Unit} :
    checkHeight level expected found = .ok u ↔ found = expected := by
  rw [checkHeight]
  split <;> simp_all

/-! ## A subtree -/

theorem pairwise_cons_keys [Std.TransCmp cmp] {a : K} {ks : List K} :
    ((lower.toList ++ a :: ks ++ upper.toList).Pairwise fun k l => cmp k l = .lt) ↔
      (∀ l ∈ lower, cmp l a = .lt) ∧ (∀ u ∈ upper, cmp a u = .lt) ∧
        (((some a).toList ++ ks ++ upper.toList).Pairwise fun k l => cmp k l = .lt) := by
  have hupper (hrest : (a :: (ks ++ upper.toList)).Pairwise fun k l => cmp k l = .lt) :
      ∀ u ∈ upper, cmp a u = .lt := fun u hu =>
    (List.pairwise_cons.mp hrest).1 u (List.mem_append_right ks (Option.mem_toList.mpr hu))
  cases lower with
  | none =>
    simp only [Option.toList_none, List.nil_append, List.cons_append, Option.toList_some,
      Option.not_mem_none, false_imp_iff, implies_true, true_and]
    exact ⟨fun hrest => ⟨hupper hrest, hrest⟩, And.right⟩
  | some l =>
    simp only [Option.toList_some, List.cons_append, Option.mem_some_iff, forall_eq']
    constructor
    · intro hall
      obtain ⟨hl, hrest⟩ := List.pairwise_cons.mp hall
      exact ⟨hl a List.mem_cons_self, hupper hrest, hrest⟩
    · rintro ⟨hla, -, hrest⟩
      refine List.pairwise_cons.mpr ⟨fun k hk => ?_, hrest⟩
      rcases List.mem_cons.mp hk with rfl | hk
      · exact hla
      · exact Std.TransCmp.lt_trans hla ((List.pairwise_cons.mp hrest).1 k hk)

theorem pairwise_last_key {a : K} :
    (((some a).toList ++ [] ++ upper.toList).Pairwise fun k l => cmp k l = Ordering.lt) ↔
      ∀ u ∈ upper, cmp a u = .lt := by
  cases upper <;> simp

/-- **A subtree passes if its list lies between the bounds and its empty subtrees at one depth.** -/
theorem check_eq_ok_iff [Std.TransCmp cmp] :
    check cmp lower upper level t = .ok d ↔ Between cmp lower upper t.toList ∧ t.HasHeight d := by
  -- the bounds and the level change on the way down
  induction t generalizing lower upper level d with
  | empty =>
    rw [check, Except.ok.injEq]
    constructor
    · rintro rfl
      exact ⟨between_nil, hasHeight_empty⟩
    · rintro ⟨-, ht⟩
      exact ht.depth_eq
  | two c₀ a c₁ ih₀ ih₁ =>
    simp only [check, bind_eq_ok_iff, checkKeys_eq_ok_iff, checkHeight_eq_ok_iff, ih₀, ih₁, toList,
      between_append_cons, keys, entries, List.map_cons, List.map_nil, pairwise_cons_keys,
      pairwise_last_key, pure, Except.pure, Except.ok.injEq]
    constructor
    · rintro ⟨-, ⟨hl, hu, -⟩, -, -, h, ⟨hb₀, ht₀⟩, _, ⟨hb₁, ht₁⟩, -, rfl, rfl⟩
      exact ⟨⟨hl, hu, hb₀, hb₁⟩, hasHeight_two.mpr ⟨ht₀, ht₁⟩⟩
    · rintro ⟨⟨hl, hu, hb₀, hb₁⟩, ht⟩
      obtain ⟨h, rfl⟩ := ht.exists_eq_succ rfl
      obtain ⟨ht₀, ht₁⟩ := hasHeight_two.mp ht
      exact ⟨(), ⟨hl, hu, hu⟩, (), checkLeaf_eq_ok ht, h, ⟨hb₀, ht₀⟩, h, ⟨hb₁, ht₁⟩, (), rfl, rfl⟩
  | three c₀ a c₁ b c₂ ih₀ ih₁ ih₂ =>
    simp only [check, bind_eq_ok_iff, checkKeys_eq_ok_iff, checkHeight_eq_ok_iff, ih₀, ih₁, ih₂,
      toList, between_append_cons, keys, entries, List.map_cons, List.map_nil, pairwise_cons_keys,
      pairwise_last_key, pure, Except.pure, Except.ok.injEq]
    constructor
    · rintro ⟨-, ⟨hl, hu, hl', hu', -⟩, -, -, h, ⟨hb₀, ht₀⟩, _, ⟨hb₁, ht₁⟩, -, rfl, _, ⟨hb₂, ht₂⟩,
        -, rfl, rfl⟩
      exact ⟨⟨hl, hu, hb₀, hl', hu', hb₁, hb₂⟩, hasHeight_three.mpr ⟨ht₀, ht₁, ht₂⟩⟩
    · rintro ⟨⟨hl, hu, hb₀, hl', hu', hb₁, hb₂⟩, ht⟩
      obtain ⟨h, rfl⟩ := ht.exists_eq_succ rfl
      obtain ⟨ht₀, ht₁, ht₂⟩ := hasHeight_three.mp ht
      exact ⟨(), ⟨hl, hu, hl', hu', hu'⟩, (), checkLeaf_eq_ok ht, h, ⟨hb₀, ht₀⟩, h, ⟨hb₁, ht₁⟩,
        (), rfl, h, ⟨hb₂, ht₂⟩, (), rfl, rfl⟩
  | four c₀ a c₁ b c₂ c c₃ ih₀ ih₁ ih₂ ih₃ =>
    simp only [check, bind_eq_ok_iff, checkKeys_eq_ok_iff, checkHeight_eq_ok_iff, ih₀, ih₁, ih₂,
      ih₃, toList, between_append_cons, keys, entries, List.map_cons, List.map_nil,
      pairwise_cons_keys, pairwise_last_key, pure, Except.pure, Except.ok.injEq]
    constructor
    · rintro ⟨-, ⟨hl, hu, hl', hu', hl'', hu'', -⟩, -, -, h, ⟨hb₀, ht₀⟩, _, ⟨hb₁, ht₁⟩, -, rfl,
        _, ⟨hb₂, ht₂⟩, -, rfl, _, ⟨hb₃, ht₃⟩, -, rfl, rfl⟩
      exact ⟨⟨hl, hu, hb₀, hl', hu', hb₁, hl'', hu'', hb₂, hb₃⟩,
        hasHeight_four.mpr ⟨ht₀, ht₁, ht₂, ht₃⟩⟩
    · rintro ⟨⟨hl, hu, hb₀, hl', hu', hb₁, hl'', hu'', hb₂, hb₃⟩, ht⟩
      obtain ⟨h, rfl⟩ := ht.exists_eq_succ rfl
      obtain ⟨ht₀, ht₁, ht₂, ht₃⟩ := hasHeight_four.mp ht
      exact ⟨(), ⟨hl, hu, hl', hu', hl'', hu'', hu''⟩, (), checkLeaf_eq_ok ht, h, ⟨hb₀, ht₀⟩, h,
        ⟨hb₁, ht₁⟩, (), rfl, h, ⟨hb₂, ht₂⟩, (), rfl, h, ⟨hb₃, ht₃⟩, (), rfl, rfl⟩

/-! ## The whole tree -/

theorem validate_eq_ok_iff [Std.TransCmp cmp] :
    t.validate cmp = .ok d ↔ Ascending cmp t.toList ∧ t.HasHeight d := by
  rw [validate, check_eq_ok_iff, between_none_iff]

end Tree

/-- **The check accepts just the sound trees**, and answers with their depth. -/
theorem validate_exact (cmp : Comparison K) [Std.TransCmp cmp] (t : Tree K V) :
    ((∃ d, t.validate cmp = .ok d) ↔ Ascending cmp t.toList ∧ t.Balanced) ∧
      (∀ d, t.validate cmp = .ok d → d = t.depth ∧ t.HasHeight d) ∧
      (¬(Ascending cmp t.toList ∧ t.Balanced) → ∃ defect, t.validate cmp = .error defect) := by
  have hsound : (∃ d, t.validate cmp = .ok d) ↔ Ascending cmp t.toList ∧ t.Balanced := by
    simp only [Tree.validate_eq_ok_iff, exists_and_left, Tree.Balanced]
  refine ⟨hsound, fun d hd => ?_, fun hunsound => ?_⟩
  · have ht := (Tree.validate_eq_ok_iff.mp hd).2
    exact ⟨ht.depth_eq.symm, ht⟩
  · cases hcheck : t.validate cmp with
    | error defect => exact ⟨defect, rfl⟩
    | ok d => exact absurd (hsound.mp ⟨d, hcheck⟩) hunsound

/-- Integers by magnitude: a tree of depth two passes, and one with a leaf too deep does not. -/
theorem validate_exact_byMagnitude :
    let low : Tree Int64 Nat := .leaf ⟨-1, 10⟩
    let high : Tree Int64 Nat := .three .empty ⟨-3, 30⟩ .empty ⟨4, 40⟩ .empty
    let sound := Tree.two low ⟨2, 20⟩ high
    let uneven := Tree.two low ⟨2, 20⟩ (.two high ⟨-5, 50⟩ (.leaf ⟨6, 60⟩))
    Std.TransCmp Comparison.byMagnitude ∧ (Ascending Comparison.byMagnitude sound.toList ∧
      sound.Balanced) ∧ 2 = sound.depth ∧ ¬uneven.Balanced := by
  intro low high sound uneven
  have : Std.TransCmp Comparison.byMagnitude := inferInstanceAs (Std.TransCmp (compareOn _))
  obtain ⟨hiff, hdepth, -⟩ := validate_exact Comparison.byMagnitude sound
  have hsound : sound.validate Comparison.byMagnitude = .ok 2 := by decide
  refine ⟨this, hiff.mp ⟨2, hsound⟩, (hdepth 2 hsound).1, fun hbalanced => ?_⟩
  have hascending : Ascending Comparison.byMagnitude uneven.toList := by
    unfold Ascending
    decide
  obtain ⟨d, hd⟩ := (validate_exact Comparison.byMagnitude uneven).1.mpr ⟨hascending, hbalanced⟩
  have huneven : uneven.validate Comparison.byMagnitude = .error (.unevenLeafDepth 0 1 2) := by
    decide
  rw [huneven] at hd
  cases hd

end Multiway
