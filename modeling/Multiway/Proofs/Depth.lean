import Mathlib.Algebra.Ring.Nat
import Multiway.Proofs.Descent

/-!
# Depth

A balanced tree grows and shrinks at its root only. An insertion that finds the root full splits it,
and this alone adds a level, whether the key is new or not; a removal takes a level away only if the
root had a single entry and loses it to a merge of its children.

A node has at least two and at most four children. So a tree of height `h` has between `2 ^ h - 1`
and `4 ^ h - 1` entries. What comes of any changes is balanced, whatever the comparisons, and
therefore no deeper than the logarithm of its size.

* `Tree.Inserts.hasHeight_of_splitRoot`, `Tree.Withdrawal.hasHeight`: the height after an update;
* **`depth_changes_at_root`**: when an update changes the depth;
* **`Tree.HasHeight.size_bounds`**: how many entries fit a height;
* `Tree.Measured`, `Tree.Balanced.measured`: what depth and size say about each other;
* **`history_measured`**: any changes of the smallest trees.
-/

namespace Multiway

variable {K V W : Type}

/-! ## The depth after an update -/

namespace Tree

variable {cmp : Comparison K} {t u : Tree K V} {e : Entry K V} {ins : Insertion K V} {h : Nat}

theorem isFull_iff : t.isFull = true ↔ t.arity = 4 := by
  cases t <;> simp [isFull, arity]

theorem Inserts.hasHeight_of_splitRoot (hins : Inserts cmp e t.splitRoot ins)
    (ht : t.HasHeight h) :
    ins.tree.HasHeight (if t.isEmpty || t.isFull then h + 1 else h) := by
  cases hempty : t.isEmpty with
  | true =>
    obtain rfl := isEmpty_iff.mp hempty
    obtain rfl := ht.depth_eq
    rw [hins.eq_bottom]
    exact hasHeight_leaf e
  | false =>
    obtain ⟨k, rfl⟩ := ht.exists_eq_succ hempty
    have hroot := ht.splitRoot
    rw [Bool.false_or]
    by_cases hfull : t.isFull = true
    · rw [if_pos hfull] at hroot ⊢
      exact hins.hasHeight hroot
    · rw [if_neg hfull] at hroot ⊢
      exact hins.hasHeight hroot

theorem Withdrawal.hasHeight (hu : t.Withdrawal h u) (ht : t.HasHeight h) :
    u.HasHeight h ∨ ∃ k, h = k + 1 ∧ u.HasHeight k ∧ t.arity = 2 := by
  cases hu with
  | untouched => exact .inl ht
  | @removed before behind r k hk hremoved _ =>
    have hheight := hremoved.hasHeight
    cases hshort : r.short with
    | true =>
      rw [hshort] at hheight
      exact .inr ⟨k, hk, hheight, hremoved.arity_of_short hshort⟩
    | false =>
      rw [hshort] at hheight
      exact .inl (hk ▸ hheight)

end Tree

/-- **Only the root decides about the depth**: whether it is full, or has a single entry. -/
theorem depth_changes_at_root {t : Tree K V} (ht : t.Balanced) :
    (∀ (cmp : Comparison K) (e : Entry K V),
      ∃ u, (Change.edit (.insert cmp e)).apply t = .ok u ∧
        (u.depth = t.depth + 1 ↔ t = .empty ∨ t.arity = 4) ∧
        (¬(t = .empty ∨ t.arity = 4) → u.depth = t.depth)) ∧
    ∀ edit : Edit K V, edit.isRemoval = true →
      ∃ u, (Change.edit edit).apply t = .ok u ∧
        u.depth ≤ t.depth ∧ t.depth ≤ u.depth + 1 ∧ (u.depth < t.depth → t.arity = 2) := by
  obtain ⟨h, hh⟩ := ht
  refine ⟨fun cmp e => ?_, fun edit hedit => ?_⟩
  · obtain ⟨ins, hok, hins⟩ := Tree.exists_insert cmp t e
    have hdepth := (hins.hasHeight_of_splitRoot hh).depth_eq
    have hroot : (t.isEmpty || t.isFull) = true ↔ t = .empty ∨ t.arity = 4 := by
      rw [Bool.or_eq_true, Tree.isEmpty_iff, Tree.isFull_iff]
    refine ⟨ins.tree, by rw [Change.apply, Edit.apply, hok]; rfl, ?_⟩
    rw [hdepth, hh.depth_eq, ← hroot]
    by_cases hgrows : (t.isEmpty || t.isFull) = true
    · rw [if_pos hgrows]
      exact ⟨iff_of_true rfl hgrows, fun hstays => absurd hgrows hstays⟩
    · rw [if_neg hgrows]
      exact ⟨iff_of_false (Nat.ne_of_lt (Nat.lt_succ_self h)) hgrows, fun _ => rfl⟩
  · obtain ⟨u, hok, hu⟩ := Change.exists_withdrawal hedit hh
    refine ⟨u, hok, ?_⟩
    rw [hh.depth_eq]
    rcases hu.hasHeight hh with hsame | ⟨k, rfl, hless, harity⟩
    · rw [hsame.depth_eq]
      omega
    · rw [hless.depth_eq]
      omega

/-- Keys in no order: the full root is split although only a value is replaced. -/
theorem depth_changes_at_root_overwritten :
    let full : Tree Int64 Nat := .four .empty ⟨9, 90⟩ .empty ⟨3, 30⟩ .empty ⟨5, 50⟩ .empty
    let t : Tree Int64 Nat := .two (.leaf ⟨9, 90⟩) ⟨3, 70⟩ (.leaf ⟨5, 50⟩)
    let merged : Tree Int64 Nat := .three .empty ⟨3, 70⟩ .empty ⟨5, 50⟩ .empty
    full.Balanced ∧ t.Balanced ∧
      (Change.edit (.insert (.constant .eq) ⟨7, 70⟩)).apply full = .ok t ∧
      t.depth = full.depth + 1 ∧ full.arity = 4 ∧
      (Change.edit .eraseFirst).apply t = .ok merged ∧ merged.depth < t.depth ∧ t.arity = 2 := by
  intro full t merged
  have hfull : full.Balanced := ⟨1, by simp [full, Tree.hasHeight_empty]⟩
  have ht : t.Balanced := ⟨2, by simp [t, Tree.leaf, Tree.hasHeight_empty]⟩
  have hgrow : (Change.edit (.insert (.constant .eq) ⟨7, 70⟩)).apply full = .ok t := by cbv
  have hshrink : (Change.edit .eraseFirst).apply t = .ok merged := by cbv
  obtain ⟨hinsert, -⟩ := depth_changes_at_root hfull
  obtain ⟨-, hremove⟩ := depth_changes_at_root ht
  obtain ⟨u, hu, hdepth, -⟩ := hinsert (.constant .eq) ⟨7, 70⟩
  obtain ⟨v, hv, -, -, harity⟩ := hremove .eraseFirst rfl
  obtain rfl := Except.ok.inj (hgrow.symm.trans hu)
  obtain rfl := Except.ok.inj (hshrink.symm.trans hv)
  have hless : merged.depth < t.depth := Nat.lt_succ_self 1
  exact ⟨hfull, ht, hgrow, hdepth.mpr (.inr rfl), rfl, hshrink, hless, harity hless⟩

/-! ## Depth and size -/

namespace Tree

variable {t : Tree K V} {h : Nat}

theorem isEmpty_iff_size : t.isEmpty = true ↔ t.size = 0 := by
  cases t <;> simp [isEmpty, size]

/-- From level to level the subtrees become two to four times as many. -/
theorem HasHeight.size_bounds (ht : t.HasHeight h) : 2 ^ h ≤ t.size + 1 ∧ t.size + 1 ≤ 4 ^ h := by
  induction t generalizing h with
  | empty =>
    obtain rfl := ht.depth_eq
    exact ⟨Nat.le_refl 1, Nat.le_refl 1⟩
  | two c₀ a c₁ ih₀ ih₁ =>
    obtain ⟨k, rfl⟩ := ht.exists_eq_succ rfl
    obtain ⟨h₀, h₁⟩ := hasHeight_two.mp ht
    have hb₀ := ih₀ h₀
    have hb₁ := ih₁ h₁
    rw [size, pow_succ, pow_succ]
    omega
  | three c₀ a c₁ b c₂ ih₀ ih₁ ih₂ =>
    obtain ⟨k, rfl⟩ := ht.exists_eq_succ rfl
    obtain ⟨h₀, h₁, h₂⟩ := hasHeight_three.mp ht
    have hb₀ := ih₀ h₀
    have hb₁ := ih₁ h₁
    have hb₂ := ih₂ h₂
    rw [size, pow_succ, pow_succ]
    omega
  | four c₀ a c₁ b c₂ c c₃ ih₀ ih₁ ih₂ ih₃ =>
    obtain ⟨k, rfl⟩ := ht.exists_eq_succ rfl
    obtain ⟨h₀, h₁, h₂, h₃⟩ := hasHeight_four.mp ht
    have hb₀ := ih₀ h₀
    have hb₁ := ih₁ h₁
    have hb₂ := ih₂ h₂
    have hb₃ := ih₃ h₃
    rw [size, pow_succ, pow_succ]
    omega

theorem Balanced.isSingleton_iff (ht : t.Balanced) : t.isSingleton = true ↔ t.size = 1 := by
  obtain ⟨h, ht⟩ := ht
  cases t with
  | empty | three | four => simp [isSingleton, size]
  | two c₀ a c₁ =>
    obtain ⟨k, rfl⟩ := ht.exists_eq_succ rfl
    obtain ⟨h₀, h₁⟩ := hasHeight_two.mp ht
    -- the children are empty together, since they have one height
    have hchildren : c₀.isEmpty = true → c₁.isEmpty = true := fun hempty => by
      obtain rfl := isEmpty_iff.mp hempty
      obtain rfl := h₀.depth_eq
      exact hasHeight_zero_iff.mp h₁
    rw [isEmpty_iff_size, isEmpty_iff_size] at hchildren
    rw [isSingleton, isEmpty_iff_size, size]
    omega

/-- Depth and size of a tree bound each other, and the size decides the two questions that the
library answers from the root. -/
structure Measured (t : Tree K V) : Prop where
  two_pow_le : 2 ^ t.depth - 1 ≤ t.size
  le_four_pow : t.size ≤ 4 ^ t.depth - 1
  depth_le : t.depth ≤ Nat.log2 (t.size + 1)
  isEmpty_iff : t.isEmpty = true ↔ t.size = 0
  isSingleton_iff : t.isSingleton = true ↔ t.size = 1

theorem Balanced.measured (ht : t.Balanced) : t.Measured := by
  obtain ⟨h, hh⟩ := ht
  obtain ⟨hlower, hupper⟩ := hh.size_bounds
  rw [← hh.depth_eq] at hlower hupper
  exact {
    two_pow_le := by omega
    le_four_pow := by omega
    depth_le := (Nat.le_log2 (Nat.succ_ne_zero _)).mpr hlower
    isEmpty_iff := isEmpty_iff_size
    isSingleton_iff := Balanced.isSingleton_iff ⟨h, hh⟩ }

end Tree

/-- **Depth and size bound each other** after any changes, however the updates compare. -/
theorem history_measured {start : Tree K V} (hstart : start = .empty ∨ ∃ e, start = .leaf e)
    (changes : History K V W) :
    ∃ trees, changes.trees start = .ok trees ∧ trees.length = changes.length + 1 ∧
      ∀ u ∈ trees, u.2.Measured := by
  have hbalanced : start.Balanced := by
    rcases hstart with rfl | ⟨e, rfl⟩
    · exact ⟨0, Tree.hasHeight_empty⟩
    · exact ⟨1, Tree.hasHeight_leaf e⟩
  obtain ⟨trees, htrees, hlength, hall⟩ := changes.exists_trees hbalanced
  exact ⟨trees, htrees, hlength, fun u hu => (hall u hu).measured⟩

/-- Insertions under a comparison that is no order, removals and a transform keep to the bounds. -/
theorem history_measured_unordered :
    let put (key : Int64) : Change Int64 Nat Nat := .edit (.insert (.constant .gt) ⟨key, 0⟩)
    let changes : History Int64 Nat Bool :=
      .next (put 7) <| .next (put 2) <| .next (put 2) <| .next (put 9) <|
      .next (.edit .eraseFirst) <| .next (.edit .eraseFirst) <|
      .next (.map (fun _ v n => (v == 0, n + 1)) 0) .done
    let start : Tree Int64 Nat := .empty
    (start = .empty ∨ ∃ e, start = .leaf e) ∧ ∃ trees, changes.trees start = .ok trees ∧
      trees.map (fun u => (u.2.size, u.2.depth)) =
        [(0, 0), (1, 1), (2, 1), (3, 1), (4, 2), (3, 2), (2, 1), (2, 1)] ∧
      ∀ u ∈ trees, u.2.Measured := by
  intro put changes start
  have hstart : start = .empty ∨ ∃ e, start = .leaf e := .inl rfl
  have hrun : (changes.trees start).toOption.map (List.map fun u => (u.2.size, u.2.depth)) =
      some [(0, 0), (1, 1), (2, 1), (3, 1), (4, 2), (3, 2), (2, 1), (2, 1)] := by cbv
  obtain ⟨trees, htrees, -, hall⟩ := history_measured hstart changes
  rw [htrees] at hrun
  exact ⟨hstart, trees, htrees, Option.some.inj hrun, hall⟩

end Multiway
