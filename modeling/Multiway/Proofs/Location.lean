import Multiway.Location

/-!
# The search within a node

Whatever the comparison answers, a location names an entry of the node or one of its children. If
the answers come in order, first `lt`, then `eq`, then `gt`, a child is named only where no entry
was hit, and then it hangs between the smaller and the greater keys.

* `Location.Within`: a slot or child that exists in a node with so many entries;
* `Location.InOrder`: answers that come in order;
* `Location.narrow_bounds`, `Location.narrow_ne_gt`, `Location.eq_gt_of_narrow_lt`: the window;
* **`locate_within`**, **`answer_of_locate_slot`**: for every comparison;
* **`answers_of_locate_child`**: for answers in order.
-/

namespace Multiway

namespace Location

variable {answers : List Ordering}

/-- The location names a slot or child of a node with `n` entries. -/
def Within (n : Nat) : Location → Prop
  | slot i => i < n
  | child i => i ≤ n

/-- No answer is less than one before it: first all `lt`, then all `eq`, then all `gt`. -/
def InOrder (answers : List Ordering) : Prop :=
  answers.Pairwise fun a b => (a = .gt → b = .gt) ∧ (b = .lt → a = .lt)

theorem inOrder_replicate (l m n : Nat) :
    InOrder (List.replicate l .lt ++ (List.replicate m .eq ++ List.replicate n .gt)) := by
  simp [InOrder, List.pairwise_append, List.pairwise_replicate, List.mem_replicate]

/-! ## The window -/

theorem narrow_bounds (answers : List Ordering) {base size : Nat} (hsize : 0 < size) :
    base ≤ narrow answers base size ∧ narrow answers base size < base + size := by
  fun_induction narrow answers base size with
  | case1 base size hmore middle next ih =>
    have hnext : base ≤ next ∧ next ≤ middle := by
      unfold next
      split <;> omega
    have := ih (by omega)
    omega
  | case2 base size hone => omega

theorem narrow_ne_gt (answers : List Ordering) (base size : Nat) :
    narrow answers base size = base ∨ answers[narrow answers base size]? ≠ some .gt := by
  fun_induction narrow answers base size with
  | case1 base size hmore middle next ih =>
    rcases ih with hbase | hne
    · by_cases hgt : answers[middle]? = some .gt
      · left
        rw [hbase]
        exact if_pos hgt
      · right
        rw [hbase]
        rwa [show next = middle from if_neg hgt]
    · exact Or.inr hne
  | case2 base size hone => exact Or.inl rfl

theorem InOrder.gt_of_gt (h : InOrder answers) {i j : Nat} (hij : i ≤ j)
    (hj : j < answers.length) (hi : answers[i]? = some .gt) : answers[j]? = some .gt := by
  rcases Nat.lt_or_eq_of_le hij with hlt | rfl
  · rw [List.getElem?_eq_getElem hj]
    rw [List.getElem?_eq_getElem (by omega), Option.some.injEq] at hi
    exact congrArg some ((List.pairwise_iff_getElem.mp h i j (by omega) hj hlt).1 hi)
  · exact hi

theorem InOrder.lt_of_lt (h : InOrder answers) {i j : Nat} (hij : i ≤ j)
    (hj : answers[j]? = some .lt) : answers[i]? = some .lt := by
  rcases Nat.lt_or_eq_of_le hij with hlt | rfl
  · obtain ⟨hlen, hj⟩ := List.getElem?_eq_some_iff.mp hj
    rw [List.getElem?_eq_getElem (by omega)]
    exact congrArg some ((List.pairwise_iff_getElem.mp h i j (by omega) hlen hlt).2 hj)
  · exact hj

/-- All answers behind the window are `gt`, and stay behind it. -/
theorem eq_gt_of_narrow_lt (h : InOrder answers) {base size j : Nat}
    (hbehind : ∀ j, base + size ≤ j → j < answers.length → answers[j]? = some .gt)
    (hj : narrow answers base size < j) (hlen : j < answers.length) : answers[j]? = some .gt := by
  fun_induction narrow answers base size with
  | case1 base size hmore middle next ih =>
    refine ih (fun k hk hklen => ?_) hj
    by_cases hgt : answers[middle]? = some .gt
    · exact h.gt_of_gt (by rw [show next = base from if_pos hgt] at hk; omega) hklen hgt
    · exact hbehind k (by rw [show next = middle from if_neg hgt] at hk; omega) hklen
  | case2 base size hone => exact hbehind j (by omega) hlen

/-! ## The location -/

theorem ofAnswers_within (answers : List Ordering) : (ofAnswers answers).Within answers.length := by
  simp only [ofAnswers]
  split
  · exact Nat.zero_le _
  all_goals
    next hanswer =>
      obtain ⟨hlt, -⟩ := List.getElem?_eq_some_iff.mp hanswer
      first | exact hlt | exact Nat.le_of_lt hlt

theorem getElem?_of_ofAnswers_slot {i : Nat} (h : ofAnswers answers = slot i) :
    answers[i]? = some .eq := by
  simp only [ofAnswers] at h
  split at h
  all_goals cases h
  assumption

theorem getElem?_of_ofAnswers_child (h : InOrder answers) {c : Nat}
    (hc : ofAnswers answers = child c) :
    (∀ j < c, answers[j]? = some .lt) ∧
      ∀ j, c ≤ j → j < answers.length → answers[j]? = some .gt := by
  have hbehind : ∀ j, narrow answers 0 answers.length < j → j < answers.length →
      answers[j]? = some .gt := fun j hj hlen =>
    eq_gt_of_narrow_lt h (fun k hk hklen => absurd hklen (by omega)) hj hlen
  have hbase := narrow_ne_gt answers 0 answers.length
  have hbounds := @narrow_bounds answers 0 answers.length
  simp only [ofAnswers] at hc
  obtain ⟨base, hwindow⟩ : ∃ base, narrow answers 0 answers.length = base := ⟨_, rfl⟩
  rw [hwindow] at hbehind hbase hbounds hc
  split at hc
  · next hnone =>
    cases hc
    have hlen : answers.length ≤ base := List.getElem?_eq_none_iff.mp hnone
    exact ⟨fun j hj => absurd hj (Nat.not_lt_zero j), fun j _ hj => absurd hbounds (by omega)⟩
  · next hlt =>
    cases hc
    exact ⟨fun j hj => h.lt_of_lt (by omega) hlt, fun j hj => hbehind j hj⟩
  · cases hc
  · next hgt =>
    cases hc
    have hzero : c = 0 := by
      rcases hbase with hzero | hne
      · exact hzero
      · exact absurd hgt hne
    exact ⟨fun j hj => absurd hj (by omega), fun j _ hlen => h.gt_of_gt (by omega) hlen hgt⟩

end Location

variable {K : Type} {cmp : Comparison K} {keys : List K} {key : K}

theorem locate_within (cmp : Comparison K) (keys : List K) (key : K) :
    (locate cmp keys key).Within keys.length := by
  have h := Location.ofAnswers_within (keys.map (cmp · key))
  rwa [List.length_map] at h

/-- **The entry at a named slot compares equal.** -/
theorem answer_of_locate_slot {i : Nat} (h : locate cmp keys key = .slot i) :
    ∃ k, keys[i]? = some k ∧ cmp k key = .eq := by
  have hanswer := Location.getElem?_of_ofAnswers_slot h
  rw [List.getElem?_map, Option.map_eq_some_iff] at hanswer
  exact hanswer

/-- **The keys on both sides of a named child**, if the answers come in order. -/
theorem answers_of_locate_child (hkeys : Location.InOrder (keys.map (cmp · key))) {c : Nat}
    (h : locate cmp keys key = .child c) :
    (∀ j < c, ∃ k, keys[j]? = some k ∧ cmp k key = .lt) ∧
      ∀ j k, c ≤ j → keys[j]? = some k → cmp k key = .gt := by
  obtain ⟨hbefore, hafter⟩ := Location.getElem?_of_ofAnswers_child hkeys h
  refine ⟨fun j hj => ?_, fun j k hj hk => ?_⟩
  · have hanswer := hbefore j hj
    rwa [List.getElem?_map, Option.map_eq_some_iff] at hanswer
  · have hlen : j < keys.length := (List.getElem?_eq_some_iff.mp hk).1
    have hanswer := hafter j hj (by rwa [List.length_map])
    rw [List.getElem?_map, hk] at hanswer
    exact Option.some.inj hanswer

end Multiway
