import Multiway.Proofs.Balance

/-!
# Mending a short child restores the node

A node one of whose children is a level shorter than the others is mended by a loan or a merge. The
list of the tree stays as it is, and the node is balanced again. It is a level shorter itself only
if it had a single entry and its other child had none to spare.

* `Tree.ShortAt`: one child is a level shorter than the others;
* `Tree.Mended`: what a repair leaves;
* `Tree.exists_loan_left`, `Tree.exists_loan_right`: what a loan is;
* `Tree.rotateFromLeft?_mended`, `Tree.rotateFromRight?_mended`, `Tree.exists_merge`;
* **`Tree.exists_repair`**: a short child can always be mended;
* **`repair_restores`**: what a repair does, and when the node is short then itself.
-/

namespace Multiway

namespace Tree

variable {K V : Type} {t t' c : Tree K V} {g loan : Gap K V} {h i : Nat} {short : Bool}

/-- Child `i` of the root has height `h`, and all other children have height `h + 1`. -/
structure ShortAt (t : Tree K V) (i h : Nat) : Prop where
  isEmpty_eq : t.isEmpty = false
  child : ∃ c, t.children[i]? = some c ∧ c.HasHeight h
  siblings : ∀ j d, j ≠ i → t.children[j]? = some d → d.HasHeight (h + 1)

/-- The tree `t'` has the entries of `t`, and height `h + 2`, or `h + 1` if it is `short`. -/
structure Mended (t : Tree K V) (i h : Nat) (t' : Tree K V) (short : Bool) : Prop where
  toList_eq : t'.toList = t.toList
  hasHeight : t'.HasHeight (if short then h + 1 else h + 2)
  short_iff : short = true ↔
    t.arity = 2 ∧ ∀ j d, j ≠ i → t.children[j]? = some d → d.arity = 2

/-! ## Gaps -/

theorem children_setGap (t : Tree K V) (i : Nat) (g : Gap K V) :
    (t.setGap i g).children = (t.children.set i g.left).set (i + 1) g.right := by
  rw [setGap, children_setChild, children_setEntry, children_setChild]

theorem isEmpty_setGap (t : Tree K V) (i : Nat) (g : Gap K V) :
    (t.setGap i g).isEmpty = t.isEmpty := by
  rw [setGap, isEmpty_setChild, isEmpty_setEntry, isEmpty_setChild]

theorem hasHeight_setGap (hempty : t.isEmpty = false) (hl : g.left.HasHeight h)
    (hr : g.right.HasHeight h)
    (hothers : ∀ j d, j ≠ i → j ≠ i + 1 → t.children[j]? = some d → d.HasHeight h) :
    (t.setGap i g).HasHeight (h + 1) := by
  rw [hasHeight_succ_iff, isEmpty_setGap, children_setGap]
  refine ⟨hempty, fun d hd => ?_⟩
  obtain ⟨j, hj⟩ := List.mem_iff_getElem?.mp hd
  rw [List.getElem?_set, List.length_set, List.getElem?_set] at hj
  split_ifs at hj with h₁ h₂ h₃ h₄
  · cases hj
    exact hr
  · cases hj
    exact hl
  · exact hothers j d (Ne.symm h₃) (Ne.symm h₁) hj

/-- An entry of a node can be given up; a node that had only this one is short then. -/
theorem exists_closeGap (hgap : t.gap? i = some g) (c : Tree K V) :
    ∃ t', t.closeGap i c = .ok (t', t.arity == 2) := by
  obtain ⟨-, hm, -⟩ := gap?_eq_some.mp hgap
  cases t <;> rcases i with _ | _ | _ | i <;> cases hm <;> exact ⟨_, rfl⟩

theorem hasHeight_closeGap (hgap : t.gap? i = some g) (hclose : t.closeGap i c = .ok (t', short))
    (hc : c.HasHeight h)
    (hothers : ∀ j d, j ≠ i → j ≠ i + 1 → t.children[j]? = some d → d.HasHeight h) :
    t'.HasHeight (if short then h else h + 1) := by
  obtain ⟨-, hm, -⟩ := gap?_eq_some.mp hgap
  have h₀ := fun d => hothers 0 d
  have h₁ := fun d => hothers 1 d
  have h₂ := fun d => hothers 2 d
  have h₃ := fun d => hothers 3 d
  cases t <;> rcases i with _ | _ | _ | i <;> cases hm <;> cases hclose <;>
    simp_all [children]

/-! ## Loans -/

theorem toList_lendLast? (hloan : t.lendLast? = some loan) :
    t.toList = loan.left.toList ++ loan.middle :: loan.right.toList := by
  cases t <;> cases hloan <;> simp [toList]

theorem toList_lendFirst? (hloan : t.lendFirst? = some loan) :
    t.toList = loan.left.toList ++ loan.middle :: loan.right.toList := by
  cases t <;> cases hloan <;> simp [toList]

theorem HasHeight.lendLast? (ht : t.HasHeight (h + 1)) (hloan : t.lendLast? = some loan) :
    loan.left.HasHeight (h + 1) ∧ loan.right.HasHeight h ∧ t.arity ≠ 2 := by
  cases t <;> cases hloan <;> simp_all [arity]

theorem HasHeight.lendFirst? (ht : t.HasHeight (h + 1)) (hloan : t.lendFirst? = some loan) :
    loan.left.HasHeight h ∧ loan.right.HasHeight (h + 1) ∧ t.arity ≠ 2 := by
  cases t <;> cases hloan <;> simp_all [arity]

theorem exists_loan_left (hrotate : t.rotateFromLeft? i = some t') :
    ∃ j g loan, i = j + 1 ∧ t.gap? j = some g ∧ g.left.lendLast? = some loan ∧
      t.setGap j ⟨loan.left, loan.middle, two loan.right g.middle g.right⟩ = t' := by
  obtain _ | j := i
  · cases hrotate
  · simp only [rotateFromLeft?, Option.bind_eq_bind, Option.bind_eq_some_iff] at hrotate
    obtain ⟨g, hgap, loan, hloan, hwrite⟩ := hrotate
    rw [writeGap?_ok hgap] at hwrite
    exact ⟨j, g, loan, rfl, hgap, hloan, Option.some.inj hwrite⟩

theorem exists_loan_right (hrotate : t.rotateFromRight? i = some t') :
    ∃ g loan, t.gap? i = some g ∧ g.right.lendFirst? = some loan ∧
      t.setGap i ⟨two g.left g.middle loan.left, loan.middle, loan.right⟩ = t' := by
  simp only [rotateFromRight?, Option.bind_eq_bind, Option.bind_eq_some_iff] at hrotate
  obtain ⟨g, hgap, loan, hloan, hwrite⟩ := hrotate
  rw [writeGap?_ok hgap] at hwrite
  exact ⟨g, loan, hgap, hloan, Option.some.inj hwrite⟩

theorem rotateFromLeft?_mended (ht : t.ShortAt i h) (hrotate : t.rotateFromLeft? i = some t') :
    Mended t i h t' false := by
  obtain ⟨i, g, loan, rfl, hgap, hloan, rfl⟩ := exists_loan_left hrotate
  obtain ⟨hl, -, hr⟩ := gap?_eq_some.mp hgap
  obtain ⟨c, hc, hshort⟩ := ht.child
  rw [hr] at hc
  cases hc
  obtain ⟨hleft, hright, harity⟩ := (ht.siblings i _ (by omega) hl).lendLast? hloan
  refine ⟨?_, ?_, ?_⟩
  · rw [toList_setGap hgap, toList_of_gap hgap, toList_lendLast? hloan]
    simp [toList]
  · exact hasHeight_setGap ht.isEmpty_eq hleft (hasHeight_two.mpr ⟨hright, hshort⟩)
      fun j d _ hj hd => ht.siblings j d hj hd
  · exact ⟨fun hfalse => absurd hfalse Bool.false_ne_true,
      fun hsingle => absurd (hsingle.2 i _ (by omega) hl) harity⟩

theorem rotateFromRight?_mended (ht : t.ShortAt i h) (hrotate : t.rotateFromRight? i = some t') :
    Mended t i h t' false := by
  obtain ⟨g, loan, hgap, hloan, rfl⟩ := exists_loan_right hrotate
  obtain ⟨hl, -, hr⟩ := gap?_eq_some.mp hgap
  obtain ⟨c, hc, hshort⟩ := ht.child
  rw [hl] at hc
  cases hc
  obtain ⟨hleft, hright, harity⟩ := (ht.siblings (i + 1) _ (by omega) hr).lendFirst? hloan
  refine ⟨?_, ?_, ?_⟩
  · rw [toList_setGap hgap, toList_of_gap hgap, toList_lendFirst? hloan]
    simp [toList]
  · exact hasHeight_setGap ht.isEmpty_eq (hasHeight_two.mpr ⟨hshort, hleft⟩) hright
      fun j d hj _ hd => ht.siblings j d hj hd
  · exact ⟨fun hfalse => absurd hfalse Bool.false_ne_true,
      fun hsingle => absurd (hsingle.2 (i + 1) _ (by omega) hr) harity⟩

theorem lendLast?_eq_none (hgap : t.gap? i = some g) (hnone : t.rotateFromLeft? (i + 1) = none) :
    g.left.lendLast? = none := by
  simp only [rotateFromLeft?, hgap, writeGap?_ok hgap, Option.bind_eq_bind,
    Option.bind_some] at hnone
  cases hloan : g.left.lendLast? with
  | none => rfl
  | some loan =>
    rw [hloan] at hnone
    cases hnone

theorem lendFirst?_eq_none (hgap : t.gap? i = some g) (hnone : t.rotateFromRight? i = none) :
    g.right.lendFirst? = none := by
  simp only [rotateFromRight?, hgap, writeGap?_ok hgap, Option.bind_eq_bind,
    Option.bind_some] at hnone
  cases hloan : g.right.lendFirst? with
  | none => rfl
  | some loan =>
    rw [hloan] at hnone
    cases hnone

/-! ## Merges -/

/-- A sibling without an entry to spare is a node with two children. -/
theorem HasHeight.eq_two_of_lendLast? (ht : t.HasHeight (h + 1)) (hnone : t.lendLast? = none) :
    ∃ c₀ a c₁, t = two c₀ a c₁ := by
  cases t with
  | empty => exact absurd ht.isEmpty_eq (by simp [isEmpty])
  | two c₀ a c₁ => exact ⟨c₀, a, c₁, rfl⟩
  | _ => cases hnone

theorem HasHeight.eq_two_of_lendFirst? (ht : t.HasHeight (h + 1)) (hnone : t.lendFirst? = none) :
    ∃ c₀ a c₁, t = two c₀ a c₁ := by
  cases t with
  | empty => exact absurd ht.isEmpty_eq (by simp [isEmpty])
  | two c₀ a c₁ => exact ⟨c₀, a, c₁, rfl⟩
  | _ => cases hnone

theorem exists_closeGap_mended {j : Nat} (ht : t.ShortAt i h) (hgap : t.gap? j = some g)
    (hi : i = j ∨ i = j + 1) (hsibling : ∀ k d, (k = j ∨ k = j + 1) → k ≠ i →
      t.children[k]? = some d → d.arity = 2) (hc : c.HasHeight (h + 1))
    (hlist : c.toList = g.left.toList ++ g.middle :: g.right.toList) :
    ∃ t' short, t.closeGap j c = .ok (t', short) ∧ Mended t i h t' short := by
  obtain ⟨t', hclose⟩ := exists_closeGap hgap c
  refine ⟨t', _, hclose, ?_, ?_, ?_⟩
  · rw [toList_closeGap hgap hclose, toList_of_gap hgap, hlist]
    simp
  · exact hasHeight_closeGap hgap hclose hc fun k d hk hk' hd => ht.siblings k d (by omega) hd
  · rw [beq_iff_eq]
    refine ⟨fun harity => ⟨harity, fun k d hk hd => hsibling k d ?_ hk hd⟩, And.left⟩
    obtain ⟨-, -, hr⟩ := gap?_eq_some.mp hgap
    have hlen := length_children t
    have hklen := (List.getElem?_eq_some_iff.mp hd).1
    have hrlen := (List.getElem?_eq_some_iff.mp hr).1
    omega

theorem exists_merge (ht : t.ShortAt i h) (hleft : t.rotateFromLeft? i = none)
    (hright : t.rotateFromRight? i = none) :
    ∃ t' short, t.merge i = .ok (t', short) ∧ Mended t i h t' short := by
  obtain ⟨c, hc, hshort⟩ := ht.child
  have hlen := length_children_eq ht.isEmpty_eq
  have hilen := (List.getElem?_eq_some_iff.mp hc).1
  -- the first child merges with its right neighbour, all others with their left one
  obtain _ | i := i
  · obtain ⟨g, hgap⟩ : ∃ g, t.gap? 0 = some g := by
      refine exists_gap ?_
      cases t with
      | empty => cases hc
      | _ => exact Nat.zero_lt_succ _
    obtain ⟨hl, -, hr⟩ := gap?_eq_some.mp hgap
    rw [hl] at hc
    cases hc
    have hsibling := ht.siblings 1 _ (by omega) hr
    obtain ⟨c₀, a, c₁, htwo⟩ : ∃ c₀ a c₁, g.right = two c₀ a c₁ :=
      hsibling.eq_two_of_lendFirst? (lendFirst?_eq_none hgap hright)
    rw [htwo] at hsibling hr
    have hmerge : t.merge 0 = t.closeGap 0 (three g.left g.middle c₀ a c₁) := by
      simp only [merge, hgap, htwo, prepend, bind, Except.bind]
    rw [hmerge]
    refine exists_closeGap_mended ht hgap (.inl rfl) (fun k d hk hne hd => ?_)
      (hasHeight_three.mpr ⟨hshort, hasHeight_two.mp hsibling⟩) (by rw [htwo]; simp [toList])
    obtain rfl : k = 1 := by omega
    rw [hr] at hd
    cases hd
    rfl
  · obtain ⟨g, hgap⟩ : ∃ g, t.gap? i = some g := exists_gap (by omega)
    obtain ⟨hl, -, hr⟩ := gap?_eq_some.mp hgap
    rw [hr] at hc
    cases hc
    have hsibling := ht.siblings i _ (by omega) hl
    obtain ⟨c₀, a, c₁, htwo⟩ : ∃ c₀ a c₁, g.left = two c₀ a c₁ :=
      hsibling.eq_two_of_lendLast? (lendLast?_eq_none hgap hleft)
    rw [htwo] at hsibling hl
    have hmerge : t.merge (i + 1) = t.closeGap i (three c₀ a c₁ g.middle g.right) := by
      simp only [merge, hgap, htwo, append, bind, Except.bind]
    rw [hmerge]
    obtain ⟨h₀, h₁⟩ := hasHeight_two.mp hsibling
    refine exists_closeGap_mended ht hgap (.inr rfl) (fun k d hk hne hd => ?_)
      (hasHeight_three.mpr ⟨h₀, h₁, hshort⟩) (by rw [htwo]; simp [toList])
    obtain rfl : k = i := by omega
    rw [hl] at hd
    cases hd
    rfl

theorem exists_repair (ht : t.ShortAt i h) :
    ∃ t' short, t.repair i = .ok (t', short) ∧ Mended t i h t' short := by
  rw [repair, if_neg (by rw [ht.isEmpty_eq]; exact Bool.false_ne_true)]
  cases hleft : t.rotateFromLeft? i with
  | some t' => exact ⟨t', false, rfl, rotateFromLeft?_mended ht hleft⟩
  | none =>
    cases hright : t.rotateFromRight? i with
    | some t' => exact ⟨t', false, rfl, rotateFromRight?_mended ht hright⟩
    | none => exact exists_merge ht hleft hright

theorem forall_other_child_iff {P : Tree K V → Prop} (hc : t.children[i]? = some c)
    (hsingle : t.entries.length = 1) :
    (∀ j d, j ≠ i → t.children[j]? = some d → P d) ↔
      ∃ j d, j ≠ i ∧ t.children[j]? = some d ∧ P d := by
  have hlength := length_children_eq (isEmpty_of_child hc)
  have hi := (List.getElem?_eq_some_iff.mp hc).1
  constructor
  · intro hall
    -- a node with a single entry has one other child
    obtain ⟨d, hd⟩ := exists_child (i := 1 - i) (isEmpty_of_child hc) (by omega)
    exact ⟨1 - i, d, by omega, hd, hall _ d (by omega) hd⟩
  · rintro ⟨j, d, hj, hd, hP⟩ k e hk he
    have hjlen := (List.getElem?_eq_some_iff.mp hd).1
    have hklen := (List.getElem?_eq_some_iff.mp he).1
    obtain rfl : j = k := by omega
    cases hd.symm.trans he
    exact hP

end Tree

/-- **A repair restores the node.** It is a level shorter, and says so, just if it had a single
entry and its other child is a node with two children. -/
theorem repair_restores {K V : Type} {t c : Tree K V} {h i : Nat} (hpos : 1 ≤ h)
    (hc : t.children[i]? = some c) (hshort : c.HasHeight (h - 1))
    (hothers : ∀ j d, j ≠ i → t.children[j]? = some d → d.HasHeight h) :
    ∃ t' short, t.repair i = .ok (t', short) ∧ t'.toList = t.toList ∧
      (short = false → t'.HasHeight (h + 1)) ∧ (short = true → t'.HasHeight h) ∧
      (short = true ↔ t.entries.length = 1 ∧
        ∃ j d, j ≠ i ∧ t.children[j]? = some d ∧ d.arity = 2) := by
  obtain ⟨k, rfl⟩ := Nat.exists_eq_add_of_le' hpos
  have hempty := Tree.isEmpty_of_child hc
  obtain ⟨t', short, hrepair, hmended⟩ :=
    Tree.exists_repair ⟨hempty, ⟨c, hc, hshort⟩, hothers⟩
  refine ⟨t', short, hrepair, hmended.toList_eq, ?_, ?_, ?_⟩
  · rintro rfl
    exact hmended.hasHeight
  · rintro rfl
    exact hmended.hasHeight
  · have harity : t.arity = 2 ↔ t.entries.length = 1 := by
      rw [← Tree.length_children, Tree.length_children_eq hempty]
      omega
    rw [hmended.short_iff, harity]
    exact and_congr_right fun hsingle => Tree.forall_other_child_iff hc hsingle

/-- The short child of a pair is merged; in a node with three children the sibling to the right
lends an entry. -/
theorem repair_restores_between :
    let low : Tree Nat Nat := .leaf ⟨5, 50⟩
    let left : Tree Nat Nat := .two (.leaf ⟨1, 10⟩) ⟨2, 20⟩ (.leaf ⟨3, 30⟩)
    let right : Tree Nat Nat := .three (.leaf ⟨7, 70⟩) ⟨8, 80⟩ (.leaf ⟨9, 90⟩) ⟨10, 100⟩
      (.leaf ⟨11, 110⟩)
    let pair := Tree.two left ⟨4, 40⟩ low
    let triple := Tree.three left ⟨4, 40⟩ low ⟨6, 60⟩ right
    low.HasHeight 1 ∧ left.HasHeight 2 ∧ right.HasHeight 2 ∧
      (∃ t', pair.repair 1 = .ok (t', true) ∧ t'.toList = pair.toList ∧ t'.HasHeight 2) ∧
      ∃ t', triple.repair 1 = .ok (t', false) ∧ t'.toList = triple.toList ∧ t'.HasHeight 3 := by
  intro low left right pair triple
  have hlow : low.HasHeight 1 := Tree.hasHeight_leaf _
  have hleft : left.HasHeight 2 :=
    Tree.hasHeight_two.mpr ⟨Tree.hasHeight_leaf _, Tree.hasHeight_leaf _⟩
  have hright : right.HasHeight 2 :=
    Tree.hasHeight_three.mpr ⟨Tree.hasHeight_leaf _, Tree.hasHeight_leaf _, Tree.hasHeight_leaf _⟩
  refine ⟨hlow, hleft, hright, ?_, ?_⟩
  · have hothers : ∀ j d, j ≠ 1 → pair.children[j]? = some d → d.HasHeight 2 := by
      rintro (_ | _ | j) d hj hd
      · cases hd
        exact hleft
      · exact absurd rfl hj
      · cases hd
    obtain ⟨t', short, hrepair, hlist, -, hheight, hiff⟩ :=
      repair_restores (by decide) (i := 1) rfl hlow hothers
    obtain rfl : short = true := hiff.mpr ⟨rfl, 0, left, by decide, rfl, rfl⟩
    exact ⟨t', hrepair, hlist, hheight rfl⟩
  · have hothers : ∀ j d, j ≠ 1 → triple.children[j]? = some d → d.HasHeight 2 := by
      rintro (_ | _ | _ | j) d hj hd
      · cases hd
        exact hleft
      · exact absurd rfl hj
      · cases hd
        exact hright
      · cases hd
    obtain ⟨t', short, hrepair, hlist, hheight, -, hiff⟩ :=
      repair_restores (by decide) (i := 1) rfl hlow hothers
    obtain rfl : short = false := Bool.eq_false_iff.mpr fun hshort => by
      cases (hiff.mp hshort).1
    exact ⟨t', hrepair, hlist, hheight rfl⟩

end Multiway
