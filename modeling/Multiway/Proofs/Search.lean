import Multiway.Proofs.Frame
import Multiway.Proofs.Location
import Multiway.Tree.Search

/-!
# Where a search stops

A search that finds an entry cuts the list of the tree there: it knows what lies before the entry
and what lies behind it. This holds for every tree and every comparison, and names one occurrence of
the entry.

* `Tree.Finds`: the search stops at an entry, with the entries before and behind it;
* `Tree.Finds.toList_eq`, `Tree.Finds.unique`: the cut of the list, and that there is only one;
* `Tree.answer_of_slot`, `Tree.Finds.answer`: the answer of the comparison there;
* `Tree.contains_eq_isSome_find?`: whether the search returns one;
* **`Tree.find?_eq_some_iff`**: the entry that the search returns;
* `Tree.min?_eq_head?`, `Tree.max?_eq_getLast?`: the first and the last entry;
* **`locate_exact`**: the search within a node.
-/

namespace Multiway

namespace Tree

variable {K V : Type} {cmp : Comparison K} {key : K} {t : Tree K V} {e : Entry K V}
  {before behind : List (Entry K V)}

/-- The search for `key` stops at the entry `e`, which has the entries `before` to its left and the
entries `behind` to its right. -/
inductive Finds (cmp : Comparison K) (key : K) :
    Tree K V → List (Entry K V) → Entry K V → List (Entry K V) → Prop
  | atSlot {t : Tree K V} {i : Nat} {g : Gap K V} (hloc : locate cmp t.keys key = .slot i)
      (hgap : t.gap? i = some g) :
      Finds cmp key t (t.listBefore i ++ g.left.toList) g.middle
        (g.right.toList ++ t.listFrom (i + 1))
  | inChild {t c : Tree K V} {i : Nat} {before behind : List (Entry K V)} {e : Entry K V}
      (hloc : locate cmp t.keys key = .child i) (hc : t.children[i]? = some c)
      (hfound : Finds cmp key c before e behind) :
      Finds cmp key t (t.listBefore i ++ before) e (behind ++ t.listFrom i)

theorem Finds.toList_eq (hfound : Finds cmp key t before e behind) :
    t.toList = before ++ e :: behind := by
  induction hfound with
  | atSlot hloc hgap => rw [toList_of_gap hgap, List.append_assoc]
  | inChild hloc hc _ ih =>
    rw [toList_of_child hc, ih]
    simp only [List.append_assoc, List.cons_append]

theorem answer_of_slot {i : Nat} (hloc : locate cmp t.keys key = .slot i)
    (he : t.entries[i]? = some e) : cmp e.key key = .eq := by
  obtain ⟨k, hk, hanswer⟩ := answer_of_locate_slot hloc
  rw [keys, List.getElem?_map, he, Option.map_some] at hk
  cases hk
  exact hanswer

theorem Finds.answer (hfound : Finds cmp key t before e behind) : cmp e.key key = .eq := by
  induction hfound with
  | atSlot hloc hgap => exact answer_of_slot hloc (gap?_eq_some.mp hgap).2.1
  | inChild _ _ _ ih => exact ih

theorem Finds.unique {before' behind' : List (Entry K V)} {e' : Entry K V}
    (hfound : Finds cmp key t before e behind) (hfound' : Finds cmp key t before' e' behind') :
    before = before' ∧ e = e' ∧ behind = behind' := by
  induction hfound generalizing before' behind' with
  | atSlot hloc hgap =>
    cases hfound' with
    | atSlot hloc' hgap' =>
      cases hloc.symm.trans hloc'
      cases hgap.symm.trans hgap'
      exact ⟨rfl, rfl, rfl⟩
    | inChild hloc' => cases hloc.symm.trans hloc'
  | inChild hloc hc _ ih =>
    cases hfound' with
    | atSlot hloc' => cases hloc.symm.trans hloc'
    | inChild hloc' hc' hfound' =>
      cases hloc.symm.trans hloc'
      cases hc.symm.trans hc'
      obtain ⟨rfl, rfl, rfl⟩ := ih hfound'
      exact ⟨rfl, rfl, rfl⟩

theorem length_keys (t : Tree K V) : t.keys.length = t.entries.length := List.length_map ..

theorem locate_slot_lt {i : Nat} (h : locate cmp t.keys key = .slot i) : i < t.entries.length := by
  have hwithin := locate_within cmp t.keys key
  rw [h, length_keys] at hwithin
  exact hwithin

theorem locate_child_le {i : Nat} (h : locate cmp t.keys key = .child i) :
    i ≤ t.entries.length := by
  have hwithin := locate_within cmp t.keys key
  rw [h, length_keys] at hwithin
  exact hwithin

theorem find?_of_child {c : Tree K V} {i : Nat} (hloc : locate cmp t.keys key = .child i)
    (hc : t.children[i]? = some c) : t.find? cmp key = c.find? cmp key := by
  rw [find?, hloc]
  exact match_child hc

theorem contains_eq_isSome_find? (cmp : Comparison K) (t : Tree K V) (key : K) :
    t.contains cmp key = (t.find? cmp key).isSome := by
  fun_induction find? cmp t key with
  | case1 t i hloc =>
    rw [contains, hloc, List.getElem?_eq_getElem (locate_slot_lt hloc)]
    rfl
  | case2 t i hloc hnone =>
    rw [contains, hloc]
    simp only
    split
    · rfl
    · next c hc =>
      rw [hnone] at hc
      cases hc
  | case3 t i hloc c hc ih =>
    rw [contains, hloc, ← ih]
    exact match_child hc

theorem find?_eq_some_iff :
    t.find? cmp key = some e ↔ ∃ before behind, Finds cmp key t before e behind := by
  constructor
  · intro h
    fun_induction find? cmp t key with
    | case1 t i hloc =>
      obtain ⟨g, hgap⟩ := exists_gap (locate_slot_lt hloc)
      rw [(gap?_eq_some.mp hgap).2.1] at h
      cases h
      exact ⟨_, _, .atSlot hloc hgap⟩
    | case2 => cases h
    | case3 t i hloc c hc ih =>
      obtain ⟨before, behind, hfound⟩ := ih h
      exact ⟨_, _, .inChild hloc hc hfound⟩
  · rintro ⟨before, behind, hfound⟩
    induction hfound with
    | atSlot hloc hgap =>
      rw [find?, hloc]
      exact (gap?_eq_some.mp hgap).2.1
    | inChild hloc hc _ ih =>
      rw [find?_of_child hloc hc]
      exact ih

/-! ## The first and the last entry -/

theorem min?_eq_head? (t : Tree K V) : t.min? = t.toList.head? := by
  induction t with
  | empty => rfl
  | two _ _ _ ih | three _ _ _ _ _ ih | four _ _ _ _ _ _ _ ih =>
    rw [min?, toList, List.head?_append, List.head?_cons, ih]

theorem max?_eq_getLast? (t : Tree K V) : t.max? = t.toList.getLast? := by
  induction t with
  | empty => rfl
  | two _ _ _ _ ih | three _ _ _ _ _ _ _ ih | four _ _ _ _ _ _ _ _ _ _ ih =>
    simp only [max?, toList, ih, List.getLast?_append, List.getLast?_cons, Option.or_some]
    cases List.getLast? _ <;> rfl

theorem min?_eq_none_iff : t.min? = none ↔ t = empty := by
  cases t <;> simp [min?]

theorem max?_eq_none_iff : t.max? = none ↔ t = empty := by
  cases t <;> simp [max?]

end Tree

/-! ## The search within a node -/

section

variable {K V : Type} {cmp : Comparison K} {keys : List K} {key : K}

/-- A named child parts the keys of the node, if the answers come in order. -/
theorem take_drop_of_locate_child (hkeys : Location.InOrder (keys.map (cmp · key))) {c : Nat}
    (h : locate cmp keys key = .child c) :
    (∀ k ∈ keys.take c, cmp k key = .lt) ∧ ∀ k ∈ keys.drop c, cmp k key = .gt := by
  obtain ⟨hbefore, hbehind⟩ := answers_of_locate_child hkeys h
  constructor
  · intro k hk
    obtain ⟨j, hj⟩ := List.mem_iff_getElem?.mp hk
    rw [List.getElem?_take] at hj
    split at hj
    · next hlt =>
      obtain ⟨k', hk', hanswer⟩ := hbefore j hlt
      obtain rfl : k' = k := Option.some.inj (hk'.symm.trans hj)
      exact hanswer
    · cases hj
  · intro k hk
    obtain ⟨j, hj⟩ := List.mem_iff_getElem?.mp hk
    rw [List.getElem?_drop] at hj
    exact hbehind (c + j) k (Nat.le_add_right c j) hj

/-- **The search within a node is exact** if the answers come in order, and safe in any case. -/
theorem locate_exact (cmp : Comparison K) (keys : List K) (key : K) :
    (∀ i, locate cmp keys key = .slot i → ∃ h : i < keys.length, cmp keys[i] key = .eq) ∧
      (∀ c, locate cmp keys key = .child c → c ≤ keys.length) ∧
      (∀ t : Tree K V, t.isEmpty = false → t.keys = keys →
        (∀ i, locate cmp keys key = .slot i → ∃ g, t.gap? i = some g) ∧
          ∀ c, locate cmp keys key = .child c → ∃ child, t.children[c]? = some child) ∧
      (∀ less equal greater,
        keys.map (cmp · key) = .replicate less .lt ++
          (.replicate equal .eq ++ .replicate greater .gt) →
        ((∃ i, locate cmp keys key = .slot i) ↔ ∃ k ∈ keys, cmp k key = .eq) ∧
          ∀ c, locate cmp keys key = .child c →
            (∀ k ∈ keys.take c, cmp k key = .lt) ∧ ∀ k ∈ keys.drop c, cmp k key = .gt) := by
  have hwithin := locate_within cmp keys key
  refine ⟨fun i hi => ?_, fun c hc => by rwa [hc] at hwithin, ?_, ?_⟩
  · obtain ⟨k, hk, hanswer⟩ := answer_of_locate_slot hi
    obtain ⟨hlt, rfl⟩ := List.getElem?_eq_some_iff.mp hk
    exact ⟨hlt, hanswer⟩
  · rintro t hnode rfl
    exact ⟨fun i hi => Tree.exists_gap (Tree.locate_slot_lt hi),
      fun c hc => Tree.exists_child hnode (Tree.locate_child_le hc)⟩
  · intro less equal greater hanswers
    have horder : Location.InOrder (keys.map (cmp · key)) :=
      hanswers ▸ Location.inOrder_replicate less equal greater
    refine ⟨⟨?_, ?_⟩, fun c hc => take_drop_of_locate_child horder hc⟩
    · rintro ⟨i, hi⟩
      obtain ⟨k, hk, hanswer⟩ := answer_of_locate_slot hi
      exact ⟨k, List.mem_of_getElem? hk, hanswer⟩
    · rintro ⟨k, hk, hanswer⟩
      cases hloc : locate cmp keys key with
      | slot i => exact ⟨i, rfl⟩
      | child c =>
        -- no key on either side of a named child compares equal
        obtain ⟨hless, hgreater⟩ := take_drop_of_locate_child horder hloc
        rw [← List.take_append_drop c keys, List.mem_append] at hk
        rcases hk with hk | hk
        · cases hanswer.symm.trans (hless k hk)
        · cases hanswer.symm.trans (hgreater k hk)

/-- Integers by magnitude: two of four keys equal the first sought key, none the second. -/
theorem locate_exact_byMagnitude :
    let keys : List Int64 := [-1, 2, -2, 5]
    keys.map (Comparison.byMagnitude · 2) =
        .replicate 1 .lt ++ (.replicate 2 .eq ++ .replicate 1 .gt) ∧
      (∃ i, locate Comparison.byMagnitude keys 2 = .slot i) ∧
      locate Comparison.byMagnitude keys (-3) = .child 3 ∧
      (∀ k ∈ [-1, 2, -2], Comparison.byMagnitude k (-3) = .lt) ∧
      ∀ k ∈ [5], Comparison.byMagnitude k (-3) = .gt := by
  intro keys
  have hhit : keys.map (Comparison.byMagnitude · 2) =
      .replicate 1 .lt ++ (.replicate 2 .eq ++ .replicate 1 .gt) := by decide
  have hmiss : keys.map (Comparison.byMagnitude · (-3)) =
      .replicate 3 .lt ++ (.replicate 0 .eq ++ .replicate 1 .gt) := by decide
  have hchild : locate Comparison.byMagnitude keys (-3) = .child 3 := by decide +kernel
  obtain ⟨-, -, -, hordered⟩ := locate_exact (V := Nat) Comparison.byMagnitude keys 2
  obtain ⟨-, -, -, hordered'⟩ := locate_exact (V := Nat) Comparison.byMagnitude keys (-3)
  exact ⟨hhit, (hordered _ _ _ hhit).1.mpr ⟨2, by decide, by decide⟩, hchild,
    (hordered' _ _ _ hmiss).2 3 hchild⟩

end

end Multiway
