import Mathlib.Data.List.Forall2
import Multiway.Proofs.Refinement
import Multiway.Proofs.Session
import Multiway.Proofs.Walk

/-!
# Equal trees

Two trees are equal if their lists of entries are equal in pairs, whatever their shapes. The
comparison first asks for the roots: trees with one root count as equal without a look at them. That
is right if every key and every value is equal to itself, since in a session one root means one
tree. If some value is not, two names for one root are still equal, and two roots with the same
entries are not.

So the order in which entries are inserted does not show, as long as no two of their keys compare
equal: the list of the tree has the same entries in ascending order, and there is only one such
list.

* `Entry.Same`, `isEqv_iff_forall₂`: entries that are equal, and lists of them;
* `Tree.agree_eq`, **`Workspace.exists_equal`**: what the comparison of two trees answers;
* `OrderedMap.perm_foldl_insert`, `OrderedMap.entries_foldl_insert_eq`: new keys stored in any
  order, and **`Tree.exists_insertMany_of_perm`**: the same for trees;
* **`equal_iff_contents`**: equality after any session.
-/

namespace Multiway

variable {σ K V : Type}

/-! ## Equal in pairs -/

section

variable [BEq K] [BEq V]

/-- The keys are equal, and the values. -/
def Entry.Same (e e' : Entry K V) : Prop := (e.key == e'.key) = true ∧ (e.value == e'.value) = true

theorem Entry.forall₂_same_self [ReflBEq K] [ReflBEq V] (es : List (Entry K V)) :
    List.Forall₂ Same es es :=
  List.forall₂_same.mpr fun _ _ => ⟨BEq.rfl, BEq.rfl⟩

theorem isEqv_iff_forall₂ {es es' : List (Entry K V)} :
    (es.isEqv es' fun e e' => e.key == e'.key && e.value == e'.value) = true ↔
      List.Forall₂ Entry.Same es es' := by
  induction es generalizing es' with
  | nil => cases es' <;> simp [List.isEqv]
  | cons e es ih =>
    cases es' with
    | nil => simp [List.isEqv]
    | cons e' es' =>
      rw [List.isEqv, Bool.and_eq_true, Bool.and_eq_true, ih, List.forall₂_cons, Entry.Same]

theorem Tree.agree_eq (t u : Tree K V) :
    t.agree u =
      .ok (t.toList.isEqv u.toList fun e e' => e.key == e'.key && e.value == e'.value) := by
  rw [agree, Iter.agree_eq (Iter.settled_start t) (Iter.settled_start u), Iter.ahead_start,
    Iter.ahead_start]

namespace Workspace

variable {w : Workspace K V} {p q : Place}

/-- **The comparison of two trees has an answer.** -/
theorem exists_equal (w : Workspace K V) (p q : Place) :
    ∃ b, w.equal p q = .ok b ∧ w.unequal p q = .ok (!b) ∧
      (b = true ↔ w.sameRoot p q = true ∨
        List.Forall₂ Entry.Same (w.treeAt p).toList (w.treeAt q).toList) := by
  rw [unequal, equal]
  cases w.sameRoot p q with
  | true => exact ⟨true, rfl, rfl, by simp⟩
  | false =>
    refine ⟨_, Tree.agree_eq .., by rw [if_neg Bool.false_ne_true, Tree.agree_eq]; rfl, ?_⟩
    rw [isEqv_iff_forall₂]
    simp

theorem equal_of_toList_eq [ReflBEq K] [ReflBEq V]
    (h : (w.treeAt p).toList = (w.treeAt q).toList) : w.equal p q = .ok true := by
  obtain ⟨b, hequal, -, hb⟩ := w.exists_equal p q
  rw [hequal, hb.mpr (.inr (h ▸ Entry.forall₂_same_self _))]

theorem equal_eq_agree [ReflBEq K] [ReflBEq V] (w : Workspace K V) (p q : Place) :
    w.equal p q = (w.treeAt p).agree (w.treeAt q) := by
  rw [equal]
  split
  · next hroot =>
    -- one root means one tree, in which everything is equal to itself
    rw [treeAt_eq_of_sameRoot hroot, Tree.agree_eq,
      isEqv_iff_forall₂.mpr (Entry.forall₂_same_self _)]
  · rfl

end Workspace

end

/-! ## Inserted in any order -/

section

variable {cmp : Comparison K} [Std.TransCmp cmp] {es es' : List (Entry K V)}

theorem OrderedMap.perm_foldl_insert {m : OrderedMap K V cmp}
    (hdistinct : es.Pairwise fun a b => cmp a.key b.key ≠ .eq)
    (habsent : ∀ e ∈ es, ∀ a ∈ m.entries, cmp a.key e.key ≠ .eq) :
    (es.foldl OrderedMap.insert m).entries.Perm (m.entries ++ es) := by
  induction es generalizing m with
  | nil => rw [List.append_nil]; rfl
  | cons e es ih =>
    obtain ⟨hother, hdistinct⟩ := List.pairwise_cons.mp hdistinct
    obtain ⟨hnew, habsent⟩ := List.forall_mem_cons.mp habsent
    obtain ⟨before, behind, hm, hinsert, -⟩ := OrderedMap.insert_absent hnew
    have hstored : (m.insert e).entries.Perm (e :: m.entries) := by
      rw [hinsert, hm]
      exact List.perm_middle
    refine (ih hdistinct fun e' he' a ha => ?_).trans ((hstored.append_right es).trans ?_)
    · rcases List.mem_cons.mp (hstored.subset ha) with rfl | ha
      · exact hother e' he'
      · exact habsent e' he' a ha
    · exact List.perm_middle.symm

theorem OrderedMap.entries_foldl_insert_eq {m : OrderedMap K V cmp} (hperm : es.Perm es')
    (hdistinct : es.Pairwise fun a b => cmp a.key b.key ≠ .eq)
    (habsent : ∀ e ∈ es, ∀ a ∈ m.entries, cmp a.key e.key ≠ .eq) :
    (es.foldl OrderedMap.insert m).entries = (es'.foldl OrderedMap.insert m).entries := by
  have hdistinct' : es'.Pairwise fun a b => cmp a.key b.key ≠ .eq :=
    hperm.pairwise hdistinct fun hne heq => hne (Std.OrientedCmp.eq_symm heq)
  have habsent' : ∀ e ∈ es', ∀ a ∈ m.entries, cmp a.key e.key ≠ .eq :=
    fun e he => habsent e (hperm.mem_iff.mpr he)
  -- a list that is in ascending order is determined by its entries
  refine (OrderedMap.ascending _).eq_of_perm (OrderedMap.ascending _) ?_
  exact (perm_foldl_insert hdistinct habsent).trans
    ((hperm.append_left _).trans (perm_foldl_insert hdistinct' habsent').symm)

theorem Tree.exists_insertMany_of_perm (hperm : es.Perm es')
    (hdistinct : es.Pairwise fun a b => cmp a.key b.key ≠ .eq) :
    ∃ t t', Tree.empty.insertMany cmp es = .ok t ∧ Tree.empty.insertMany cmp es' = .ok t' ∧
      t.toList = t'.toList := by
  have hempty : Tree.empty.StandsFor (⟨[], .nil⟩ : OrderedMap K V cmp) := Tree.standsFor_empty
  obtain ⟨t, ht, hstands⟩ := hempty.exists_insertMany es
  obtain ⟨t', ht', hstands'⟩ := hempty.exists_insertMany es'
  refine ⟨t, t', ht, ht', ?_⟩
  rw [← hstands.entries_eq, ← hstands'.entries_eq]
  exact OrderedMap.entries_foldl_insert_eq hperm hdistinct
    fun _ _ _ ha => absurd ha List.not_mem_nil

end

/-! ## After any session -/

namespace Workspace

variable {w : Workspace K V} {l : Ledger σ K V} {holder other : Holder} {t u : Tree K V}

theorem exists_equal_held [BEq K] [BEq V] (ht : holder.tree? w = some t)
    (hu : other.tree? w = some u) :
    ∃ p q b, w.holdings.get? holder = some p ∧ w.holdings.get? other = some q ∧
      w.equal p q = .ok b ∧ w.unequal p q = .ok (!b) ∧
      (b = true ↔ w.shareRoot holder other = true ∨ List.Forall₂ Entry.Same t.toList u.toList) ∧
      (ReflBEq K → ReflBEq V →
        (b = true ↔ List.Forall₂ Entry.Same t.toList u.toList) ∧ t.agree u = .ok b) := by
  rw [holder_tree?_eq, Option.map_eq_some_iff] at ht hu
  obtain ⟨p, hp, rfl⟩ := ht
  obtain ⟨q, hq, rfl⟩ := hu
  obtain ⟨b, hequal, hunequal, hb⟩ := w.exists_equal p q
  have hroot : w.shareRoot holder other = w.sameRoot p q := by rw [shareRoot, hp, hq]
  refine ⟨p, q, b, hp, hq, hequal, hunequal, hroot ▸ hb, fun _ _ => ⟨?_, ?_⟩⟩
  · refine hb.trans ⟨fun h => h.elim (fun hsame => ?_) id, .inr⟩
    rw [treeAt_eq_of_sameRoot hsame]
    exact Entry.forall₂_same_self _
  · rw [← equal_eq_agree, hequal]

theorem Follows.exists_version (h : Follows w l) (ht : holder.tree? w = some t) :
    ∃ v, l.versions.get? holder = some v ∧ v.derivation.replay = .ok t := by
  have hreplay := h.tree?_eq holder
  rw [ht, Option.map_some] at hreplay
  exact Option.map_eq_some_iff.mp hreplay.symm

end Workspace

/-- **Trees are equal just if their contents are**, in whatever order the entries were inserted. -/
theorem equal_iff_contents [BEq K] [BEq V] (session : List (Action σ K V)) :
    let w : Workspace K V := Workspace.empty.run session
    let l : Ledger σ K V := Ledger.empty.run session
    (∀ holder other t u, holder.tree? w = some t → other.tree? w = some u →
      (∃ p q b, w.holdings.get? holder = some p ∧ w.holdings.get? other = some q ∧
        w.equal p q = .ok b ∧ w.unequal p q = .ok (!b) ∧
        (b = true ↔ w.shareRoot holder other = true ∨ List.Forall₂ Entry.Same t.toList u.toList) ∧
        (ReflBEq K → ReflBEq V →
          (b = true ↔ List.Forall₂ Entry.Same t.toList u.toList) ∧ t.agree u = .ok b)) ∧
      ∃ v v', l.versions.get? holder = some v ∧ l.versions.get? other = some v' ∧
        v.derivation.replay = .ok t ∧ v'.derivation.replay = .ok u ∧
        (w.shareRoot holder other = true ↔
          v.identity = v'.identity ∨ t = .empty ∧ u = .empty)) ∧
    ∀ (cmp : Comparison K) (es es' : List (Entry K V)), Std.TransCmp cmp → es.Perm es' →
      (es.Pairwise fun a b => cmp a.key b.key ≠ .eq) →
      ∃ t t', Tree.empty.insertMany cmp es = .ok t ∧ Tree.empty.insertMany cmp es' = .ok t' ∧
        t.toList = t'.toList ∧
        (ReflBEq K → ReflBEq V → ∀ (w : Workspace K V) p q, w.treeAt p = t → w.treeAt q = t' →
          w.equal p q = .ok true) := by
  intro w l
  have h : Workspace.Follows w l := Workspace.Follows.empty.run session
  refine ⟨fun holder other t u ht hu => ⟨Workspace.exists_equal_held ht hu, ?_⟩,
    fun cmp es es' hcmp hperm hdistinct => ?_⟩
  · obtain ⟨v, hv, hreplay⟩ := h.exists_version ht
    obtain ⟨v', hv', hreplay'⟩ := h.exists_version hu
    refine ⟨v, v', hv, hv', hreplay, hreplay', (h.shareRoot_iff holder other).trans ?_⟩
    simp [hv, hv', hreplay, hreplay']
  · obtain ⟨t, t', ht, ht', hlist⟩ := Tree.exists_insertMany_of_perm hperm hdistinct
    refine ⟨t, t', ht, ht', hlist, fun _ _ w p q hp hq => Workspace.equal_of_toList_eq ?_⟩
    rw [hp, hq, hlist]

/-- A value that is not equal to itself: a copy is equal to its source, the same entry under a new
root is not. -/
theorem equal_iff_contents_nan :
    let nan : Float := 0 / 0
    let t : Tree Nat Float := .leaf ⟨7, nan⟩
    let session : List (Action Unit Nat Float) := [.store "a" t, .copy "a" "b", .store "c" t]
    let w : Workspace Nat Float := Workspace.empty.run session
    (∃ p q, w.holdings.get? (.tree "a") = some p ∧ w.holdings.get? (.tree "b") = some q ∧
      w.equal p q = .ok true ∧ w.unequal p q = .ok false) ∧
    (∃ p q, w.holdings.get? (.tree "a") = some p ∧ w.holdings.get? (.tree "c") = some q ∧
      w.equal p q = .ok false ∧ w.unequal p q = .ok true) ∧
    ∃ u u', Tree.empty.insertMany compare [⟨7, nan⟩, ⟨5, nan⟩] = .ok u ∧
      Tree.empty.insertMany compare [⟨5, nan⟩, ⟨7, nan⟩] = .ok u' ∧ u.toList = u'.toList := by
  intro nan t session w
  have htree : w.tree? "a" = some t ∧ w.tree? "b" = some t ∧ w.tree? "c" = some t :=
    ⟨rfl, rfl, rfl⟩
  have hkept : w.shareRoot (.tree "a") (.tree "b") = true := by decide +kernel
  have hnew : w.shareRoot (.tree "a") (.tree "c") = false := by decide +kernel
  have hnan : (nan == nan) = false := by decide
  have hdiffer : ¬List.Forall₂ Entry.Same t.toList t.toList := fun hsame => by
    obtain ⟨⟨-, hvalue⟩, -⟩ := List.forall₂_cons.mp hsame
    cases hnan.symm.trans hvalue
  obtain ⟨hequal, horder⟩ := equal_iff_contents session
  obtain ⟨⟨p, q, b, hp, hq, hcopy, hcopy', hb, -⟩, -⟩ :=
    hequal (.tree "a") (.tree "b") t t htree.1 htree.2.1
  obtain ⟨⟨p', r, b', hp', hr, hfresh, hfresh', hb', -⟩, -⟩ :=
    hequal (.tree "a") (.tree "c") t t htree.1 htree.2.2
  obtain rfl : b = true := hb.mpr (.inl hkept)
  obtain rfl : b' = false := Bool.eq_false_iff.mpr fun h =>
    (hb'.mp h).elim (fun hroot => by cases hnew.symm.trans hroot) hdiffer
  obtain ⟨u, u', hu, hu', hlist, -⟩ := horder compare [⟨7, nan⟩, ⟨5, nan⟩] [⟨5, nan⟩, ⟨7, nan⟩]
    inferInstance (.swap ..) (by simp)
  exact ⟨⟨p, q, hp, hq, hcopy, hcopy'⟩, ⟨p', r, hp', hr, hfresh, hfresh'⟩, u, u', hu, hu', hlist⟩

end Multiway
