import Multiway.Proofs.Location
import Multiway.Tree.Basic

/-!
# Entries in ascending order

A list of entries is ascending if every key compares as less than all keys behind it. For a
comparison that is a total preorder this comes to the same as a look at neighbours alone, and an
entry in the middle of the list parts it into smaller and greater entries.

* `Ascending`: every key less than all keys behind it;
* `Between`: ascending, and between two bounds that may be missing;
* **`between_append_cons`**, `between_cons`: the bounds of the two parts around an entry;
* `Ascending.nodup_keys`, `Ascending.eq_of_perm`: no key stands twice, and there is one order;
* `Ascending.inOrder`: how the keys compare with a sought key;
* `Below`, `Above`, `Ascending.below`, `Ascending.above`: the parts around an entry, compared with a
  sought key.
-/

namespace Multiway

variable {K V : Type}

/-- Every key is less than all keys behind it. -/
def Ascending (cmp : Comparison K) (es : List (Entry K V)) : Prop :=
  es.Pairwise fun a b => cmp a.key b.key = .lt

/-- The entries are ascending, and lie strictly between the bounds. -/
structure Between (cmp : Comparison K) (lower upper : Option K) (es : List (Entry K V)) : Prop where
  ascending : Ascending cmp es
  above : ∀ l ∈ lower, ∀ e ∈ es, cmp l e.key = .lt
  below : ∀ u ∈ upper, ∀ e ∈ es, cmp e.key u = .lt

/-- All keys are less than `key`. -/
def Below (cmp : Comparison K) (key : K) (es : List (Entry K V)) : Prop :=
  ∀ a ∈ es, cmp a.key key = .lt

/-- All keys are greater than `key`. -/
def Above (cmp : Comparison K) (key : K) (es : List (Entry K V)) : Prop :=
  ∀ a ∈ es, cmp a.key key = .gt

section

variable {cmp : Comparison K} {key : K} {lower upper : Option K} {e : Entry K V}
  {es before behind : List (Entry K V)}

theorem between_nil : Between cmp lower upper ([] : List (Entry K V)) :=
  ⟨List.Pairwise.nil, fun _ _ _ he => absurd he List.not_mem_nil,
    fun _ _ _ he => absurd he List.not_mem_nil⟩

theorem between_none_iff : Between cmp none none es ↔ Ascending cmp es :=
  ⟨Between.ascending, fun h => ⟨h, fun l hl => absurd hl (Option.not_mem_none l),
    fun u hu => absurd hu (Option.not_mem_none u)⟩⟩

theorem ascending_append_cons [Std.TransCmp cmp] :
    Ascending cmp (before ++ e :: behind) ↔
      (Ascending cmp before ∧ ∀ a ∈ before, cmp a.key e.key = .lt) ∧
        Ascending cmp behind ∧ ∀ b ∈ behind, cmp e.key b.key = .lt := by
  rw [Ascending, List.pairwise_append, List.pairwise_cons]
  constructor
  · rintro ⟨hbefore, ⟨he, hbehind⟩, hacross⟩
    exact ⟨⟨hbefore, fun a ha => hacross a ha e List.mem_cons_self⟩, hbehind, he⟩
  · rintro ⟨⟨hbefore, hlt⟩, hbehind, he⟩
    refine ⟨hbefore, ⟨he, hbehind⟩, fun a ha b hb => ?_⟩
    rcases List.mem_cons.mp hb with rfl | hb
    · exact hlt a ha
    · exact Std.TransCmp.lt_trans (hlt a ha) (he b hb)

/-- **An entry of the list bounds the parts on both sides.** -/
theorem between_append_cons [Std.TransCmp cmp] :
    Between cmp lower upper (before ++ e :: behind) ↔
      (∀ l ∈ lower, cmp l e.key = .lt) ∧ (∀ u ∈ upper, cmp e.key u = .lt) ∧
        Between cmp lower (some e.key) before ∧ Between cmp (some e.key) upper behind := by
  constructor
  · rintro ⟨hascending, habove, hbelow⟩
    obtain ⟨⟨hbefore, hlt⟩, hbehind, hgt⟩ := ascending_append_cons.mp hascending
    refine ⟨fun l hl => habove l hl e (by simp), fun u hu => hbelow u hu e (by simp),
      ⟨hbefore, fun l hl a ha => habove l hl a (by simp [ha]), fun u hu a ha => ?_⟩,
      ⟨hbehind, fun l hl b hb => ?_, fun u hu b hb => hbelow u hu b (by simp [hb])⟩⟩
    · cases hu
      exact hlt a ha
    · cases hl
      exact hgt b hb
  · rintro ⟨hlower, hupper, hbefore, hbehind⟩
    refine ⟨ascending_append_cons.mpr ⟨⟨hbefore.ascending, hbefore.below e.key rfl⟩,
      hbehind.ascending, hbehind.above e.key rfl⟩, fun l hl a ha => ?_, fun u hu a ha => ?_⟩
    · rcases List.mem_append.mp ha with ha | ha
      · exact hbefore.above l hl a ha
      · rcases List.mem_cons.mp ha with rfl | ha
        · exact hlower l hl
        · exact Std.TransCmp.lt_trans (hlower l hl) (hbehind.above e.key rfl a ha)
    · rcases List.mem_append.mp ha with ha | ha
      · exact Std.TransCmp.lt_trans (hbefore.below e.key rfl a ha) (hupper u hu)
      · rcases List.mem_cons.mp ha with rfl | ha
        · exact hupper u hu
        · exact hbehind.below u hu a ha

theorem between_cons [Std.TransCmp cmp] :
    Between cmp lower upper (e :: es) ↔
      (∀ l ∈ lower, cmp l e.key = .lt) ∧ (∀ u ∈ upper, cmp e.key u = .lt) ∧
        Between cmp (some e.key) upper es := by
  have hcut : Between cmp lower upper ([] ++ e :: es) ↔ _ := between_append_cons
  simpa [between_nil] using hcut

theorem ne_of_eq_lt [Std.ReflCmp cmp] {a b : K} (h : cmp a b = .lt) : a ≠ b := by
  rintro rfl
  cases Std.ReflCmp.compare_self.symm.trans h

theorem Ascending.nodup_keys [Std.TransCmp cmp] (h : Ascending cmp es) :
    (es.map Entry.key).Nodup :=
  List.pairwise_map.mpr (h.imp fun hlt => ne_of_eq_lt hlt)

theorem Ascending.eq_of_perm [Std.TransCmp cmp] {es' : List (Entry K V)} (h : Ascending cmp es)
    (h' : Ascending cmp es') (hperm : es.Perm es') : es = es' :=
  List.Perm.eq_of_pairwise
    (fun _ _ _ _ hlt hlt' => by cases (Std.OrientedCmp.gt_of_lt hlt).symm.trans hlt') h h' hperm

/-- Compared with any key, the keys are first less, then equal, then greater. -/
theorem Ascending.inOrder [Std.TransCmp cmp] (h : Ascending cmp es) (key : K) :
    Location.InOrder (es.map fun e => cmp e.key key) := by
  refine List.pairwise_map.mpr (h.imp fun hlt => ⟨fun hgt => ?_, fun hlt' => ?_⟩)
  · exact Std.OrientedCmp.gt_of_lt
      (Std.TransCmp.lt_trans (Std.OrientedCmp.lt_of_gt hgt) hlt)
  · exact Std.TransCmp.lt_trans hlt hlt'

theorem Ascending.below [Std.TransCmp cmp] (h : Ascending cmp (before ++ e :: behind))
    (he : cmp e.key key ≠ .gt) : Below cmp key before := by
  intro a ha
  have hlt := (ascending_append_cons.mp h).1.2 a ha
  exact Std.TransCmp.lt_of_lt_of_isLE hlt (Ordering.isLE_iff_ne_gt.mpr he)

theorem Ascending.above [Std.TransCmp cmp] (h : Ascending cmp (before ++ e :: behind))
    (he : cmp e.key key ≠ .lt) : Above cmp key behind := by
  intro b hb
  have hlt := (ascending_append_cons.mp h).2.2 b hb
  have hle : (cmp key e.key).isLE :=
    Ordering.isLE_iff_ne_gt.mpr fun hgt => he (Std.OrientedCmp.lt_of_gt hgt)
  exact Std.OrientedCmp.gt_of_lt (Std.TransCmp.lt_of_isLE_of_lt hle hlt)

end

end Multiway
