import Multiway.Edit
import Multiway.Proofs.Insertion
import Multiway.Proofs.Removal

/-!
# The ways an update can go

An update of a balanced tree goes through, whatever comparison it brings. Each of the four goes one
of the ways listed here, and what is true of all of them is true of every update.

* `Edit.Outcome`: what an update of a balanced tree may leave;
* **`Edit.exists_outcome`**: it leaves one of these;
* `Edit.Outcome.balanced`: the tree is balanced again.
-/

namespace Multiway

variable {K V : Type}

namespace Edit

/-- What an update of the balanced tree `t` may leave. -/
inductive Outcome (t : Tree K V) : Edit K V → Effect K V → Prop
  | inserted {cmp : Comparison K} {e : Entry K V} {ins : Insertion K V}
      (hins : t.splitRoot.Inserts cmp e ins) :
      Outcome t (insert cmp e) ⟨some ins.tree, .value ins.previous⟩
  | notFound {cmp : Comparison K} {key : K} (hnone : t.find? cmp key = none) :
      Outcome t (erase cmp key) ⟨none, .value none⟩
  | erased {cmp : Comparison K} {key : K} {before behind : List (Entry K V)} {r : Removal K V}
      {h : Nat} (hfound : t.Finds cmp key before r.entry behind)
      (hremoved : t.Removed h before behind r) :
      Outcome t (erase cmp key) ⟨some r.tree, .value (some r.entry.value)⟩
  | noFirst (hempty : t.isEmpty = true) : Outcome t eraseFirst ⟨none, .entry none⟩
  | first {behind : List (Entry K V)} {r : Removal K V} {h : Nat}
      (hremoved : t.Removed h [] behind r) :
      Outcome t eraseFirst ⟨some r.tree, .entry (some r.entry)⟩
  | noLast (hempty : t.isEmpty = true) : Outcome t eraseLast ⟨none, .entry none⟩
  | last {before : List (Entry K V)} {r : Removal K V} {h : Nat}
      (hremoved : t.Removed h before [] r) :
      Outcome t eraseLast ⟨some r.tree, .entry (some r.entry)⟩

end Edit

/-- **Every update of a balanced tree goes through.** -/
theorem Edit.exists_outcome (edit : Edit K V) {t : Tree K V} (ht : t.Balanced) :
    ∃ effect, edit.apply t = .ok effect ∧ edit.Outcome t effect := by
  obtain ⟨h, ht⟩ := ht
  cases edit with
  | insert cmp e =>
    obtain ⟨ins, hok, hins⟩ := Tree.exists_insert cmp t e
    exact ⟨_, by rw [apply, hok]; rfl, .inserted hins⟩
  | erase cmp key =>
    cases hfind : t.find? cmp key with
    | none =>
      refine ⟨_, ?_, .notFound hfind⟩
      rw [apply, Tree.erase_eq_none hfind, Tree.contains_eq_isSome_find?, hfind]
      rfl
    | some e =>
      obtain ⟨before, behind, hfound⟩ := Tree.find?_eq_some_iff.mp hfind
      obtain ⟨k, r, -, hok, rfl, hremoved⟩ := Tree.exists_erase hfound ht
      exact ⟨_, by rw [apply, hok]; rfl, .erased hfound hremoved⟩
  | eraseFirst =>
    obtain _ | h := h
    · cases t with
      | empty => exact ⟨_, by rw [apply, Tree.removeFirst]; rfl, .noFirst rfl⟩
      | _ => cases Tree.hasHeight_zero_iff.mp ht
    · obtain ⟨r, behind, hok, hremoved⟩ := Tree.exists_removeFirst ht
      exact ⟨_, by rw [apply, hok]; rfl, .first hremoved⟩
  | eraseLast =>
    obtain _ | h := h
    · cases t with
      | empty => exact ⟨_, by rw [apply, Tree.removeLast]; rfl, .noLast rfl⟩
      | _ => cases Tree.hasHeight_zero_iff.mp ht
    · obtain ⟨r, before, hok, hremoved⟩ := Tree.exists_removeLast ht
      exact ⟨_, by rw [apply, hok]; rfl, .last hremoved⟩

theorem Edit.Outcome.balanced {t : Tree K V} {edit : Edit K V} {effect : Effect K V}
    (houtcome : edit.Outcome t effect) (ht : t.Balanced) : (effect.root.getD t).Balanced := by
  cases houtcome with
  | inserted hins => exact hins.balanced ht
  | notFound | noFirst | noLast => exact ht
  | erased _ hremoved | first hremoved | last hremoved => exact hremoved.balanced

end Multiway
