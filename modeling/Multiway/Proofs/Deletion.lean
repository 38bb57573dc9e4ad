import Multiway.Proofs.Edit
import Multiway.Proofs.Session

/-!
# Removal is exact

The search for a key that is to be removed stops at one entry of the tree. It is this entry that is
taken out, though on the way others change their nodes and their neighbours. The tree has to be
balanced, but its keys may stand in any order and the comparison may be any function.

* `Effect.TakesOut`: one entry is gone, the others are there in their order;
* `Edit.LeavesAlone`, `Edit.leavesAlone`: an update that changes nothing, not even the root that a
  tree shares with its copies;
* `Edit.Removes`: what a removal does, told by the entry that a search finds;
* **`Edit.removes_erase`**, **`Edit.removes_eraseFirst`**, **`Edit.removes_eraseLast`**;
* **`removal_exact`**: all three, for every key and every comparison.
-/

namespace Multiway

variable {K V : Type} {t : Tree K V} {e : Entry K V} {before behind : List (Entry K V)}

/-! ## What a removal may do -/

/-- The update takes the entry `e`, between `before` and `behind`, out of the tree `t`. -/
structure Effect.TakesOut (effect : Effect K V) (t : Tree K V) (before : List (Entry K V))
    (e : Entry K V) (behind : List (Entry K V)) : Prop where
  toList_of : t.toList = before ++ e :: behind
  exists_root : ∃ u, effect.root = some u ∧ u.toList = before ++ behind

theorem Tree.Removed.takesOut {r : Removal K V} {h : Nat} (hremoved : t.Removed h before behind r)
    (answer : Answer K V) :
    (⟨some r.tree, answer⟩ : Effect K V).TakesOut t before r.entry behind :=
  ⟨hremoved.toList_of, _, rfl, hremoved.toList_eq⟩

/-- The update answers, and the tree `t` keeps its root: where the updated tree goes under another
name, both names hold one root afterwards, and a transient stays as it is. -/
structure Edit.LeavesAlone (edit : Edit K V) (t : Tree K V) (answer : Answer K V) : Prop where
  apply_eq : edit.apply t = .ok ⟨none, answer⟩
  edit_step : ∀ (σ : Type) (w : Workspace K V) (source target : String),
    w.tree? source = some t →
      ∃ w', w.step (.edit source target edit : Action σ K V) = (w', .ok answer) ∧
        w'.tree? target = some t ∧ w'.shareRoot (.tree source) (.tree target) = true
  update_step : ∀ (σ : Type) (w : Workspace K V) (transient : String),
    w.transient? transient = some t →
      w.step (.update transient edit : Action σ K V) = (w, .ok answer)

/-- The update removes an entry from the tree `t` at a place where it may stop, or nothing if there
is no such entry. -/
inductive Edit.Removes (edit : Edit K V) (t : Tree K V)
    (stops : List (Entry K V) → Entry K V → List (Entry K V) → Prop) :
    Option (Entry K V) → Answer K V → Prop
  | entry {effect : Effect K V} {before behind : List (Entry K V)} {e : Entry K V}
      (happly : edit.apply t = .ok effect) (hstops : stops before e behind)
      (htakes : effect.TakesOut t before e behind) :
      Removes edit t stops (some e) effect.answer
  | nothing {answer : Answer K V} (halone : edit.LeavesAlone t answer) :
      Removes edit t stops none answer

/-! ## What the removals do -/

theorem Workspace.shareRoot_setTree {w : Workspace K V} {source : String} {p : Place}
    (hp : w.trees.get? source = some p) (target : String) :
    (w.setTree target p).shareRoot (.tree source) (.tree target) = true := by
  have hsource : (w.setTree target p).holdings.get? (.tree source) = some p := by
    show (w.trees.set target p).get? source = some p
    rw [Registers.get?_set]
    split
    · rfl
    · exact hp
  have htarget : (w.setTree target p).holdings.get? (.tree target) = some p := by
    show (w.trees.set target p).get? target = some p
    rw [Registers.get?_set, if_pos rfl]
  rw [shareRoot, hsource, htarget]
  simp [sameRoot]

namespace Edit

variable {edit : Edit K V} {answer : Answer K V}

theorem leavesAlone (happly : edit.apply t = .ok ⟨none, answer⟩) : edit.LeavesAlone t answer where
  apply_eq := happly
  edit_step σ w source target h := by
    obtain ⟨p, hp, rfl⟩ := Option.map_eq_some_iff.mp h
    refine ⟨w.setTree target p, ?_, w.tree?_setTree target p,
      Workspace.shareRoot_setTree hp target⟩
    simp only [Workspace.step, hp, happly]
  update_step σ w transient h := by
    obtain ⟨p, hp, rfl⟩ := Option.map_eq_some_iff.mp h
    simp only [Workspace.step, hp, happly]

theorem removes_erase (ht : t.Balanced) (cmp : Comparison K) (key : K) :
    (erase cmp key).Removes t (t.Finds cmp key) (t.find? cmp key) (.value (t.get? cmp key)) := by
  obtain ⟨effect, happly, houtcome⟩ := (erase cmp key).exists_outcome ht
  rw [Tree.get?]
  cases houtcome with
  | notFound hnone =>
    rw [hnone]
    exact .nothing (leavesAlone happly)
  | erased hfound hremoved =>
    rw [Tree.find?_eq_some_iff.mpr ⟨_, _, hfound⟩]
    exact .entry happly hfound (hremoved.takesOut _)

theorem removes_eraseFirst (ht : t.Balanced) :
    eraseFirst.Removes t (fun before _ _ => before = []) t.min? (.entry t.min?) := by
  obtain ⟨effect, happly, houtcome⟩ := eraseFirst.exists_outcome ht
  rw [t.min?_eq_head?]
  cases houtcome with
  | noFirst hempty =>
    rw [Tree.toList_eq_nil hempty]
    exact .nothing (leavesAlone happly)
  | first hremoved =>
    rw [hremoved.toList_of, List.nil_append, List.head?_cons]
    exact .entry happly rfl (hremoved.takesOut _)

theorem removes_eraseLast (ht : t.Balanced) :
    eraseLast.Removes t (fun _ _ behind => behind = []) t.max? (.entry t.max?) := by
  obtain ⟨effect, happly, houtcome⟩ := eraseLast.exists_outcome ht
  rw [t.max?_eq_getLast?]
  cases houtcome with
  | noLast hempty =>
    rw [Tree.toList_eq_nil hempty]
    exact .nothing (leavesAlone happly)
  | last hremoved =>
    rw [hremoved.toList_of, List.getLast?_concat]
    exact .entry happly rfl (hremoved.takesOut _)

end Edit

/-- **Removal is exact**, under any comparison, and a missing key keeps the root. -/
theorem removal_exact (ht : t.Balanced) :
    (∀ (cmp : Comparison K) (key : K), (Edit.erase cmp key).Removes t (t.Finds cmp key)
        (t.find? cmp key) (.value (t.get? cmp key))) ∧
      (∀ (cmp : Comparison K) (key : K) {before behind before' behind' e e'},
        t.Finds cmp key before e behind → t.Finds cmp key before' e' behind' →
          before = before' ∧ e = e' ∧ behind = behind') ∧
      Edit.eraseFirst.Removes t (fun before _ _ => before = []) t.min? (.entry t.min?) ∧
      Edit.eraseLast.Removes t (fun _ _ behind => behind = []) t.max? (.entry t.max?) ∧
      (t.min? = none ↔ t = .empty) ∧ (t.max? = none ↔ t = .empty) :=
  ⟨Edit.removes_erase ht, fun _ _ => Tree.Finds.unique, Edit.removes_eraseFirst ht,
    Edit.removes_eraseLast ht, Tree.min?_eq_none_iff, Tree.max?_eq_none_iff⟩

/-- Keys in no order and a comparison that always answers `eq`: what is removed in the root is
replaced from below. -/
theorem removal_exact_unordered :
    let pair : Tree Int64 Nat := .three .empty ⟨9, 90⟩ .empty ⟨3, 30⟩ .empty
    let t : Tree Int64 Nat := .two (.leaf ⟨5, 50⟩) ⟨1, 10⟩ pair
    t.Balanced ∧
      (Edit.erase (.constant .eq) 7).Removes t (t.Finds (.constant .eq) 7) (some ⟨1, 10⟩)
        (.value (some 10)) ∧
      (Edit.erase (.constant .lt) 1).LeavesAlone t (.value none) ∧
      Edit.eraseLast.Removes t (fun _ _ behind => behind = []) (some ⟨3, 30⟩)
        (.entry (some ⟨3, 30⟩)) := by
  intro pair t
  have hpair : pair.HasHeight 1 :=
    Tree.hasHeight_three.mpr ⟨Tree.hasHeight_empty, Tree.hasHeight_empty, Tree.hasHeight_empty⟩
  have ht : t.Balanced := ⟨2, Tree.hasHeight_two.mpr ⟨Tree.hasHeight_leaf _, hpair⟩⟩
  have hstop : t.find? (.constant .eq) 7 = some ⟨1, 10⟩ := by decide +kernel
  have hmiss : t.find? (.constant .lt) 1 = none := by decide +kernel
  obtain ⟨hkey, -, -, hlast, -⟩ := removal_exact ht
  have hfound := hkey (.constant .eq) 7
  have hmissed := hkey (.constant .lt) 1
  rw [Tree.get?, hstop] at hfound
  rw [Tree.get?, hmiss] at hmissed
  refine ⟨ht, hfound, ?_, hlast⟩
  cases hmissed with
  | nothing halone => exact halone

end Multiway
