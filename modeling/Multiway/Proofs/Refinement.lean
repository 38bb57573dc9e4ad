import Multiway.Proofs.Edit
import Multiway.Proofs.Lookup
import Multiway.Proofs.OrderedMap
import Multiway.Proofs.Validate
import Multiway.Proofs.Workspace

/-!
# A tree is an ordered map

Under a total preorder, a tree that passes the check is no more and no less than an ordered map. It
keeps to this through any number of updates.

* `Tree.Inserts.stores`: an insertion, way by way, stores the entry in the list of the tree;
* **`Edit.Outcome.step_eq`**: every way an update can go is a step of the map;
* `Tree.StandsFor`, `Update.exists_apply`: one update;
* `Tree.updates`, `Workspace.updates`: the trees and answers of one update after another;
* **`updates_refine`**: any number of updates.
-/

namespace Multiway

variable {K V : Type}

namespace Tree

variable {cmp : Comparison K} {t c : Tree K V} {e : Entry K V} {ins : Insertion K V} {h i : Nat}

/-! ## Storing in a tree -/

/-- The insertion leaves what storing `e` in the list `es` gives. -/
structure Stores (cmp : Comparison K) (e : Entry K V) (es : List (Entry K V))
    (ins : Insertion K V) : Prop where
  toList_eq : ins.tree.toList = storeIn cmp e es
  previous_eq : ins.previous = valueIn cmp e.key es

theorem stores_of_child [Std.TransCmp cmp] (hascending : Ascending cmp t.toList)
    (hloc : locate cmp t.keys e.key = .child i) (hc : t.children[i]? = some c)
    (htree : ins.tree.toList = t.listBefore i ++ (storeIn cmp e c.toList ++ t.listFrom i))
    (hprevious : ins.previous = valueIn cmp e.key c.toList) : Stores cmp e t.toList ins := by
  obtain ⟨hbefore, hbehind⟩ := sides_of_locate_child hascending hloc hc
  constructor
  · rw [htree, toList_of_child hc, storeIn_append hbefore, storeIn_append_of_above hbehind]
  · rw [hprevious, toList_of_child hc, valueIn_append hbefore, valueIn_append_of_above hbehind]

theorem Inserts.stores [Std.TransCmp cmp] (hins : Inserts cmp e t ins) (ht : t.HasHeight (h + 1))
    (hascending : Ascending cmp t.toList) : Stores cmp e t.toList ins := by
  induction hins generalizing h with
  | bottom => exact ⟨rfl, rfl⟩
  | @overwrite t i a hloc ha =>
    obtain ⟨l, r, hgap⟩ := exists_gap_around ha
    have hanswer : cmp a.key e.key = .eq := answer_of_slot hloc ha
    have hlist := toList_of_gap hgap
    rw [← List.append_assoc] at hlist
    obtain ⟨hstore, hvalue⟩ := storeIn_at (hlist ▸ hascending) hanswer
    exact ⟨by rw [hlist, hstore, toList_setEntry hgap, List.append_assoc], by rw [hlist, hvalue]⟩
  | atLeaf hloc hleaf hinsert =>
    -- only in a balanced tree is the child beside the new entry sure to be empty
    obtain rfl := ht.isLeaf_iff.mp hleaf
    obtain ⟨c, hc⟩ := exists_child ht.isEmpty_eq (locate_child_le hloc)
    have hnil : c.toList = [] := toList_eq_nil (hasHeight_zero_iff.mp (ht.child hc))
    refine stores_of_child hascending hloc hc ?_ (by rw [hnil]; rfl)
    rw [toList_insertEntry hc hinsert, hnil]
    rfl
  | descend hloc hleaf hc _ ih =>
    obtain ⟨k, rfl⟩ := ht.exists_succ hleaf
    obtain ⟨htree, hprevious⟩ := ih (ht.child hc) (ascending_child hascending hc)
    exact stores_of_child hascending hloc hc (by rw [toList_setChild hc, htree]) hprevious
  | splitLeft hloc hleaf hc hsplit hm _ hinsert ih =>
    -- the entry that moves up is compared the other way round than the keys of a node
    obtain ⟨k, rfl⟩ := ht.exists_succ hleaf
    have hlist := toList_of_split hsplit
    have hchild := hlist ▸ ascending_child hascending hc
    obtain ⟨hstore, hvalue⟩ := storeIn_before hchild (Std.OrientedCmp.gt_of_lt hm)
    obtain ⟨htree, hprevious⟩ :=
      ih ((ht.child hc).split hsplit).1 (ascending_append_cons.mp hchild).1.1
    refine stores_of_child hascending hloc hc ?_ (by rw [hlist, hvalue, hprevious])
    rw [toList_insertEntry_setChild hc hinsert, hlist, hstore, htree]
  | splitRight hloc hleaf hc hsplit hm _ hinsert ih =>
    obtain ⟨k, rfl⟩ := ht.exists_succ hleaf
    have hlist := toList_of_split hsplit
    have hchild := hlist ▸ ascending_child hascending hc
    obtain ⟨hstore, hvalue⟩ := storeIn_behind hchild (Std.OrientedCmp.lt_of_gt hm)
    obtain ⟨htree, hprevious⟩ :=
      ih ((ht.child hc).split hsplit).2 (ascending_append_cons.mp hchild).2.1
    refine stores_of_child hascending hloc hc ?_ (by rw [hlist, hvalue, hprevious])
    rw [toList_insertEntry_setChild hc hinsert, hlist, hstore, htree]
  | splitMiddle hloc hleaf hc hsplit hm hinsert =>
    have hlist := toList_of_split hsplit
    have hchild := hlist ▸ ascending_child hascending hc
    obtain ⟨hstore, hvalue⟩ := storeIn_at hchild (Std.OrientedCmp.eq_symm hm)
    refine stores_of_child hascending hloc hc ?_ (by rw [hlist, hvalue])
    rw [toList_insertEntry_setChild hc hinsert, hlist, hstore]

theorem Inserts.stores_root [Std.TransCmp cmp] (hins : Inserts cmp e t.splitRoot ins)
    (ht : t.Balanced) (hascending : Ascending cmp t.toList) : Stores cmp e t.toList ins := by
  rcases ht.splitRoot_cases with rfl | ⟨h, hroot⟩
  · rw [hins.eq_bottom]
    exact ⟨rfl, rfl⟩
  · rw [← toList_splitRoot] at hascending ⊢
    exact hins.stores hroot hascending

end Tree

/-! ## One update -/

section

variable {cmp : Comparison K} [Std.TransCmp cmp] {t : Tree K V} {m : OrderedMap K V cmp}

/-- **Every way an update can go is the step of the map** that the tree stands for. -/
theorem Edit.Outcome.step_eq {update : Update K V} {effect : Effect K V}
    (houtcome : (update.edit cmp).Outcome t effect) (ht : t.Balanced) (hm : m.entries = t.toList) :
    (effect.root.getD t).toList = (m.step update).1.entries ∧
      effect.answer = (m.step update).2 := by
  cases update with
  | insert e =>
    cases houtcome with
    | inserted hins =>
      obtain ⟨htree, hprevious⟩ := hins.stores_root ht (hm ▸ m.ascending)
      rw [← hm] at htree hprevious
      exact ⟨htree, congrArg Answer.value hprevious⟩
  | erase key =>
    cases houtcome with
    | notFound hnone =>
      have habsent := Tree.ne_of_find?_eq_none (hm ▸ m.ascending) hnone
      obtain ⟨hentries, hvalue⟩ := OrderedMap.erase_absent (hm ▸ habsent)
      exact ⟨hm.symm.trans hentries.symm, congrArg Answer.value hvalue.symm⟩
    | erased hfound hremoved =>
      obtain ⟨hentries, hvalue⟩ :=
        OrderedMap.erase_stored (hm.trans hfound.toList_eq) hfound.answer
      exact ⟨hremoved.toList_eq.trans hentries.symm, congrArg Answer.value hvalue.symm⟩
  | eraseFirst =>
    cases houtcome with
    | noFirst hempty =>
      have hnil : m.entries = [] := hm.trans (Tree.toList_eq_nil hempty)
      simp only [OrderedMap.step, OrderedMap.eraseFirst, hnil, ← hm, Option.getD_none,
        List.tail_nil, List.head?_nil, and_self]
    | first hremoved =>
      have hcons := hm.trans hremoved.toList_of
      simp only [OrderedMap.step, OrderedMap.eraseFirst, hcons, hremoved.toList_eq,
        Option.getD_some, List.nil_append, List.tail_cons, List.head?_cons, and_self]
  | eraseLast =>
    cases houtcome with
    | noLast hempty =>
      have hnil : m.entries = [] := hm.trans (Tree.toList_eq_nil hempty)
      simp only [OrderedMap.step, OrderedMap.eraseLast, hnil, ← hm, Option.getD_none,
        List.dropLast_nil, List.getLast?_nil, and_self]
    | last hremoved =>
      have hconcat := hm.trans hremoved.toList_of
      simp only [OrderedMap.step, OrderedMap.eraseLast, hconcat, hremoved.toList_eq,
        Option.getD_some, List.append_nil, List.dropLast_concat, List.getLast?_concat, and_self]

/-- The tree stands for the map: it has the entries of the map and is balanced. -/
structure Tree.StandsFor (t : Tree K V) (m : OrderedMap K V cmp) : Prop where
  entries_eq : m.entries = t.toList
  balanced : t.Balanced

omit [Std.TransCmp cmp] in
theorem Tree.standsFor_empty :
    (Tree.empty : Tree K V).StandsFor (⟨[], .nil⟩ : OrderedMap K V cmp) :=
  ⟨rfl, 0, Tree.hasHeight_empty⟩

theorem Tree.exists_standsFor_iff :
    (∃ m : OrderedMap K V cmp, t.StandsFor m) ↔ ∃ d, t.validate cmp = .ok d := by
  simp only [validate_eq_ok_iff]
  constructor
  · rintro ⟨m, hm, d, ht⟩
    exact ⟨d, hm ▸ m.ascending, ht⟩
  · rintro ⟨d, hascending, ht⟩
    exact ⟨⟨t.toList, hascending⟩, rfl, d, ht⟩

theorem Update.exists_apply (update : Update K V) (ht : t.StandsFor m) :
    ∃ effect, (update.edit cmp).apply t = .ok effect ∧
      (effect.root.getD t).StandsFor (m.step update).1 ∧ effect.answer = (m.step update).2 := by
  obtain ⟨effect, hok, houtcome⟩ := (update.edit cmp).exists_outcome ht.balanced
  obtain ⟨hentries, hanswer⟩ := houtcome.step_eq ht.balanced ht.entries_eq
  exact ⟨effect, hok, ⟨hentries.symm, houtcome.balanced ht.balanced⟩, hanswer⟩

end

/-! ## Any number of updates -/

/-- The tree after every update with the answer, unless an update fails. -/
def Tree.updates (cmp : Comparison K) (t : Tree K V) :
    List (Update K V) → Except Fault (List (Tree K V × Answer K V))
  | [] => .ok []
  | update :: later => do
    let effect ← (update.edit cmp).apply t
    let t := effect.root.getD t
    return (t, effect.answer) :: (← t.updates cmp later)

/-- What the name holds after every update under it, with the answer of the step. -/
def Workspace.updates (σ : Type) (cmp : Comparison K) (w : Workspace K V) (holder : Holder) :
    List (Update K V) → List (Option (Tree K V) × Except Refusal (Answer K V))
  | [] => []
  | update :: later =>
    let (w, answer) := w.step (holder.action (update.edit cmp) : Action σ K V)
    (holder.tree? w, answer) :: w.updates σ cmp holder later

section

variable {cmp : Comparison K} {t : Tree K V}

theorem Tree.StandsFor.exists_updates [Std.TransCmp cmp] {m : OrderedMap K V cmp}
    (ht : t.StandsFor m) (updates : List (Update K V)) :
    ∃ steps, t.updates cmp updates = .ok steps ∧
      steps.map (fun s => (s.1.toList, s.2)) =
        (m.run updates).map (fun s => (s.1.entries, s.2)) ∧
      ∀ s ∈ steps, ∃ d, s.1.validate cmp = .ok d := by
  induction updates generalizing t m with
  | nil => exact ⟨[], rfl, rfl, fun _ hs => absurd hs List.not_mem_nil⟩
  | cons update later ih =>
    obtain ⟨effect, hok, hstands, hanswer⟩ := update.exists_apply ht
    obtain ⟨steps, hsteps, hrun, hvalid⟩ := ih hstands
    refine ⟨(effect.root.getD t, effect.answer) :: steps, ?_, ?_,
      List.forall_mem_cons.mpr ⟨Tree.exists_standsFor_iff.mp ⟨_, hstands⟩, hvalid⟩⟩
    · simp only [Tree.updates, hok, hsteps, bind, Except.bind, pure, Except.pure]
    · rw [List.map_cons, hrun, OrderedMap.run, List.map_cons, hstands.entries_eq, hanswer]

theorem Workspace.updates_eq (σ : Type) {updates : List (Update K V)}
    {steps : List (Tree K V × Answer K V)} (hok : t.updates cmp updates = .ok steps)
    {w : Workspace K V} {holder : Holder} (hholder : holder.tree? w = some t) :
    w.updates σ cmp holder updates = steps.map fun s => (some s.1, .ok s.2) := by
  induction updates generalizing t steps w with
  | nil =>
    cases hok
    rfl
  | cons update later ih =>
    obtain ⟨effect, happly, hok⟩ := bind_eq_ok_iff.mp hok
    obtain ⟨rest, hrest, hok⟩ := bind_eq_ok_iff.mp hok
    cases hok
    obtain ⟨w', hstep, hholder'⟩ := exists_step hholder happly
    rw [updates, hstep, List.map_cons]
    simp only [hholder', ih hrest hholder']

theorem Tree.StandsFor.exists_insertMany [Std.TransCmp cmp] {m : OrderedMap K V cmp}
    (ht : t.StandsFor m) (es : List (Entry K V)) :
    ∃ u, t.insertMany cmp es = .ok u ∧ u.StandsFor (es.foldl OrderedMap.insert m) := by
  induction es generalizing t m with
  | nil => exact ⟨t, rfl, ht⟩
  | cons e es ih =>
    obtain ⟨ins, hok, hins⟩ := Tree.exists_insert cmp t e
    have hstores := hins.stores_root ht.balanced (ht.entries_eq ▸ m.ascending)
    have hstands : ins.tree.StandsFor (m.insert e) :=
      ⟨by rw [OrderedMap.entries_insert, ht.entries_eq, hstores.toList_eq],
        hins.balanced ht.balanced⟩
    obtain ⟨u, hu, hstands⟩ := ih hstands
    refine ⟨u, ?_, hstands⟩
    rw [insertMany, List.foldlM_cons, hok]
    exact hu

end

/-- **A tree that passes the check is an ordered map**, whatever updates follow. -/
theorem updates_refine {cmp : Comparison K} [Std.TransCmp cmp] {t : Tree K V} {d : Nat}
    (hvalid : t.validate cmp = .ok d) :
    ∃ m : OrderedMap K V cmp, m.entries = t.toList ∧
      (∀ updates, ∃ steps, t.updates cmp updates = .ok steps ∧
        steps.map (fun s => (s.1.toList, s.2)) =
          (m.run updates).map (fun s => (s.1.entries, s.2)) ∧
        (∀ s ∈ steps, ∃ d, s.1.validate cmp = .ok d) ∧
        ∀ (σ : Type) (w : Workspace K V) (holder : Holder), holder.tree? w = some t →
          w.updates σ cmp holder updates = steps.map fun s => (some s.1, .ok s.2)) ∧
      ∀ es, ∃ u, t.insertMany cmp es = .ok u ∧
        u.toList = (es.foldl OrderedMap.insert m).entries := by
  obtain ⟨m, ht⟩ := Tree.exists_standsFor_iff.mpr ⟨d, hvalid⟩
  refine ⟨m, ht.entries_eq, fun updates => ?_, fun es => ?_⟩
  · obtain ⟨steps, hsteps, hrun, hchecked⟩ := ht.exists_updates updates
    exact ⟨steps, hsteps, hrun, hchecked, fun σ w holder hholder =>
      Workspace.updates_eq σ hsteps hholder⟩
  · obtain ⟨u, hu, hstands⟩ := ht.exists_insertMany es
    exact ⟨u, hu, hstands.entries_eq.symm⟩

/-- Integers by magnitude: of the keys 3 and -3, which compare equal, the stored one stays. -/
theorem updates_refine_byMagnitude :
    let t : Tree Int64 Nat := .two (.leaf ⟨-1, 10⟩) ⟨2, 20⟩ (.leaf ⟨-3, 30⟩)
    let w : Workspace Int64 Nat := Workspace.empty.putTransient "x" t
    let updates : List (Update Int64 Nat) := [.insert ⟨3, 33⟩, .erase 2, .eraseFirst]
    Std.TransCmp Comparison.byMagnitude ∧ t.validate Comparison.byMagnitude = .ok 2 ∧
      (∃ steps, t.updates Comparison.byMagnitude updates = .ok steps ∧
        steps.map (fun s => (s.1.toList, s.2)) =
          [([⟨-1, 10⟩, ⟨2, 20⟩, ⟨-3, 33⟩], .value (some 30)),
            ([⟨-1, 10⟩, ⟨-3, 33⟩], .value (some 20)), ([⟨-3, 33⟩], .entry (some ⟨-1, 10⟩))] ∧
        w.updates Unit Comparison.byMagnitude (.transient "x") updates =
          steps.map fun s => (some s.1, .ok s.2)) ∧
      ∃ u, t.insertMany Comparison.byMagnitude [⟨4, 40⟩, ⟨-4, 44⟩] = .ok u ∧
        u.toList = [⟨-1, 10⟩, ⟨2, 20⟩, ⟨-3, 30⟩, ⟨4, 44⟩] := by
  intro t w updates
  have : Std.TransCmp Comparison.byMagnitude := inferInstanceAs (Std.TransCmp (compareOn _))
  have hvalid : t.validate Comparison.byMagnitude = .ok 2 := by decide
  obtain ⟨⟨_, hascending⟩, rfl, hupdates, hmany⟩ := updates_refine hvalid
  obtain ⟨steps, hsteps, hrun, -, hholder⟩ := hupdates updates
  obtain ⟨u, hu, hlist⟩ := hmany [⟨4, 40⟩, ⟨-4, 44⟩]
  exact ⟨this, hvalid, ⟨steps, hsteps, hrun, hholder Unit w (.transient "x") rfl⟩, u, hu, hlist⟩

end Multiway
