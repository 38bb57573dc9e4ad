import Multiway.Proofs.Lookup
import Multiway.Proofs.Validate
import Multiway.Proofs.Walk

/-!
# Seeking agrees with walking

A seek builds its stack on the way down to a key, a walk builds it frame by frame from the first
entry on. Both come to the same stack: the frames of the seek are those of a walk that has passed
the entries to the left of the place sought. For this the tree may have any shape and the comparison
need not be an order. If it is one, the entries passed are the smaller ones.

What carries the proof is a walk through a whole subtree. It begins where the walk arrives at the
subtree, takes one advance for every entry of it, and ends where the frames below are settled.

* `Tree.Cuts`: where the descent for a key cuts the list of the tree; `Tree.exists_cuts`;
* `Tree.Cuts.sides`: the two parts, if the list is ascending;
* `Cursor.arrive`, **`Cursor.advances_arrive`**: the walk through a subtree;
* `Cursor.advances_child`: the walk to a child;
* **`Tree.Cuts.advances`**: the walk to the place of a seek;
* `Cursor.Traces`: the frames are the nodes on one way down from the root;
* **`seek_eq_walk`**: the seek from the root.
-/

namespace Multiway

variable {K V : Type}

/-! ## The cut -/

namespace Tree

variable {cmp : Comparison K} {key : K} {t : Tree K V} {before behind : List (Entry K V)}

/-- The descent for `key` stops between `before` and `behind`: at an entry that it hits, which then
is the first of `behind`, or at an empty subtree. -/
inductive Cuts (cmp : Comparison K) (key : K) :
    Tree K V → List (Entry K V) → List (Entry K V) → Prop
  | atBottom {t : Tree K V} (hempty : t.isEmpty = true) : Cuts cmp key t [] []
  | atSlot {t : Tree K V} {i : Nat} {g : Gap K V} (hloc : locate cmp t.keys key = .slot i)
      (hgap : t.gap? i = some g) :
      Cuts cmp key t (t.listBefore i ++ g.left.toList)
        (g.middle :: (g.right.toList ++ t.listFrom (i + 1)))
  | inChild {t c : Tree K V} {i : Nat} {before behind : List (Entry K V)}
      (hloc : locate cmp t.keys key = .child i) (hc : t.children[i]? = some c)
      (hcut : Cuts cmp key c before behind) :
      Cuts cmp key t (t.listBefore i ++ before) (behind ++ t.listFrom i)

theorem Cuts.toList_eq (hcut : Cuts cmp key t before behind) : t.toList = before ++ behind := by
  induction hcut with
  | atBottom hempty => exact toList_eq_nil hempty
  | atSlot hloc hgap => rw [toList_of_gap hgap, List.append_assoc]
  | inChild hloc hc _ ih =>
    rw [toList_of_child hc, ih]
    simp only [List.append_assoc]

/-- **Every key has a place in every tree.** -/
theorem exists_cuts (cmp : Comparison K) (key : K) (t : Tree K V) :
    ∃ before behind, Cuts cmp key t before behind := by
  fun_induction find? cmp t key with
  | case1 t i hloc =>
    obtain ⟨g, hgap⟩ := exists_gap (locate_slot_lt hloc)
    exact ⟨_, _, .atSlot hloc hgap⟩
  | case2 t i hloc hnone =>
    exact ⟨_, _, .atBottom (isEmpty_of_no_child (locate_child_le hloc) hnone)⟩
  | case3 t i hloc c hc ih =>
    obtain ⟨before, behind, hcut⟩ := ih
    exact ⟨_, _, .inChild hloc hc hcut⟩

theorem Cuts.sides [Std.TransCmp cmp] (hcut : Cuts cmp key t before behind)
    (h : Ascending cmp t.toList) : Below cmp key before ∧ ∀ b ∈ behind, cmp b.key key ≠ .lt := by
  induction hcut with
  | atBottom =>
    exact ⟨fun _ ha => absurd ha List.not_mem_nil, fun _ hb => absurd hb List.not_mem_nil⟩
  | @atSlot t i g hloc hgap =>
    have heq : cmp g.middle.key key = .eq := answer_of_slot hloc (gap?_eq_some.mp hgap).2.1
    rw [toList_of_gap hgap, ← List.append_assoc] at h
    refine ⟨h.below (by rw [heq]; decide), List.forall_mem_cons.mpr ⟨by rw [heq]; decide, ?_⟩⟩
    intro b hb
    rw [h.above (by rw [heq]; decide) b hb]
    decide
  | inChild hloc hc _ ih =>
    obtain ⟨hbefore, hbehind⟩ := sides_of_locate_child h hloc hc
    obtain ⟨hless, hrest⟩ := ih (ascending_child h hc)
    constructor
    · intro a ha
      rcases List.mem_append.mp ha with ha | ha
      · exact hbefore a ha
      · exact hless a ha
    · intro b hb
      rcases List.mem_append.mp hb with hb | hb
      · exact hrest b hb
      · rw [hbehind b hb]
        decide

end Tree

/-! ## The walk through a subtree -/

namespace Cursor

variable {t c : Tree K V} {below : List (Frame K V)} {i : Nat}

theorem advances_add {c c' : Cursor K V} {m : Nat} (h : c.advances m = .ok c') (n : Nat) :
    c.advances (m + n) = c'.advances n := by
  induction n with
  | zero => exact h
  | succ n ih => rw [← Nat.add_assoc, advances, ih, advances]

/-- A walk that has come to the subtree `t` with the frames `below`: at the first entry of the
subtree, or at what comes next if there is none. -/
def arrive (t : Tree K V) (below : List (Frame K V)) : Cursor K V :=
  ⟨if t.isEmpty then settle below else descend t below⟩

theorem start_eq_arrive (t : Tree K V) : start t = arrive t [] := by
  cases t <;> rfl

theorem settle_of_lt (hi : i < t.entries.length) :
    settle (⟨t, i⟩ :: below) = ⟨t, i⟩ :: below := by
  simp [settle, hi]

theorem settle_of_le (hi : t.entries.length ≤ i) :
    settle (⟨t, i⟩ :: below) = settle below := by
  simp [settle, hi]

theorem arrive_eq (hc : t.children[0]? = some c) :
    arrive t below = arrive c (⟨t, 0⟩ :: below) := by
  have hdescend : descend t below = descend c (⟨t, 0⟩ :: below) := by
    cases t <;> cases hc <;> rfl
  have hsettle : settle (⟨t, 0⟩ :: below) = ⟨t, 0⟩ :: below :=
    settle_of_lt (Tree.entries_length_pos (Tree.isEmpty_of_child hc))
  rw [arrive, arrive, Tree.isEmpty_of_child hc, hdescend, hsettle]
  cases c <;> rfl

theorem advance_eq_arrive (hc : t.children[i + 1]? = some c) :
    (⟨⟨t, i⟩ :: below⟩ : Cursor K V).advance = .ok (arrive c (⟨t, i + 1⟩ :: below)) := by
  simp only [advance, hc, arrive]

/-- The walk through the subtree takes one advance for every entry, whatever the frames below. -/
def Passes (t : Tree K V) : Prop :=
  ∀ below, (arrive t below).advances t.toList.length = .ok ⟨settle below⟩

theorem advances_child (hpass : ∀ d ∈ t.children, Passes d) (hc : t.children[i]? = some c) :
    (arrive t below).advances (t.listBefore i).length = .ok (arrive c (⟨t, i⟩ :: below)) := by
  induction i generalizing c with
  | zero =>
    rw [Tree.listBefore_zero, arrive_eq hc]
    rfl
  | succ i ih =>
    obtain ⟨l, m, hgap⟩ := Tree.exists_gap_before hc
    obtain ⟨hl, hm, -⟩ := Tree.gap?_eq_some.mp hgap
    rw [Tree.listBefore_succ hl hm, List.length_append, List.length_append, advances_add (ih hl)]
    -- through child `i` to the entry to its right, and from there one step on
    have hthrough := hpass _ (List.mem_of_getElem? hl) (⟨t, i⟩ :: below)
    rw [settle_of_lt (List.getElem?_eq_some_iff.mp hm).1] at hthrough
    rw [advances_add hthrough]
    exact advance_eq_arrive hc

/-- **A walk through a subtree meets each of its entries once.** -/
theorem advances_arrive (t : Tree K V) : Passes t := by
  intro below
  cases hempty : t.isEmpty with
  | true =>
    rw [Tree.toList_eq_nil hempty, arrive, hempty]
    rfl
  | false =>
    obtain ⟨c, hc⟩ := Tree.exists_child hempty (Nat.le_refl _)
    have hpass : ∀ d ∈ t.children, Passes d := fun d hd => advances_arrive d
    rw [Tree.toList_of_child hc, Tree.listFrom_eq_nil (Nat.le_refl _), List.append_nil,
      List.length_append, advances_add (advances_child hpass hc),
      hpass c (List.mem_of_getElem? hc), settle_of_le (Nat.le_refl _)]
termination_by t.size
decreasing_by
  obtain ⟨i, hi⟩ := List.mem_iff_getElem?.mp hd
  exact Tree.size_child_lt hi

/-! ## The walk to the place of a seek -/

theorem seekFrom_of_child {cmp : Comparison K} {key : K}
    (hloc : locate cmp t.keys key = .child i) (hc : t.children[i]? = some c) :
    seekFrom cmp key t below = seekFrom cmp key c (⟨t, i⟩ :: below) := by
  rw [seekFrom, hloc]
  exact Tree.match_child hc

theorem seekFrom_of_isEmpty {cmp : Comparison K} {key : K} (hempty : t.isEmpty = true) :
    seekFrom cmp key t below = settle below := by
  cases t with
  | empty =>
    have hloc : locate cmp (Tree.empty : Tree K V).keys key = .child 0 := rfl
    rw [seekFrom, hloc]
    rfl
  | _ => cases hempty

end Cursor

/-- **The stack of a seek is that of a walk that has passed what lies before the cut.** -/
theorem Tree.Cuts.advances {cmp : Comparison K} {key : K} {t : Tree K V}
    {before behind : List (Entry K V)} (hcut : t.Cuts cmp key before behind)
    (below : List (Frame K V)) :
    (Cursor.arrive t below).advances before.length = .ok ⟨Cursor.seekFrom cmp key t below⟩ := by
  have hpass (t : Tree K V) : ∀ d ∈ t.children, Cursor.Passes d :=
    fun d _ => Cursor.advances_arrive d
  induction hcut generalizing below with
  | @atBottom t hempty =>
    rw [Cursor.seekFrom_of_isEmpty hempty, Cursor.arrive, if_pos hempty]
    rfl
  | @atSlot t i g hloc hgap =>
    have hl := (gap?_eq_some.mp hgap).1
    rw [List.length_append, Cursor.advances_add (Cursor.advances_child (hpass t) hl),
      Cursor.advances_arrive, Cursor.settle_of_lt (locate_slot_lt hloc), Cursor.seekFrom, hloc]
  | inChild hloc hc _ ih =>
    rw [List.length_append, Cursor.advances_add (Cursor.advances_child (hpass _) hc), ih,
      Cursor.seekFrom_of_child hloc hc]

/-! ## The way down -/

namespace Cursor

variable {root t c : Tree K V} {stack below : List (Frame K V)} {i : Nat}

/-- The subtree `t` is the child that the frame on top names, or the root if there is no frame. -/
def Hangs (root t : Tree K V) : List (Frame K V) → Prop
  | [] => t = root
  | f :: _ => f.node.children[f.slot]? = some t

/-- Every frame is at the child that the frame below it names, and the lowest frame is at the root.
So the slots alone say at which places of the tree the nodes of the frames are. -/
def Traces (root : Tree K V) : List (Frame K V) → Prop
  | [] => True
  | f :: below => Hangs root f.node below ∧ Traces root below

theorem traces_settle (h : Traces root stack) : Traces root (settle stack) := by
  induction stack with
  | nil => exact h
  | cons f below ih =>
    by_cases hle : f.node.entries.length ≤ f.slot
    · rw [settle_of_le (t := f.node) hle]
      exact ih h.2
    · rw [settle_of_lt (t := f.node) (by omega)]
      exact h

theorem traces_seekFrom (cmp : Comparison K) (key : K) (ht : Hangs root t stack)
    (h : Traces root stack) : Traces root (seekFrom cmp key t stack) := by
  fun_induction seekFrom cmp key t stack with
  | case1 => exact ⟨ht, h⟩
  | case2 => exact traces_settle h
  | case3 t stack i hloc c hc ih => exact ih hc ⟨ht, h⟩

end Cursor

/-! ## From the root -/

namespace Tree

variable {cmp : Comparison K} {key : K} {t : Tree K V} {before behind : List (Entry K V)}

theorem Cuts.advances_start (hcut : Cuts cmp key t before behind) :
    (Cursor.start t).advances before.length = .ok (Cursor.seek cmp t key) := by
  rw [Cursor.start_eq_arrive]
  exact hcut.advances []

theorem Cuts.settled_seek (hcut : Cuts cmp key t before behind) :
    (Cursor.seek cmp t key).Settled ∧ (Cursor.seek cmp t key).ahead = behind := by
  have hlength : before.length ≤ (Cursor.start t).ahead.length := by
    rw [Cursor.ahead_start, hcut.toList_eq, List.length_append]
    exact Nat.le_add_right _ _
  obtain ⟨c, hc, hsettled, hahead⟩ := (Cursor.settled_start t).exists_advances hlength
  obtain rfl : Cursor.seek cmp t key = c := Except.ok.inj (hcut.advances_start.symm.trans hc)
  rw [Cursor.ahead_start, hcut.toList_eq, List.drop_left] at hahead
  exact ⟨hsettled, hahead⟩

theorem Cuts.split [Std.TransCmp cmp] (hcut : Cuts cmp key t before behind)
    (h : Ascending cmp t.toList) :
    before.length = t.toList.countP (cmp ·.key key == .lt) ∧
      behind = t.toList.filter (cmp ·.key key != .lt) := by
  obtain ⟨hless, hrest⟩ := hcut.sides h
  have hbefore : ∀ a ∈ before, (cmp a.key key == .lt) = true := fun a ha => by rw [hless a ha]; rfl
  have hbehind : ∀ b ∈ behind, (cmp b.key key == .lt) = false := fun b hb =>
    beq_false_of_ne (hrest b hb)
  rw [hcut.toList_eq, List.countP_append, List.filter_append]
  constructor
  · rw [List.countP_eq_length.mpr hbefore,
      List.countP_eq_zero.mpr fun b hb => by simp [hbehind b hb], Nat.add_zero]
  · rw [List.filter_eq_nil_iff.mpr fun a ha => by simp [bne, hbefore a ha],
      List.filter_eq_self.mpr fun b hb => by simp [bne, hbehind b hb], List.nil_append]

end Tree

/-- **A seek gives the very stack of a walk from the first entry on.** In a tree that passes the
check the walk has passed just the smaller keys. -/
theorem seek_eq_walk (cmp : Comparison K) (t : Tree K V) (key : K) :
    ∃ m ≤ t.size, (Cursor.start t).advances m = .ok (Cursor.seek cmp t key) ∧
      Cursor.Traces t (Cursor.seek cmp t key).stack ∧
      ∀ d, Std.TransCmp cmp → t.validate cmp = .ok d →
        m = t.toList.countP (cmp ·.key key == .lt) ∧
          (∀ n, (Iter.seek cmp t key).answers n =
            .ok ((List.range n).map ((t.toList.filter (cmp ·.key key != .lt))[·]?))) ∧
          ((Cursor.seek cmp t key).isExhausted = true ↔ ∀ e ∈ t.toList, cmp e.key key = .lt) := by
  obtain ⟨before, behind, hcut⟩ := t.exists_cuts cmp key
  obtain ⟨hsettled, hahead⟩ := hcut.settled_seek
  have hsize : before.length ≤ t.size := by
    rw [← t.length_toList, hcut.toList_eq, List.length_append]
    exact Nat.le_add_right _ _
  refine ⟨before.length, hsize, hcut.advances_start, Cursor.traces_seekFrom cmp key rfl trivial,
    fun d hcmp hvalid => ?_⟩
  obtain ⟨hlength, hfilter⟩ := hcut.split (Tree.validate_eq_ok_iff.mp hvalid).1
  refine ⟨hlength, fun n => ?_, ?_⟩
  · rw [Iter.answers_eq (show (Iter.seek cmp t key).cursor.Settled from hsettled) n, ← hfilter,
      ← hahead]
    rfl
  · rw [hsettled.isExhausted_eq, hahead, hfilter, List.isEmpty_iff, List.filter_eq_nil_iff]
    simp [bne]

/-- Integers by magnitude: a seek for -4 passes the keys -1, 2 and -3. -/
theorem seek_eq_walk_byMagnitude :
    let t : Tree Int64 Nat :=
      .two (.leaf ⟨-1, 10⟩) ⟨2, 20⟩ (.three .empty ⟨-3, 30⟩ .empty ⟨5, 50⟩ .empty)
    Std.TransCmp Comparison.byMagnitude ∧ t.validate Comparison.byMagnitude = .ok 2 ∧
      (Cursor.start t).advances 3 = .ok (Cursor.seek Comparison.byMagnitude t (-4)) ∧
      (Iter.seek Comparison.byMagnitude t (-4)).answers 2 = .ok [some ⟨5, 50⟩, none] ∧
      (Cursor.seek Comparison.byMagnitude t (-4)).isExhausted = false := by
  intro t
  have hcmp : Std.TransCmp Comparison.byMagnitude := inferInstanceAs (Std.TransCmp (compareOn _))
  have hvalid : t.validate Comparison.byMagnitude = .ok 2 := by decide
  obtain ⟨m, -, hwalk, -, hlaw⟩ := seek_eq_walk Comparison.byMagnitude t (-4)
  obtain ⟨hm, hyields, hend⟩ := hlaw 2 hcmp hvalid
  have hcount : m = 3 := hm.trans (by decide)
  have hgreater : ¬∀ e ∈ t.toList, Comparison.byMagnitude e.key (-4) = .lt := by decide
  exact ⟨hcmp, hvalid, hcount ▸ hwalk, (hyields 2).trans (by decide),
    Bool.eq_false_iff.mpr fun hexhausted => hgreater (hend.mp hexhausted)⟩

end Multiway
