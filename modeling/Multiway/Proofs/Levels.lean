import Multiway.Proofs.Balance
import Multiway.Proofs.Seek

/-!
# The frames of a cursor

The frames of a cursor lie on one way down through the tree: each is at the child that the slot of
the frame below it names, and the top one is at the current entry. So their number is the level of
the current entry, and no more than there are levels.

A lower frame may point past the last entry of its node, since it waits for the subtree above it to
end. Only the frame on top has to name an entry. What carries the proof is therefore two facts that
every step keeps: the frame on top is settled (`Cursor.Settled`), and each frame hangs from the one
below it (`Cursor.Traces`).

* `Tree.subtree?`: the subtree at the end of a way down; `Tree.nodeAt_of_subtree?`,
  `Tree.HasHeight.exists_height`: its level and its height;
* `Cursor.Reached`: the cursors that a walk comes to;
* `Cursor.traces_descend`, `Cursor.traces_advance`: one step;
* **`Cursor.Reached.sound`**: any number of steps;
* `Cursor.subtree?_of_traces`, `Cursor.Reached.subtree?_frame`: every frame is at the end of the way
  that the slots below it give;
* `Cursor.Reached.exists_height`: how far the frame on top is from the bottom;
* **`frames_trace_way`**: what the frames mean.
-/

namespace Multiway

variable {K V : Type}

/-! ## Ways down -/

namespace Tree

variable {t c n : Tree K V} {h i : Nat} {way : List Nat}

/-- The subtree to which a way leads: from the root on, at every node to the child of that index. -/
def subtree? (t : Tree K V) : (way : List Nat) → Option (Tree K V)
  | [] => some t
  | i :: way => do (← t.children[i]?).subtree? way

theorem subtree?_cons (hc : t.children[i]? = some c) (way : List Nat) :
    t.subtree? (i :: way) = c.subtree? way := by
  rw [subtree?, hc]
  rfl

theorem exists_child_of_subtree? (hn : t.subtree? (i :: way) = some n) :
    ∃ c, t.children[i]? = some c ∧ c.subtree? way = some n :=
  Option.bind_eq_some_iff.mp hn

theorem subtree?_concat (hn : t.subtree? way = some n) (hc : n.children[i]? = some c) :
    t.subtree? (way ++ [i]) = some c := by
  induction way generalizing t with
  | nil =>
    cases hn
    exact subtree?_cons hc []
  | cons j way ih =>
    obtain ⟨d, hd, hn⟩ := exists_child_of_subtree? hn
    rw [List.cons_append, subtree?_cons hd, ih hn]

theorem nodeAt_of_subtree? (hn : t.subtree? way = some n) (hempty : n.isEmpty = false) :
    t.NodeAt way.length n := by
  induction way generalizing t with
  | nil =>
    cases hn
    exact .root hempty
  | cons i way ih =>
    obtain ⟨c, hc, hn⟩ := exists_child_of_subtree? hn
    exact .child (List.mem_of_getElem? hc) (ih hn)

theorem HasHeight.exists_height (ht : t.HasHeight h) (hn : t.subtree? way = some n) :
    ∃ k, h = way.length + k ∧ n.HasHeight k := by
  induction way generalizing t h with
  | nil =>
    cases hn
    exact ⟨h, (Nat.zero_add h).symm, ht⟩
  | cons i way ih =>
    obtain ⟨c, hc, hn⟩ := exists_child_of_subtree? hn
    obtain ⟨l, rfl⟩ := ht.exists_eq_succ (isEmpty_of_child hc)
    obtain ⟨k, rfl, hk⟩ := ih (ht.child hc) hn
    exact ⟨k, by rw [List.length_cons]; omega, hk⟩

end Tree

/-! ## The walk -/

namespace Cursor

variable {root t : Tree K V} {c c' : Cursor K V} {f : Frame K V} {stack below : List (Frame K V)}

/-- The cursors of a tree: at the first entry, at a key, and those that advances lead to. -/
inductive Reached (t : Tree K V) : Cursor K V → Prop
  | start : Reached t (start t)
  | seek (cmp : Comparison K) (key : K) : Reached t (seek cmp t key)
  | advance {c c' : Cursor K V} (hc : Reached t c) (hadvance : c.advance = .ok c') : Reached t c'

theorem traces_descend (ht : Hangs root t stack) (h : Traces root stack) :
    Traces root (descend t stack) := by
  induction t generalizing stack with
  | empty => exact h
  | two _ _ _ ih | three _ _ _ _ _ ih | four _ _ _ _ _ _ _ ih => exact ih rfl ⟨ht, h⟩

/-- The slot on top moves on, and its node stays where it was. -/
theorem traces_advance (h : Traces root c.stack) (hadvance : c.advance = .ok c') :
    Traces root c'.stack := by
  obtain ⟨_ | ⟨f, below⟩⟩ := c
  · cases hadvance
  · rw [advance] at hadvance
    split at hadvance
    · cases hadvance
    · next g below' heq =>
      cases heq
      split at hadvance
      · cases hadvance
      · next child hchild =>
        cases hadvance
        have hmoved : Traces root (⟨f.node, f.slot + 1⟩ :: below) := h
        split
        · exact traces_settle hmoved
        · exact traces_descend hchild hmoved

/-- **Every cursor of a tree is settled, and its frames lie on one way down.** -/
theorem Reached.sound (hc : c.Reached t) : c.Settled ∧ Traces t c.stack := by
  induction hc with
  | start => exact ⟨settled_start t, traces_descend rfl trivial⟩
  | seek cmp key =>
    obtain ⟨_, _, hcut⟩ := t.exists_cuts cmp key
    exact ⟨hcut.settled_seek.1, traces_seekFrom cmp key rfl trivial⟩
  | @advance c c' _ hadvance ih =>
    obtain ⟨hsettled, htraces⟩ := ih
    have hend : c.isExhausted = false := by
      cases hend : c.isExhausted with
      | false => rfl
      | true => cases (advance_of_isExhausted hend).symm.trans hadvance
    obtain ⟨_, d, -, hd, hsettled'⟩ := hsettled.exists_advance hend
    obtain rfl : d = c' := Except.ok.inj (hd.symm.trans hadvance)
    exact ⟨hsettled', traces_advance htraces hadvance⟩

/-! ## What the frames mean -/

theorem subtree?_of_traces (h : Traces root (f :: below)) :
    root.subtree? (below.reverse.map Frame.slot) = some f.node := by
  induction below generalizing f with
  | nil => rw [show f.node = root from h.1]; rfl
  | cons g below ih =>
    obtain ⟨hhangs, hbelow⟩ := h
    rw [List.reverse_cons, List.map_append]
    exact Tree.subtree?_concat (ih hbelow) hhangs

theorem traces_of_suffix (h : Traces root stack) (hsuffix : below <:+ stack) :
    Traces root below := by
  obtain ⟨above, rfl⟩ := hsuffix
  induction above with
  | nil => exact h
  | cons f above ih => exact ih h.2

theorem isEmpty_of_traces (h : Traces root (f :: below)) (htop : f.node.isEmpty = false) :
    ∀ g ∈ f :: below, g.node.isEmpty = false := by
  induction below generalizing f with
  | nil => exact List.forall_mem_singleton.mpr htop
  | cons g below ih =>
    exact List.forall_mem_cons.mpr ⟨htop, ih h.2 (Tree.isEmpty_of_child h.1)⟩

theorem length_descend (t : Tree K V) (stack : List (Frame K V)) :
    (descend t stack).length = t.depth + stack.length := by
  induction t generalizing stack with
  | empty => exact (Nat.zero_add _).symm
  | two _ _ _ ih | three _ _ _ _ _ ih | four _ _ _ _ _ _ _ ih =>
    rw [descend, ih, List.length_cons, Tree.depth]
    omega

theorem Settled.isExhausted_iff (hc : c.Settled) : c.isExhausted = true ↔ c.get? = none := by
  rw [hc.get?_eq_head?, hc.isExhausted_eq, List.isEmpty_iff, List.head?_eq_none_iff]

theorem Settled.isEmpty_top (hc : c.Settled) (hstack : c.stack = f :: below) :
    f.slot < f.node.entries.length ∧ f.node.isEmpty = false := by
  have hslot : f.slot < f.node.entries.length := hc f (by rw [hstack]; rfl)
  obtain ⟨g, hgap⟩ := Tree.exists_gap hslot
  exact ⟨hslot, Tree.isEmpty_of_child (Tree.gap?_eq_some.mp hgap).1⟩

theorem Reached.subtree?_frame (hc : c.Reached t) (hsuffix : f :: below <:+ c.stack) :
    t.subtree? (below.reverse.map Frame.slot) = some f.node ∧ t.NodeAt below.length f.node := by
  obtain ⟨hsettled, htraces⟩ := hc.sound
  have hway := subtree?_of_traces (traces_of_suffix htraces hsuffix)
  -- only the slot on top names an entry; below it a node is one because another hangs from it
  have hnode : f.node.isEmpty = false := by
    cases hstack : c.stack with
    | nil => rw [hstack] at hsuffix; cases List.suffix_nil.mp hsuffix
    | cons g above =>
      rw [hstack] at htraces hsuffix
      exact isEmpty_of_traces htraces (hsettled.isEmpty_top hstack).2 f
        (hsuffix.subset List.mem_cons_self)
  refine ⟨hway, ?_⟩
  simpa using Tree.nodeAt_of_subtree? hway hnode

theorem Reached.exists_height (hc : c.Reached t) (ht : t.Balanced)
    (hstack : c.stack = f :: below) :
    ∃ k, t.depth = below.length + (k + 1) ∧ f.node.HasHeight (k + 1) := by
  obtain ⟨h, hh⟩ := ht
  have hsuffix : f :: below <:+ c.stack := ⟨[], hstack.symm⟩
  have hway := (hc.subtree?_frame hsuffix).1
  obtain ⟨k, hk, hheight⟩ := hh.exists_height hway
  obtain ⟨k, rfl⟩ := hheight.exists_eq_succ (hc.sound.1.isEmpty_top hstack).2
  rw [List.length_map, List.length_reverse] at hk
  exact ⟨k, hh.depth_eq.trans hk, hheight⟩

end Cursor

/-- **The frames of a cursor are the nodes on the way to the current entry.** -/
theorem frames_trace_way {t : Tree K V} {c : Cursor K V} (ht : t.Balanced) (hc : c.Reached t) :
    (∀ f below, f :: below <:+ c.stack →
      t.subtree? (below.reverse.map Frame.slot) = some f.node ∧ t.NodeAt below.length f.node) ∧
    (∀ f below, c.stack = f :: below →
      (∃ e, f.node.entries[f.slot]? = some e ∧ c.get? = some e) ∧
        c.stackDepth = below.length + 1 ∧ (c.stackDepth = t.depth ↔ f.node.isLeaf = true)) ∧
    c.stackDepth ≤ Cursor.capacity t ∧ (Cursor.start t).stackDepth = t.depth ∧
    (c.stackDepth = 0 ↔ c.isExhausted = true) ∧ (c.isExhausted = true ↔ c.get? = none) ∧
    (c.isExhausted = false → ∃ c', c.advance = .ok c') := by
  have hsettled := hc.sound.1
  refine ⟨fun f below hsuffix => hc.subtree?_frame hsuffix, fun f below hstack => ?_, ?_, ?_, ?_,
    hsettled.isExhausted_iff, fun hend => ?_⟩
  · have hslot := (hsettled.isEmpty_top hstack).1
    have hget : c.get? = f.node.entries[f.slot]? := by rw [Cursor.get?, hstack]
    have hdepth : c.stackDepth = below.length + 1 := by rw [Cursor.stackDepth, hstack]; rfl
    obtain ⟨k, hk, hheight⟩ := hc.exists_height ht hstack
    refine ⟨⟨_, List.getElem?_eq_getElem hslot, hget.trans (List.getElem?_eq_getElem hslot)⟩,
      hdepth, ?_⟩
    -- both sides say that no level is left below the node
    rw [hheight.isLeaf_iff, hdepth, hk]
    omega
  · rw [Cursor.stackDepth, Cursor.capacity]
    cases hstack : c.stack with
    | nil => exact Nat.zero_le _
    | cons f below =>
      obtain ⟨k, hk, -⟩ := hc.exists_height ht hstack
      rw [hk, List.length_cons]
      omega
  · exact Cursor.length_descend t []
  · rw [Cursor.stackDepth, Cursor.isExhausted, List.length_eq_zero_iff, List.isEmpty_iff]
  · obtain ⟨_, c', -, hadvance, -⟩ := hsettled.exists_advance hend
    exact ⟨c', hadvance⟩

/-- Keys in no order, all of which compare equal: of two frames the lower one points past the last
entry of the root. -/
theorem frames_trace_way_unordered :
    let n : Tree Nat Nat := .three .empty ⟨9, 90⟩ .empty ⟨2, 20⟩ .empty
    let t : Tree Nat Nat := .two (.leaf ⟨5, 50⟩) ⟨1, 10⟩ n
    let c : Cursor Nat Nat := ⟨[⟨n, 0⟩, ⟨t, 1⟩]⟩
    t.Balanced ∧ c.Reached t ∧ t.subtree? [1] = some n ∧ c.get? = some ⟨9, 90⟩ ∧
      c.stackDepth = 2 ∧ c.isExhausted = false := by
  intro n t c
  have ht : t.Balanced := ⟨2, by simp [t, n, Tree.leaf, Tree.hasHeight_empty]⟩
  have hseek : (Cursor.seek (.constant .eq) t 0).advance = .ok c := by cbv
  have hc : c.Reached t := .advance (.seek (.constant .eq) 0) hseek
  obtain ⟨hway, htop, -, -, hend, -⟩ := frames_trace_way ht hc
  obtain ⟨⟨e, he, hget⟩, hdepth, -⟩ := htop ⟨n, 0⟩ [⟨t, 1⟩] rfl
  obtain rfl : (⟨9, 90⟩ : Entry Nat Nat) = e := Option.some.inj he
  refine ⟨ht, hc, (hway ⟨n, 0⟩ [⟨t, 1⟩] (List.suffix_refl _)).1, hget, hdepth, ?_⟩
  exact Bool.eq_false_iff.mpr fun hexhausted =>
    absurd (hdepth.symm.trans (hend.mpr hexhausted)) (Nat.succ_ne_zero _)

end Multiway
