import Multiway.Iter
import Multiway.Proofs.Frame

/-!
# A walk meets every entry once

From the first entry on, a cursor meets the entries of the tree in order and none twice, whatever
the shape of the tree. It is past the end after the last one, and not before.

The frames below the top one may point past the last entry of their node, so what carries the proof
is not where they point but the entries ahead: `Cursor.ahead` loses its first entry at every step.

* `Cursor.Settled`: the frame on top names an entry;
* `Cursor.settled_settle`, `Cursor.settled_descend`: how a step settles;
* `Cursor.Settled.exists_advance`: one step from a settled cursor;
* `Cursor.advances`, **`Cursor.Settled.exists_advances`**: any number of steps;
* `Iter.answers`, **`Iter.answers_eq`**: what an iterator yields when it is asked again and again;
* `Iter.toList_eq`, **`Iter.agree_eq`**: all that an iterator yields, and whether two of them agree;
* **`walk_complete`**: the walk from the first entry on.
-/

namespace Multiway

variable {K V : Type}

namespace Cursor

variable {c : Cursor K V} {e : Entry K V} {rest : List (Entry K V)}

/-- The frame on top, if there is one, names an entry of its node. -/
def Settled (c : Cursor K V) : Prop := ∀ f ∈ c.stack.head?, f.slot < f.node.entries.length

theorem settled_settle (stack : List (Frame K V)) : Settled ⟨settle stack⟩ := by
  intro f hf
  have htop := List.head?_dropWhile_not
    (fun f : Frame K V => decide (f.node.entries.length ≤ f.slot)) stack
  rw [show stack.dropWhile _ = settle stack from rfl, show (settle stack).head? = some f from hf]
    at htop
  simpa using htop

theorem settled_descend (t : Tree K V) {stack : List (Frame K V)}
    (hstack : t.isEmpty = true → Settled ⟨stack⟩) : Settled ⟨descend t stack⟩ := by
  induction t generalizing stack with
  | empty => exact hstack rfl
  | two _ _ _ ih | three _ _ _ _ _ ih | four _ _ _ _ _ _ _ ih =>
    refine ih fun _ f hf => ?_
    cases hf
    exact Nat.zero_lt_succ _

theorem settled_start (t : Tree K V) : (start t).Settled :=
  settled_descend t fun _ _ hf => by cases hf

theorem ahead_of_isExhausted (hend : c.isExhausted = true) : c.ahead = [] := by
  obtain ⟨_ | ⟨f, below⟩⟩ := c
  · rfl
  · cases hend

theorem get?_of_isExhausted (hend : c.isExhausted = true) : c.get? = none := by
  obtain ⟨_ | ⟨f, below⟩⟩ := c
  · rfl
  · cases hend

theorem advance_of_isExhausted (hend : c.isExhausted = true) :
    c.advance = .error .exhaustedCursor := by
  obtain ⟨_ | ⟨f, below⟩⟩ := c
  · rfl
  · cases hend

theorem Settled.exists_advance (hc : c.Settled) (hend : c.isExhausted = false) :
    ∃ e c', c.get? = some e ∧ c.advance = .ok c' ∧ c'.Settled := by
  obtain ⟨_ | ⟨f, below⟩⟩ := c
  · cases hend
  · have hslot : f.slot < f.node.entries.length := hc f rfl
    obtain ⟨g, hgap⟩ := Tree.exists_gap hslot
    obtain ⟨-, hentry, hchild⟩ := Tree.gap?_eq_some.mp hgap
    let stack := ⟨f.node, f.slot + 1⟩ :: below
    refine ⟨g.middle, ⟨if g.right.isEmpty then settle stack else descend g.right stack⟩, hentry,
      by simp only [advance, hchild, stack], ?_⟩
    split
    · exact settled_settle _
    · next hempty => exact settled_descend _ fun h => absurd h hempty

theorem Settled.get?_eq_head? (hc : c.Settled) : c.get? = c.ahead.head? := by
  cases hend : c.isExhausted with
  | true => rw [get?_of_isExhausted hend, ahead_of_isExhausted hend, List.head?_nil]
  | false =>
    obtain ⟨e, c', he, hadvance, -⟩ := hc.exists_advance hend
    rw [he, ahead_advance he hadvance, List.head?_cons]

theorem Settled.isExhausted_eq (hc : c.Settled) : c.isExhausted = c.ahead.isEmpty := by
  cases hend : c.isExhausted with
  | true => rw [ahead_of_isExhausted hend, List.isEmpty_nil]
  | false =>
    obtain ⟨e, c', he, hadvance, -⟩ := hc.exists_advance hend
    rw [ahead_advance he hadvance, List.isEmpty_cons]

/-! ## Any number of steps -/

/-- The cursor after `n` advances. -/
def advances (c : Cursor K V) : (n : Nat) → Except Fault (Cursor K V)
  | 0 => .ok c
  | n + 1 => do (← c.advances n).advance

/-- **As many advances are possible as entries lie ahead.** -/
theorem Settled.exists_advances (hc : c.Settled) {n : Nat} (hn : n ≤ c.ahead.length) :
    ∃ c', c.advances n = .ok c' ∧ c'.Settled ∧ c'.ahead = c.ahead.drop n := by
  induction n with
  | zero => exact ⟨c, rfl, hc, rfl⟩
  | succ n ih =>
    obtain ⟨d, hd, hsettled, hahead⟩ := ih (Nat.le_of_succ_le hn)
    have hend : d.isExhausted = false := by
      rw [hsettled.isExhausted_eq, hahead, List.isEmpty_eq_false_iff, Ne, List.drop_eq_nil_iff]
      omega
    obtain ⟨e, c', he, hadvance, hc'⟩ := hsettled.exists_advance hend
    refine ⟨c', by rw [advances, hd]; exact hadvance, hc', ?_⟩
    rw [← List.tail_drop, ← hahead, ahead_advance he hadvance, List.tail_cons]

end Cursor

namespace Iter

/-- What an iterator answers when it is asked `n` times for the next entry. -/
def answers : (n : Nat) → Iter K V → Except Fault (List (Option (Entry K V)))
  | 0, _ => .ok []
  | n + 1, it => do
    match ← it.next? with
    | none => return none :: (← it.answers n)
    | some (e, it') => return some e :: (← it'.answers n)

theorem settled_start (t : Tree K V) : (start t).cursor.Settled := Cursor.settled_start t

theorem ahead_start (t : Tree K V) : (start t).ahead = t.toList := Cursor.ahead_start t

theorem next?_cases {it : Iter K V} (hit : it.cursor.Settled) :
    (it.next? = .ok none ∧ it.ahead = []) ∨
      ∃ e it', it.next? = .ok (some (e, it')) ∧ it.ahead = e :: it'.ahead ∧ it'.cursor.Settled := by
  cases hend : it.cursor.isExhausted with
  | true =>
    exact .inl ⟨by rw [next?, Cursor.get?_of_isExhausted hend], Cursor.ahead_of_isExhausted hend⟩
  | false =>
    obtain ⟨e, c', he, hadvance, hc'⟩ := hit.exists_advance hend
    have hnext : it.next? = .ok (some (e, ⟨c'⟩)) := by
      simp only [next?, he, hadvance, bind, Except.bind, pure, Except.pure]
    exact .inr ⟨e, ⟨c'⟩, hnext, ahead_next hnext, hc'⟩

/-- **An iterator yields the entries ahead, and then nothing**, however often it is asked. -/
theorem answers_eq {it : Iter K V} (hit : it.cursor.Settled) (n : Nat) :
    it.answers n = .ok ((List.range n).map (it.ahead[·]?)) := by
  induction n generalizing it with
  | zero => rfl
  | succ n ih =>
    rw [answers, List.range_succ_eq_map, List.map_cons, List.map_map]
    rcases next?_cases hit with ⟨hnext, hahead⟩ | ⟨e, it', hnext, hahead, hit'⟩
    · simp only [hnext, ih hit, hahead, bind, Except.bind, pure, Except.pure, List.getElem?_nil,
        Function.comp_def]
    · simp only [hnext, ih hit', hahead, bind, Except.bind, pure, Except.pure,
        List.getElem?_cons_zero, List.getElem?_cons_succ, Function.comp_def, Nat.succ_eq_add_one]

theorem toList_eq {it : Iter K V} (hit : it.cursor.Settled) : it.toList = .ok it.ahead := by
  generalize hes : it.ahead = es
  induction es generalizing it with
  | nil =>
    rcases next?_cases hit with ⟨hnext, -⟩ | ⟨e, it', -, hahead, -⟩
    · rw [toList, hnext]
    · cases hes.symm.trans hahead
  | cons e es ih =>
    rcases next?_cases hit with ⟨-, hahead⟩ | ⟨e', it', hnext, hahead, hit'⟩
    · cases hes.symm.trans hahead
    · obtain ⟨rfl, hrest⟩ := List.cons.inj (hes.symm.trans hahead)
      rw [toList, hnext]
      simp only [ih hit' hrest.symm]
      rfl

theorem agree_eq [BEq K] [BEq V] {it other : Iter K V} (hit : it.cursor.Settled)
    (hother : other.cursor.Settled) :
    it.agree other =
      .ok (it.ahead.isEqv other.ahead fun e e' => e.key == e'.key && e.value == e'.value) := by
  generalize hes : it.ahead = es
  induction es generalizing it other with
  | nil =>
    rcases next?_cases hit with ⟨hnext, -⟩ | ⟨e, it', -, hahead, -⟩
    · rw [agree, hnext]
      rcases next?_cases hother with ⟨hnext', hnil⟩ | ⟨e', other', hnext', hcons, -⟩
      · simp only [hnext', hnil]
        rfl
      · simp only [hnext', hcons]
        rfl
    · cases hes.symm.trans hahead
  | cons e es ih =>
    rcases next?_cases hit with ⟨-, hahead⟩ | ⟨e', it', hnext, hahead, hit'⟩
    · cases hes.symm.trans hahead
    · obtain ⟨rfl, hrest⟩ := List.cons.inj (hes.symm.trans hahead)
      rw [agree, hnext]
      rcases next?_cases hother with ⟨hnext', hnil⟩ | ⟨e', other', hnext', hcons, hother'⟩
      · simp only [hnext', hnil]
        rfl
      · simp only [hnext', hcons, bind, Except.bind, ih hit' hother' hrest.symm, List.isEqv]
        cases e.key == e'.key && e.value == e'.value <;> rfl

end Iter

/-- **A walk from the first entry on meets every entry once, in order**, and then fails. -/
theorem walk_complete (t : Tree K V) :
    t.size = t.toList.length ∧
      (∀ n : Fin t.toList.length, ∃ c, (Cursor.start t).advances n = .ok c ∧
        c.isExhausted = false ∧ c.get? = some t.toList[n]) ∧
      (∃ c, (Cursor.start t).advances t.toList.length = .ok c ∧ c.isExhausted = true ∧
        c.get? = none ∧ c.advance = .error .exhaustedCursor) ∧
      ∀ n, (Iter.start t).answers n = .ok ((List.range n).map (t.toList[·]?)) := by
  have hstart := Cursor.settled_start t
  have hahead := Cursor.ahead_start t
  refine ⟨t.length_toList.symm, fun n => ?_, ?_, fun n => ?_⟩
  · obtain ⟨c, hc, hsettled, hdrop⟩ := hstart.exists_advances (n := n) (by rw [hahead]; omega)
    have hcons : c.ahead = t.toList[n] :: t.toList.drop (n + 1) := by
      rw [hdrop, hahead]
      exact List.drop_eq_getElem_cons n.isLt
    refine ⟨c, hc, ?_, ?_⟩
    · rw [hsettled.isExhausted_eq, hcons, List.isEmpty_cons]
    · rw [hsettled.get?_eq_head?, hcons, List.head?_cons]
  · obtain ⟨c, hc, hsettled, hdrop⟩ :=
      hstart.exists_advances (n := t.toList.length) (Nat.le_of_eq (by rw [hahead]))
    have hend : c.isExhausted = true := by
      rw [hsettled.isExhausted_eq, hdrop, hahead, List.drop_length, List.isEmpty_nil]
    exact ⟨c, hc, hend, Cursor.get?_of_isExhausted hend, Cursor.advance_of_isExhausted hend⟩
  · rw [Iter.answers_eq (show (Iter.start t).cursor.Settled from hstart) n,
      show (Iter.start t).ahead = t.toList from hahead]

end Multiway
