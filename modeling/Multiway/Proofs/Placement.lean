import Multiway.Proofs.Insertion

/-!
# Insertion into any tree

A tree put together by hand may have leaves at different depths, a subtree beside an empty child,
and its keys in any order. Insertion still goes through, under any comparison. What carries this is
that a full node is split before it is entered; what becomes of the list is then decided at the last
node that is entered, and everything around it stays.

* `InsertStep`, `Tree.insertStep`: insertion at one node, up to the subtree that it enters next;
* `Tree.afterStep`, **`Tree.insertBelow_eq`**: insertion is one step after another;
* `Tree.Enters`, **`Tree.Enters.isFull_eq`**: the subtrees entered on the way, none of them full;
* `Placed`, `Placed.within`: an entry added somewhere in a list, or a value replaced;
* **`Tree.Inserts.placed`**: what each of the ways of an insertion does to the list;
* **`insert_placed`**: insertion into any tree.
-/

namespace Multiway

variable {K V : Type}

/-! ## Step by step -/

/-- What an insertion does at one node. -/
inductive InsertStep (K V : Type) where
  /-- It is at its end. -/
  | done (ins : Insertion K V)
  /-- It enters a subtree, and `finish` puts what comes of it back into the node. -/
  | enter (s : Tree K V) (finish : Insertion K V → Except Fault (Insertion K V))

namespace Tree

variable {cmp : Comparison K} {e : Entry K V} {t s : Tree K V} {ins : Insertion K V}
  {finish : Insertion K V → Except Fault (Insertion K V)}

/-- The insertion of `e` at the root node. -/
def insertStep (cmp : Comparison K) (t : Tree K V) (e : Entry K V) :
    Except Fault (InsertStep K V) :=
  if t.isEmpty then .ok (.done ⟨leaf e, none⟩)
  else
    match locate cmp t.keys e.key with
    | .slot i => .done <$> t.overwrite i e.value
    | .child i =>
      if t.isLeaf then .done <$> do
        let t ← t.insertEntry i e empty
        return ⟨t, none⟩
      else
        match t.children[i]? with
        | none => .error (.outOfRange i)
        | some c =>
          if c.isFull then
            match c.split with
            | .error fault => .error fault
            | .ok (l, m, r) =>
              match cmp e.key m.key with
              | .lt => .ok <| .enter l fun below => do
                let t ← t.writeChild i below.tree
                let t ← t.insertEntry i m r
                return ⟨t, below.previous⟩
              | .gt => .ok <| .enter r fun below => do
                let t ← t.writeChild i l
                let t ← t.insertEntry i m below.tree
                return ⟨t, below.previous⟩
              | .eq => .done <$> do
                let t ← t.writeChild i l
                let t ← t.insertEntry i ⟨m.key, e.value⟩ r
                return ⟨t, some m.value⟩
          else .ok <| .enter c fun below => do
            let t ← t.writeChild i below.tree
            return ⟨t, below.previous⟩

/-- What comes of an insertion after a step. -/
def afterStep (cmp : Comparison K) (e : Entry K V) : InsertStep K V → Except Fault (Insertion K V)
  | .done ins => .ok ins
  | .enter s finish => do finish (← s.insertBelow cmp e)

theorem done_bind_afterStep (x : Except Fault (Insertion K V)) :
    (InsertStep.done <$> x >>= afterStep cmp e) = x := by
  cases x <;> rfl

theorem done_ne_enter (x : Except Fault (Insertion K V)) :
    InsertStep.done <$> x ≠ .ok (.enter s finish) := by
  cases x <;> rintro ⟨⟩

theorem insertBelow_eq (cmp : Comparison K) (t : Tree K V) (e : Entry K V) :
    t.insertBelow cmp e = t.insertStep cmp e >>= afterStep cmp e := by
  fun_cases insertBelow cmp t e <;>
    simp only [insertStep, done_bind_afterStep, if_true, if_false, Bool.false_eq_true, *]
  all_goals rfl

theorem isFull_of_insertStep (hstep : t.insertStep cmp e = .ok (.enter s finish)) :
    s.isFull = false := by
  fun_cases insertStep cmp t e
  all_goals simp only [insertStep, if_true, if_false, Bool.false_eq_true, *] at hstep
  case case6 i hloc hleaf c hc hcfull l m r hsplit hm =>
    cases hstep
    exact (isFull_of_split hsplit).1
  case case7 i hloc hleaf c hc hcfull l m r hsplit hm =>
    cases hstep
    exact (isFull_of_split hsplit).2
  case case9 i hloc hleaf c hc hcfull =>
    cases hstep
    exact Bool.eq_false_iff.mpr hcfull
  -- the other branches end the insertion
  all_goals first | exact absurd hstep (done_ne_enter _) | cases hstep

/-- The insertion of `e` into a tree comes to the subtree `s` on its way down. -/
inductive Enters (cmp : Comparison K) (e : Entry K V) : Tree K V → Tree K V → Prop
  | root {t : Tree K V} : Enters cmp e t t
  | next {t c s : Tree K V} {finish : Insertion K V → Except Fault (Insertion K V)}
      (hstep : t.insertStep cmp e = .ok (.enter c finish)) (hbelow : Enters cmp e c s) :
      Enters cmp e t s

theorem Enters.isFull_eq (henters : Enters cmp e t s) (ht : t.isFull = false) :
    s.isFull = false := by
  induction henters with
  | root => exact ht
  | next hstep _ ih => exact ih (isFull_of_insertStep hstep)

end Tree

/-! ## What becomes of the list -/

/-- What the insertion of `e` may do to a list: the entry is added at some place, or it replaces the
value of an entry whose key compares equal. -/
inductive Placed (cmp : Comparison K) (e : Entry K V) :
    List (Entry K V) → Option V → List (Entry K V) → Prop
  | added {before behind : List (Entry K V)} :
      Placed cmp e (before ++ behind) none (before ++ e :: behind)
  | replaced {before behind : List (Entry K V)} {a : Entry K V}
      (heq : cmp a.key e.key = .eq ∨ cmp e.key a.key = .eq) :
      Placed cmp e (before ++ a :: behind) (some a.value) (before ++ ⟨a.key, e.value⟩ :: behind)

section

variable {cmp : Comparison K} {e : Entry K V} {xs ys : List (Entry K V)} {previous : Option V}

theorem Placed.within (h : Placed cmp e xs previous ys) (front back : List (Entry K V)) :
    Placed cmp e (front ++ (xs ++ back)) previous (front ++ (ys ++ back)) := by
  cases h with
  | @added before behind =>
    have h : Placed cmp e (front ++ before ++ (behind ++ back)) none _ := .added
    simpa only [List.append_assoc, List.cons_append] using h
  | @replaced before behind a heq =>
    have h : Placed cmp e (front ++ before ++ a :: (behind ++ back)) _ _ := .replaced heq
    simpa only [List.append_assoc, List.cons_append] using h

end

namespace Tree

variable {cmp : Comparison K} {e : Entry K V} {t : Tree K V} {ins : Insertion K V}

theorem Inserts.placed (hins : Inserts cmp e t ins) :
    Placed cmp e t.toList ins.previous ins.tree.toList := by
  induction hins with
  | bottom => exact @Placed.added _ _ cmp e [] []
  | @overwrite t i a hloc ha =>
    obtain ⟨l, r, hgap⟩ := exists_gap_around ha
    rw [toList_of_gap hgap, toList_setEntry hgap, ← List.append_assoc, ← List.append_assoc]
    exact .replaced (.inl (answer_of_slot hloc ha))
  | @atLeaf t t' i hloc _ hinsert =>
    -- a subtree may hang at the place of the entry; it stays to the left of it
    have hempty : t.isEmpty = false := by
      cases t <;> first | rfl | cases hinsert
    obtain ⟨c, hc⟩ := exists_child hempty (locate_child_le hloc)
    rw [toList_of_child hc, toList_insertEntry hc hinsert, ← List.append_assoc,
      ← List.append_assoc]
    exact .added
  | descend _ _ hc _ ih =>
    rw [toList_of_child hc, toList_setChild hc]
    exact ih.within ..
  | @splitLeft t t' c l r i m ins _ _ hc hsplit _ _ hinsert ih =>
    rw [toList_of_child hc, toList_insertEntry_setChild hc hinsert, toList_of_split hsplit]
    exact (ih.within [] (m :: r.toList)).within ..
  | @splitRight t t' c l r i m ins _ _ hc hsplit _ _ hinsert ih =>
    rw [toList_of_child hc, toList_insertEntry_setChild hc hinsert, toList_of_split hsplit]
    have h := (ih.within (l.toList ++ [m]) []).within (t.listBefore i) (t.listFrom i)
    simpa only [List.append_assoc, List.append_nil, List.cons_append, List.nil_append] using h
  | splitMiddle _ _ hc hsplit hm hinsert =>
    -- the entry that moves up is compared the other way round than the keys of a node
    rw [toList_of_child hc, toList_insertEntry_setChild hc hinsert, toList_of_split hsplit]
    exact (Placed.replaced (.inr hm)).within ..

end Tree

/-- **Insertion goes through in every tree and loses nothing**, without entering a full node. -/
theorem insert_placed (cmp : Comparison K) (t : Tree K V) (e : Entry K V) :
    ∃ ins, t.insert cmp e = .ok ins ∧
      t.insert cmp e = t.splitRoot.insertBelow cmp e ∧
      (∀ s : Tree K V, s.insertBelow cmp e = s.insertStep cmp e >>= Tree.afterStep cmp e) ∧
      (∀ s, t.splitRoot.Enters cmp e s → s.isFull = false) ∧
      Placed cmp e t.toList ins.previous ins.tree.toList := by
  obtain ⟨ins, hok, hins⟩ := Tree.exists_insert cmp t e
  refine ⟨ins, hok, t.insert_eq cmp e, fun s => s.insertBelow_eq cmp e,
    fun s henters => henters.isFull_eq t.isFull_splitRoot, ?_⟩
  rw [← t.toList_splitRoot]
  exact hins.placed

/-- A node that counts as a leaf with a subtree in it: the entry comes to lie behind the subtree. -/
theorem insert_placed_mixed :
    let full : Tree Int64 Nat :=
      .four .empty ⟨1, 10⟩ (.leaf ⟨2, 20⟩) ⟨4, 40⟩ .empty ⟨6, 60⟩ .empty
    let half : Tree Int64 Nat := .two .empty ⟨1, 10⟩ (.leaf ⟨2, 20⟩)
    let half' : Tree Int64 Nat := .three .empty ⟨1, 10⟩ (.leaf ⟨2, 20⟩) ⟨3, 30⟩ .empty
    let t : Tree Int64 Nat := .two full ⟨9, 90⟩ .empty
    let t' : Tree Int64 Nat := .three half' ⟨4, 40⟩ (.leaf ⟨6, 60⟩) ⟨9, 90⟩ .empty
    t.insert compare ⟨3, 30⟩ = .ok ⟨t', none⟩ ∧
      t.splitRoot.Enters compare ⟨3, 30⟩ half ∧ half.isLeaf = true ∧ half.isFull = false ∧
      Placed compare ⟨3, 30⟩ t.toList none t'.toList := by
  intro full half half' t t'
  have hrun : t.insert compare ⟨3, 30⟩ = .ok ⟨t', none⟩ := by cbv
  have hhalf : t.splitRoot.Enters compare ⟨3, 30⟩ half := .next (by cbv) .root
  obtain ⟨ins, hok, -, -, hfull, hplaced⟩ := insert_placed compare t ⟨3, 30⟩
  obtain rfl : ins = ⟨t', none⟩ := Except.ok.inj (hok.symm.trans hrun)
  exact ⟨hrun, hhalf, rfl, hfull half hhalf, hplaced⟩

end Multiway
