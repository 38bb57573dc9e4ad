import Multiway.Proofs.Validate

/-!
# The defect that is reported

The check of a tree stops at the first thing that is wrong. Laid out in a row, its steps are a list:
the keys of the root, the emptiness of the root's children, all steps for the first child, all steps
for the second child and a comparison of the two heights, and so on.

What carries the proof is what is known when a step has its turn, because all steps before it have
passed. Its node hangs in the tree between the bounds that it was given, and if it compares two
heights, both children are equally tall all over. So a step that fails names something that is wrong
with the tree.

* `Tree.NodeBetween`, `Tree.NodeBetween.exists_toList`: the nodes of a level with the nearest keys
  above them, which are also the nearest keys in the list;
* `Defect.Holds`: what a defect says about a tree;
* `Check`, `Tree.checks`, **`Tree.check_eq_forM`**: the steps of the check, in a row;
* `Check.Fails`, `Check.defect`: what is wrong if a step fails, and how it is reported;
* `Tree.HasCheck`, **`Tree.HasCheck.run_cases`**: the steps that are due, and when they fail;
* `Tree.InTurn`, **`Tree.inTurn_checks`**: every step is due when it has its turn;
* `Tree.InTurn.exists_first_failure`, `Tree.InTurn.forM_eq_error`: the step that stops the check;
* **`validate_first_defect`**: the defect that is reported holds, and is the first one.
-/

namespace Multiway

variable {K V : Type} {cmp : Comparison K}

namespace Tree

variable {t n c : Tree K V} {lower upper : Option K} {level i : Nat}

/-! ## Nodes and the nearest keys above them -/

/-- The key of the root node to the left of child `i`. -/
def keyBefore? (t : Tree K V) : (i : Nat) → Option K
  | 0 => none
  | i + 1 => t.keys[i]?

/-- The key of the root node to the right of child `i`. -/
def keyBehind? (t : Tree K V) (i : Nat) : Option K := t.keys[i]?

/-- The subtree `n` is a node at this level, `lower` is the nearest key above that parts it from
what lies to its left, and `upper` the nearest that parts it from what lies to its right. A node
gives its child a key of its own where it has one on that side, and else what it was given. -/
inductive NodeBetween (t : Tree K V) : Nat → Option K → Option K → Tree K V → Prop
  | root (hempty : t.isEmpty = false) : NodeBetween t 0 none none t
  | child {n c : Tree K V} {lower upper : Option K} {level i : Nat}
      (hn : NodeBetween t level lower upper n) (hc : n.children[i]? = some c)
      (hempty : c.isEmpty = false) :
      NodeBetween t (level + 1) ((n.keyBefore? i).or lower) ((n.keyBehind? i).or upper) c

theorem NodeBetween.nodeAt (hn : t.NodeBetween level lower upper n) : t.NodeAt level n := by
  induction hn with
  | root hempty => exact .root hempty
  | child _ hc hempty ih => exact ih.concat (List.mem_of_getElem? hc) hempty

/-- **The nearest keys above a node are those next to it in the list.** -/
theorem NodeBetween.exists_toList (hn : t.NodeBetween level lower upper n) :
    ∃ before behind, t.toList = before ++ (n.toList ++ behind) ∧
      before.getLast?.map Entry.key = lower ∧ behind.head?.map Entry.key = upper := by
  induction hn with
  | root => exact ⟨[], [], by rw [List.nil_append, List.append_nil], rfl, rfl⟩
  | @child n c _ _ _ i _ hc _ ih =>
    obtain ⟨before, behind, hlist, rfl, rfl⟩ := ih
    refine ⟨before ++ n.listBefore i, n.listFrom i ++ behind, ?_, ?_, ?_⟩
    · rw [hlist, toList_of_child hc]
      simp only [List.append_assoc]
    · rw [List.getLast?_append, getLast?_listBefore hc]
      cases i <;> simp [keyBefore?, keys, Option.map_or]
    · rw [List.head?_append, head?_listFrom]
      simp [keyBehind?, keys, Option.map_or]

end Tree

/-- What a defect says about a tree. -/
def Defect.Holds (cmp : Comparison K) (t : Tree K V) : Defect → Prop
  | unorderedKeys level =>
    ∃ lower upper n, t.NodeBetween level lower upper n ∧ ¬Between cmp lower upper n.entries
  | mixedLeafChildren level =>
    ∃ n, t.NodeAt level n ∧
      (∃ c ∈ n.children, c.isEmpty = true) ∧ ∃ c ∈ n.children, c.isEmpty = false
  | unevenLeafDepth level expected found =>
    ∃ n first i c, t.NodeAt level n ∧ n.children[0]? = some first ∧ n.children[i + 1]? = some c ∧
      first.HasHeight expected ∧ c.HasHeight found ∧ expected ≠ found

/-! ## The steps of the check -/

/-- One step of the check of a tree. -/
inductive Check (K V : Type) where
  /-- The keys of a node increase, between the bounds. -/
  | keys (level : Nat) (lower upper : Option K) (node : Tree K V)
  /-- The children of a node are all empty or all nonempty. -/
  | leaf (level : Nat) (node : Tree K V)
  /-- A child of a node has the height of the node's first child. -/
  | height (level : Nat) (first child : Tree K V)

namespace Check

/-- The step as the library takes it. -/
def run (cmp : Comparison K) : Check K V → Except Defect Unit
  | keys level lower upper node => node.checkKeys cmp lower upper level
  | leaf level node => node.checkLeaf level
  | height level first child => Tree.checkHeight level first.depth child.depth

/-- What is wrong if the step fails. -/
def Fails (cmp : Comparison K) : Check K V → Prop
  | keys _ lower upper node => ¬Between cmp lower upper node.entries
  | leaf _ node => (∃ c ∈ node.children, c.isEmpty = true) ∧ ∃ c ∈ node.children, c.isEmpty = false
  | height _ first child => first.depth ≠ child.depth

/-- What is reported if the step fails. -/
def defect : Check K V → Defect
  | keys level .. => .unorderedKeys level
  | leaf level _ => .mixedLeafChildren level
  | height level first child => .unevenLeafDepth level first.depth child.depth

end Check

namespace Tree

variable {t n c : Tree K V} {lower upper : Option K} {level i : Nat}

/-- The steps of the check of a subtree, in their order: at every node the keys, then the emptiness
of the children, then for each child from left to right all steps below it and the comparison of its
height with that of the first child. The first child is compared with nothing. -/
def checks : (lower upper : Option K) → (level : Nat) → Tree K V → List (Check K V)
  | _, _, _, empty => []
  | lower, upper, level, two c₀ a c₁ =>
    .keys level lower upper (two c₀ a c₁) :: .leaf level (two c₀ a c₁) ::
      (c₀.checks lower (some a.key) (level + 1) ++
        (c₁.checks (some a.key) upper (level + 1) ++ [.height level c₀ c₁]))
  | lower, upper, level, three c₀ a c₁ b c₂ =>
    .keys level lower upper (three c₀ a c₁ b c₂) :: .leaf level (three c₀ a c₁ b c₂) ::
      (c₀.checks lower (some a.key) (level + 1) ++
        (c₁.checks (some a.key) (some b.key) (level + 1) ++ .height level c₀ c₁ ::
          (c₂.checks (some b.key) upper (level + 1) ++ [.height level c₀ c₂])))
  | lower, upper, level, four c₀ a c₁ b c₂ c c₃ =>
    .keys level lower upper (four c₀ a c₁ b c₂ c c₃) :: .leaf level (four c₀ a c₁ b c₂ c c₃) ::
      (c₀.checks lower (some a.key) (level + 1) ++
        (c₁.checks (some a.key) (some b.key) (level + 1) ++ .height level c₀ c₁ ::
          (c₂.checks (some b.key) (some c.key) (level + 1) ++ .height level c₀ c₂ ::
            (c₃.checks (some c.key) upper (level + 1) ++ [.height level c₀ c₃]))))

theorem check_eq_forM (cmp : Comparison K) (lower upper : Option K) (level : Nat) (t : Tree K V) :
    t.check cmp lower upper level =
      (do forM (t.checks lower upper level) (Check.run cmp); return t.depth) := by
  -- the bounds and the level change on the way down
  induction t generalizing lower upper level with
  | empty => rfl
  | two c₀ a c₁ ih₀ ih₁ =>
    simp only [check, checks, depth, ih₀, ih₁, Check.run, List.forM_cons, List.forM_append,
      List.forM_nil, bind_assoc, pure_bind]
  | three c₀ a c₁ b c₂ ih₀ ih₁ ih₂ =>
    simp only [check, checks, depth, ih₀, ih₁, ih₂, Check.run, List.forM_cons, List.forM_append,
      List.forM_nil, bind_assoc, pure_bind]
  | four c₀ a c₁ b c₂ c c₃ ih₀ ih₁ ih₂ ih₃ =>
    simp only [check, checks, depth, ih₀, ih₁, ih₂, ih₃, Check.run, List.forM_cons,
      List.forM_append, List.forM_nil, bind_assoc, pure_bind]

theorem hasHeight_of_forM [Std.TransCmp cmp]
    (h : forM (t.checks lower upper level) (Check.run cmp) = .ok ()) : t.HasHeight t.depth := by
  have hcheck : t.check cmp lower upper level = .ok t.depth := by
    rw [check_eq_forM, h]
    rfl
  exact (check_eq_ok_iff.mp hcheck).2

/-! ## One step -/

theorem pairwise_keys_iff [Std.TransCmp cmp] {e : Entry K V} {es : List (Entry K V)} :
    ((lower.toList ++ (e :: es).map Entry.key ++ upper.toList).Pairwise fun a b => cmp a b = .lt) ↔
      Between cmp lower upper (e :: es) := by
  induction es generalizing e lower with
  | nil =>
    rw [List.map_cons, List.map_nil, pairwise_cons_keys, pairwise_last_key, between_cons]
    simp [between_nil]
  | cons b es ih =>
    rw [List.map_cons, pairwise_cons_keys, ih]
    exact between_cons.symm

theorem ascending_iff_between [Std.TransCmp cmp] (hempty : n.isEmpty = false) :
    ascending cmp (lower.toList ++ n.keys ++ upper.toList) = true ↔
      Between cmp lower upper n.entries := by
  obtain ⟨e, es, hentries⟩ := List.exists_cons_of_length_pos (entries_length_pos hempty)
  rw [ascending_iff_pairwise, keys, hentries, pairwise_keys_iff]

theorem all_isEmpty_iff (hempty : n.isEmpty = false) :
    (n.children.all fun c => c.isEmpty == n.isLeaf) = true ↔
      ¬((∃ c ∈ n.children, c.isEmpty = true) ∧ ∃ c ∈ n.children, c.isEmpty = false) := by
  obtain ⟨first, hfirst, hleaf⟩ : ∃ c ∈ n.children, c.isEmpty = n.isLeaf := by
    cases n with
    | empty => cases hempty
    | _ => exact ⟨_, List.mem_cons_self, rfl⟩
  simp only [List.all_eq_true, beq_iff_eq]
  constructor
  · rintro hall ⟨⟨c, hc, htrue⟩, d, hd, hfalse⟩
    rw [hall c hc, ← hall d hd, hfalse] at htrue
    cases htrue
  · intro hmixed c hc
    cases hchild : c.isEmpty <;> cases hnode : n.isLeaf
    · rfl
    · exact absurd ⟨⟨first, hfirst, hleaf.trans hnode⟩, c, hc, hchild⟩ hmixed
    · exact absurd ⟨⟨c, hc, hchild⟩, first, hfirst, hleaf.trans hnode⟩ hmixed
    · rfl

/-- The steps of the check that are due: their node hangs in the tree between their bounds, and of
two children whose heights are compared each is equally tall all over. -/
inductive HasCheck (t : Tree K V) : Check K V → Prop
  | keys {n : Tree K V} {lower upper : Option K} {level : Nat}
      (hn : t.NodeBetween level lower upper n) : HasCheck t (.keys level lower upper n)
  | leaf {n : Tree K V} {lower upper : Option K} {level : Nat}
      (hn : t.NodeBetween level lower upper n) : HasCheck t (.leaf level n)
  | height {n first c : Tree K V} {lower upper : Option K} {level i : Nat}
      (hn : t.NodeBetween level lower upper n) (hfirst : n.children[0]? = some first)
      (hc : n.children[i + 1]? = some c) (hheight : first.HasHeight first.depth)
      (hheight' : c.HasHeight c.depth) : HasCheck t (.height level first c)

variable {x : Check K V}

theorem HasCheck.run_cases (cmp : Comparison K) [Std.TransCmp cmp] (hx : t.HasCheck x) :
    (x.Fails cmp ∧ x.run cmp = .error x.defect) ∨ (¬x.Fails cmp ∧ x.run cmp = .ok ()) := by
  cases hx with
  | keys hn =>
    rw [Check.Fails, Check.run, checkKeys, ← ascending_iff_between hn.nodeAt.isEmpty_eq]
    split
    · next h => exact .inr ⟨not_not.mpr h, rfl⟩
    · next h => exact .inl ⟨h, rfl⟩
  | leaf hn =>
    have hiff := all_isEmpty_iff hn.nodeAt.isEmpty_eq
    rw [Check.Fails, Check.run, checkLeaf]
    split
    · next h => exact .inr ⟨hiff.mp h, rfl⟩
    · next h => exact .inl ⟨not_not.mp (mt hiff.mpr h), rfl⟩
  | height =>
    rw [Check.Fails, Check.run, checkHeight]
    split
    · next h => exact .inr ⟨not_not.mpr h.symm, rfl⟩
    · next h => exact .inl ⟨Ne.symm h, rfl⟩

theorem HasCheck.holds (hx : t.HasCheck x) (hfails : x.Fails cmp) : x.defect.Holds cmp t := by
  cases hx with
  | keys hn => exact ⟨_, _, _, hn, hfails⟩
  | leaf hn => exact ⟨_, hn.nodeAt, hfails⟩
  | height hn hfirst hc hheight hheight' =>
    exact ⟨_, _, _, _, hn.nodeAt, hfirst, hc, hheight, hheight', hfails⟩

/-! ## One step after another -/

/-- Every step of a row is due when it has its turn, that is, when all steps before it have
passed. -/
def InTurn (cmp : Comparison K) (t : Tree K V) : List (Check K V) → Prop
  | [] => True
  | x :: xs => t.HasCheck x ∧ (x.run cmp = .ok () → InTurn cmp t xs)

variable {xs ys before behind : List (Check K V)}

theorem inTurn_append : t.InTurn cmp (xs ++ ys) ↔
    t.InTurn cmp xs ∧ (forM xs (Check.run cmp) = .ok () → t.InTurn cmp ys) := by
  induction xs with
  | nil => simp [InTurn, pure, Except.pure]
  | cons x xs ih =>
    simp only [List.cons_append, InTurn, ih, List.forM_cons, bind_eq_ok_iff]
    constructor
    · rintro ⟨hx, hrest⟩
      refine ⟨⟨hx, fun h => (hrest h).1⟩, ?_⟩
      rintro ⟨_, h, hxs⟩
      exact (hrest h).2 hxs
    · rintro ⟨⟨hx, hxs⟩, hys⟩
      exact ⟨hx, fun h => ⟨hxs h, fun hrest => hys ⟨(), h, hrest⟩⟩⟩

theorem inTurn_child [Std.TransCmp cmp] {first : Tree K V} {l u : Option K} {k : Nat}
    (hn : t.NodeBetween level lower upper n) (hfirst : n.children[0]? = some first)
    (hheight : first.HasHeight first.depth) (hc : n.children[i + 1]? = some c)
    (hchecks : t.InTurn cmp (c.checks l u k)) (hxs : t.InTurn cmp xs) :
    t.InTurn cmp (c.checks l u k ++ .height level first c :: xs) :=
  inTurn_append.mpr ⟨hchecks, fun hpass =>
    ⟨.height hn hfirst hc hheight (hasHeight_of_forM hpass), fun _ => hxs⟩⟩

/-- **The steps of the check are due in their order.** -/
theorem inTurn_checks [Std.TransCmp cmp] {s : Tree K V}
    (hs : s.isEmpty = false → t.NodeBetween level lower upper s) :
    t.InTurn cmp (s.checks lower upper level) := by
  -- an empty child has no place among the nodes, and no steps
  induction s generalizing lower upper level with
  | empty => trivial
  | two c₀ a c₁ ih₀ ih₁ =>
    have hn := hs rfl
    have h₀ := ih₀ (hn.child (i := 0) rfl)
    have h₁ := ih₁ (hn.child (i := 1) rfl)
    refine ⟨.keys hn, fun _ => ⟨.leaf hn, fun _ => inTurn_append.mpr ⟨h₀, fun hpass => ?_⟩⟩⟩
    have hheight := hasHeight_of_forM hpass
    exact inTurn_child (i := 0) hn rfl hheight rfl h₁ trivial
  | three c₀ a c₁ b c₂ ih₀ ih₁ ih₂ =>
    have hn := hs rfl
    have h₀ := ih₀ (hn.child (i := 0) rfl)
    have h₁ := ih₁ (hn.child (i := 1) rfl)
    have h₂ := ih₂ (hn.child (i := 2) rfl)
    refine ⟨.keys hn, fun _ => ⟨.leaf hn, fun _ => inTurn_append.mpr ⟨h₀, fun hpass => ?_⟩⟩⟩
    have hheight := hasHeight_of_forM hpass
    exact inTurn_child (i := 0) hn rfl hheight rfl h₁ <|
      inTurn_child (i := 1) hn rfl hheight rfl h₂ trivial
  | four c₀ a c₁ b c₂ c c₃ ih₀ ih₁ ih₂ ih₃ =>
    have hn := hs rfl
    have h₀ := ih₀ (hn.child (i := 0) rfl)
    have h₁ := ih₁ (hn.child (i := 1) rfl)
    have h₂ := ih₂ (hn.child (i := 2) rfl)
    have h₃ := ih₃ (hn.child (i := 3) rfl)
    refine ⟨.keys hn, fun _ => ⟨.leaf hn, fun _ => inTurn_append.mpr ⟨h₀, fun hpass => ?_⟩⟩⟩
    have hheight := hasHeight_of_forM hpass
    exact inTurn_child (i := 0) hn rfl hheight rfl h₁ <|
      inTurn_child (i := 1) hn rfl hheight rfl h₂ <|
        inTurn_child (i := 2) hn rfl hheight rfl h₃ trivial

theorem InTurn.exists_first_failure [Std.TransCmp cmp] {defect : Defect} (hxs : t.InTurn cmp xs)
    (hrun : forM xs (Check.run cmp) = .error defect) :
    ∃ before x behind, xs = before ++ x :: behind ∧ t.HasCheck x ∧ x.Fails cmp ∧
      x.defect = defect ∧ ∀ y ∈ before, ¬y.Fails cmp := by
  induction xs with
  | nil => cases hrun
  | cons x xs ih =>
    obtain ⟨hx, hrest⟩ := hxs
    rw [List.forM_cons] at hrun
    rcases hx.run_cases cmp with ⟨hfails, hx'⟩ | ⟨hpass, hx'⟩
    · rw [hx'] at hrun
      cases hrun
      exact ⟨[], x, xs, rfl, hx, hfails, rfl, fun _ hy => absurd hy List.not_mem_nil⟩
    · rw [hx'] at hrun
      obtain ⟨before, y, behind, rfl, hy, hfails, hdefect, hbefore⟩ := ih (hrest hx') hrun
      exact ⟨x :: before, y, behind, rfl, hy, hfails, hdefect,
        List.forall_mem_cons.mpr ⟨hpass, hbefore⟩⟩

theorem InTurn.forM_eq_error [Std.TransCmp cmp] (hxs : t.InTurn cmp (before ++ x :: behind))
    (hbefore : ∀ y ∈ before, ¬y.Fails cmp) (hfails : x.Fails cmp) :
    forM (before ++ x :: behind) (Check.run cmp) = .error x.defect := by
  induction before with
  | nil =>
    obtain ⟨hx, -⟩ := hxs
    rcases hx.run_cases cmp with ⟨-, hrun⟩ | ⟨hpass, -⟩
    · rw [List.nil_append, List.forM_cons, hrun]
      rfl
    · exact absurd hfails hpass
  | cons y before ih =>
    obtain ⟨hy, hrest⟩ := hxs
    obtain ⟨hpass, hbefore⟩ := List.forall_mem_cons.mp hbefore
    rcases hy.run_cases cmp with ⟨hfails', -⟩ | ⟨-, hrun⟩
    · exact absurd hfails' hpass
    · rw [List.cons_append, List.forM_cons, hrun]
      exact ih (hrest hrun) hbefore

/-! ## The whole tree -/

theorem validate_eq_error_iff {defect : Defect} :
    t.validate cmp = .error defect ↔
      forM (t.checks none none 0) (Check.run cmp) = .error defect := by
  rw [validate, check_eq_forM]
  cases forM (t.checks none none 0) (Check.run cmp) <;> simp [bind, Except.bind, pure, Except.pure]

end Tree

/-- **The defect that is reported is real, and the first one** on the way of the check. -/
theorem validate_first_defect (cmp : Comparison K) [Std.TransCmp cmp] (t : Tree K V)
    (defect : Defect) :
    (t.validate cmp = .error defect → defect.Holds cmp t) ∧
      (t.validate cmp = .error defect ↔ ∃ before check behind,
        t.checks none none 0 = before ++ check :: behind ∧ check.Fails cmp ∧
          check.defect = defect ∧ ∀ earlier ∈ before, ¬earlier.Fails cmp) ∧
      ∀ {level lower upper n}, t.NodeBetween level lower upper n →
        ∃ before behind, t.toList = before ++ (n.toList ++ behind) ∧
          before.getLast?.map Entry.key = lower ∧ behind.head?.map Entry.key = upper := by
  have hdue : t.InTurn cmp (t.checks none none 0) := Tree.inTurn_checks .root
  rw [Tree.validate_eq_error_iff]
  refine ⟨fun hrun => ?_, ⟨fun hrun => ?_, ?_⟩, Tree.NodeBetween.exists_toList⟩
  · obtain ⟨_, check, _, -, hcheck, hfails, rfl, -⟩ := hdue.exists_first_failure hrun
    exact hcheck.holds hfails
  · obtain ⟨before, check, behind, hsteps, -, hfails, hdefect, hbefore⟩ :=
      hdue.exists_first_failure hrun
    exact ⟨before, check, behind, hsteps, hfails, hdefect, hbefore⟩
  · rintro ⟨before, check, behind, hsteps, hfails, rfl, hbefore⟩
    rw [hsteps] at hdue ⊢
    exact hdue.forM_eq_error hbefore hfails

/-- Integers by magnitude, in two trees with two defects: the deeper one on the left comes first. -/
theorem validate_first_defect_byMagnitude :
    let deep : Tree Int64 Nat := .two (.leaf ⟨3, 30⟩) ⟨-4, 40⟩ (.leaf ⟨5, 50⟩)
    let left : Tree Int64 Nat := .two (.leaf ⟨1, 10⟩) ⟨-2, 20⟩ deep
    let right : Tree Int64 Nat := .three .empty ⟨9, 90⟩ .empty ⟨-7, 70⟩ .empty
    let uneven := Tree.two left ⟨6, 60⟩ right
    let crowded := Tree.two left ⟨-5, 60⟩ right
    Std.TransCmp Comparison.byMagnitude ∧
      uneven.validate Comparison.byMagnitude = .error (.unevenLeafDepth 1 1 2) ∧
      Defect.Holds Comparison.byMagnitude uneven (.unevenLeafDepth 1 1 2) ∧
      crowded.validate Comparison.byMagnitude = .error (.unorderedKeys 3) ∧
      Defect.Holds Comparison.byMagnitude crowded (.unorderedKeys 3) := by
  intro deep left right uneven crowded
  have : Std.TransCmp Comparison.byMagnitude := inferInstanceAs (Std.TransCmp (compareOn _))
  have huneven : uneven.validate Comparison.byMagnitude = .error (.unevenLeafDepth 1 1 2) := by
    decide
  have hcrowded : crowded.validate Comparison.byMagnitude = .error (.unorderedKeys 3) := by
    decide
  exact ⟨this, huneven, (validate_first_defect _ uneven _).1 huneven, hcrowded,
    (validate_first_defect _ crowded _).1 hcrowded⟩

end Multiway
