import Multiway.Proofs.History
import Multiway.Proofs.Validate
import Multiway.Proofs.Workspace

/-!
# Ledgers

What a name holds can be told from its own derivation: from the tree that it began with and the
revisions made on the way to it, whatever was done under other names in between. A ledger keeps the
derivations and no trees at all. It says too which versions have one root, by an identity that is
handed on with a version and new after most revisions.

* `Revision`, `Derivation`, `Derivation.replay`: a tree by the way it came about;
* `Edit.keepsRoot`, **`Edit.isNone_root_eq`**: the updates that leave the root as it is, and
  `Edit.keepsRoot_erase_of_balanced`: in a balanced tree only removals that remove nothing;
* `Holdings`: things under the names of trees and of transients;
* `Version`, `Ledger`, `Ledger.step`, `Ledger.run`: derivations and identities under names.
-/

namespace Multiway

variable {σ K V : Type}

/-! ## Derivations -/

/-- A change that leaves values of the same type. -/
inductive Revision (σ K V : Type) where
  | edit (update : Edit K V)
  | map (f : Transform σ K V V) (s : σ)
  | mapInPlace (f : Transform σ K V V) (s : σ)

/-- The change of a tree. -/
def Revision.change : Revision σ K V → Change K V V
  | edit update => .edit update
  | map f s => .map f s
  | mapInPlace f s => .mapInPlace f s

/-- How a tree came about. -/
structure Derivation (σ K V : Type) where
  origin : Tree K V
  revisions : List (Revision σ K V)

namespace Derivation

/-- The tree that comes of the revisions. -/
def replay (d : Derivation σ K V) : Except Fault (Tree K V) :=
  d.revisions.foldlM (fun t revision => revision.change.apply t) d.origin

/-- The derivation with one revision more. -/
def revise (d : Derivation σ K V) (revision : Revision σ K V) : Derivation σ K V :=
  { d with revisions := d.revisions ++ [revision] }

theorem replay_begin (t : Tree K V) : (⟨t, []⟩ : Derivation σ K V).replay = .ok t := rfl

theorem replay_revise {d : Derivation σ K V} {t : Tree K V} (h : d.replay = .ok t)
    (revision : Revision σ K V) : (d.revise revision).replay = revision.change.apply t := by
  rw [replay] at h
  rw [replay, revise, List.foldlM_append, h]
  exact bind_pure (revision.change.apply t)

end Derivation

/-! ## Updates that leave the root as it is -/

/-- Whether an update leaves the root of a tree as it is: the removal of a key that is not found, or
of any entry of the empty tree. In a tree that is not balanced a key may also be found below a node
that counts as a leaf, where no removal looks for it. -/
def Edit.keepsRoot (t : Tree K V) : Edit K V → Bool
  | insert .. => false
  | erase cmp key =>
    match locate cmp t.keys key with
    | .slot _ => false
    | .child _ => t.isLeaf || !t.contains cmp key
  | eraseFirst | eraseLast => t.isEmpty

theorem Tree.contains_of_locate_slot {cmp : Comparison K} {key : K} {t : Tree K V} {i : Nat}
    (hloc : locate cmp t.keys key = .slot i) : t.contains cmp key = true := by
  rw [contains, hloc]

/-- A removal from a leaf finds a key among the entries of the leaf or not at all. -/
theorem Tree.removeBelow_of_isLeaf {cmp : Comparison K} {key : K} {t : Tree K V}
    {removed : Option (Removal K V)} (hleaf : t.isLeaf = true)
    (h : t.removeBelow cmp key = .ok removed) :
    removed.isSome = true ↔ ∃ i, locate cmp t.keys key = .slot i := by
  rw [removeBelow] at h
  cases hloc : locate cmp t.keys key with
  | slot i =>
    simp only [hloc, hleaf, if_true] at h
    cases hr : t.removeAt i with
    | error fault => rw [hr] at h; cases h
    | ok r =>
      rw [hr] at h
      cases h
      exact ⟨fun _ => ⟨i, rfl⟩, fun _ => rfl⟩
  | child i =>
    simp only [hloc, hleaf, if_true] at h
    cases h
    constructor
    · exact fun hsome => absurd hsome Bool.false_ne_true
    · rintro ⟨j, hslot⟩
      cases hslot

theorem Edit.keepsRoot_erase {cmp : Comparison K} {key : K} {t : Tree K V}
    {removed : Option (Removal K V)} (h : t.erase cmp key = .ok removed) :
    (erase cmp key).keepsRoot t = (removed.isNone && !(t.contains cmp key && !t.isLeaf)) := by
  rw [Tree.erase] at h
  rw [keepsRoot]
  cases hcontains : t.contains cmp key with
  | false =>
    rw [hcontains] at h
    cases h
    cases hloc : locate cmp t.keys key with
    | slot i =>
      rw [Tree.contains_of_locate_slot hloc] at hcontains
      cases hcontains
    | child i => simp
  | true =>
    rw [hcontains, if_pos rfl] at h
    cases hleaf : t.isLeaf with
    | false => cases locate cmp t.keys key <;> simp
    | true =>
      have hsome := Tree.removeBelow_of_isLeaf hleaf h
      cases hloc : locate cmp t.keys key <;> cases removed <;> simp_all

theorem Tree.isEmpty_of_removeFirst {t : Tree K V} {r : Removal K V}
    (h : t.removeFirst = .ok (some r)) : t.isEmpty = false := by
  cases t with
  | empty => rw [removeFirst] at h; cases h
  | _ => rfl

theorem Tree.isEmpty_of_removeLast {t : Tree K V} {r : Removal K V}
    (h : t.removeLast = .ok (some r)) : t.isEmpty = false := by
  cases t with
  | empty => rw [removeLast] at h; cases h
  | _ => rfl

/-- **An update gives no new root just if it leaves the root as it is.** -/
theorem Edit.isNone_root_eq {edit : Edit K V} {t : Tree K V} {effect : Effect K V}
    (h : edit.apply t = .ok effect) : effect.root.isNone = edit.keepsRoot t := by
  cases edit with
  | insert cmp e =>
    obtain ⟨ins, -, h⟩ := bind_eq_ok_iff.mp h
    cases h
    rfl
  | erase cmp key =>
    obtain ⟨removed, hremoved, h⟩ := bind_eq_ok_iff.mp h
    rw [keepsRoot_erase hremoved]
    cases removed with
    | some r => cases h; rfl
    | none =>
      cases h
      cases t.contains cmp key && !t.isLeaf <;> rfl
  | eraseFirst =>
    obtain ⟨removed, hremoved, h⟩ := bind_eq_ok_iff.mp h
    rw [keepsRoot]
    cases removed with
    | some r => cases h; exact (Tree.isEmpty_of_removeFirst hremoved).symm
    | none =>
      cases h
      cases t.isEmpty <;> rfl
  | eraseLast =>
    obtain ⟨removed, hremoved, h⟩ := bind_eq_ok_iff.mp h
    rw [keepsRoot]
    cases removed with
    | some r => cases h; exact (Tree.isEmpty_of_removeLast hremoved).symm
    | none =>
      cases h
      cases t.isEmpty <;> rfl

theorem Edit.keepsRoot_erase_of_balanced {cmp : Comparison K} {key : K} {t : Tree K V}
    (ht : t.Balanced) : (erase cmp key).keepsRoot t = !t.contains cmp key := by
  obtain ⟨effect, hok, houtcome⟩ := (erase cmp key).exists_outcome ht
  rw [← isNone_root_eq hok]
  cases houtcome with
  | notFound hnone =>
    rw [Tree.contains_eq_isSome_find?, hnone]
    rfl
  | erased hfound _ =>
    rw [Tree.contains_eq_isSome_find?, Tree.find?_eq_some_iff.mpr ⟨_, _, hfound⟩]
    rfl

/-! ## Names of both kinds -/

/-- Things held under the names of trees and of transients. -/
structure Holdings (α : Type) where
  trees : Registers α
  transients : Registers α

namespace Holdings

variable {α : Type}

/-- No name holds anything. -/
def empty : Holdings α := ⟨.empty, .empty⟩

/-- What is held under a name. -/
def get? (s : Holdings α) : Holder → Option α
  | .tree name => s.trees.get? name
  | .transient name => s.transients.get? name

/-- The holdings with `a` under a name. -/
def set (s : Holdings α) (a : α) : Holder → Holdings α
  | .tree name => ⟨s.trees.set name a, s.transients⟩
  | .transient name => ⟨s.trees, s.transients.set name a⟩

/-- The holdings with nothing under a name. -/
def unset (s : Holdings α) : Holder → Holdings α
  | .tree name => ⟨s.trees.unset name, s.transients⟩
  | .transient name => ⟨s.trees, s.transients.unset name⟩

/-- Everything held, in no particular order. -/
def contents (s : Holdings α) : List α := s.trees.contents ++ s.transients.contents

/-- No name stands twice. -/
structure Distinct (s : Holdings α) : Prop where
  trees : s.trees.Distinct
  transients : s.transients.Distinct

variable {s : Holdings α} {holder other : Holder} {a : α}

theorem get?_empty (holder : Holder) : (empty : Holdings α).get? holder = none := by
  cases holder <;> rfl

@[simp]
theorem get?_set_self (s : Holdings α) (a : α) (holder : Holder) :
    (s.set a holder).get? holder = some a := by
  cases holder <;> exact (Registers.get?_set ..).trans (if_pos rfl)

@[simp]
theorem get?_set_of_ne (h : other ≠ holder) (s : Holdings α) (a : α) :
    (s.set a holder).get? other = s.get? other := by
  cases holder <;> cases other <;> first
    | rfl
    | exact (Registers.get?_set ..).trans (if_neg fun hname => h (by rw [hname]))

@[simp]
theorem get?_unset_self (s : Holdings α) (holder : Holder) :
    (s.unset holder).get? holder = none := by
  cases holder <;> exact (Registers.get?_unset ..).trans (if_pos rfl)

@[simp]
theorem get?_unset_of_ne (h : other ≠ holder) (s : Holdings α) :
    (s.unset holder).get? other = s.get? other := by
  cases holder <;> cases other <;> first
    | rfl
    | exact (Registers.get?_unset ..).trans (if_neg fun hname => h (by rw [hname]))

theorem of_get?_set {b : α} (h : (s.set a holder).get? other = some b) :
    other = holder ∧ b = a ∨ other ≠ holder ∧ s.get? other = some b := by
  by_cases hother : other = holder
  · rw [hother, get?_set_self] at h
    exact .inl ⟨hother, (Option.some.inj h).symm⟩
  · rw [get?_set_of_ne hother] at h
    exact .inr ⟨hother, h⟩

theorem of_get?_unset (h : (s.unset holder).get? other = some a) :
    other ≠ holder ∧ s.get? other = some a := by
  by_cases hother : other = holder
  · rw [hother, get?_unset_self] at h
    cases h
  · rw [get?_unset_of_ne hother] at h
    exact ⟨hother, h⟩

theorem distinct_empty : (empty : Holdings α).Distinct :=
  ⟨Registers.distinct_empty, Registers.distinct_empty⟩

theorem Distinct.set (h : s.Distinct) (a : α) (holder : Holder) : (s.set a holder).Distinct := by
  cases holder with
  | tree name => exact ⟨h.trees.set name a, h.transients⟩
  | transient name => exact ⟨h.trees, h.transients.set name a⟩

theorem Distinct.unset (h : s.Distinct) (holder : Holder) : (s.unset holder).Distinct := by
  cases holder with
  | tree name => exact ⟨h.trees.unset name, h.transients⟩
  | transient name => exact ⟨h.trees, h.transients.unset name⟩

theorem Distinct.mem_contents_iff (h : s.Distinct) :
    a ∈ s.contents ↔ ∃ holder, s.get? holder = some a := by
  rw [contents, List.mem_append, h.trees.mem_contents_iff, h.transients.mem_contents_iff]
  constructor
  · rintro (⟨name, hname⟩ | ⟨name, hname⟩)
    · exact ⟨.tree name, hname⟩
    · exact ⟨.transient name, hname⟩
  · rintro ⟨name | name, hname⟩
    · exact .inl ⟨name, hname⟩
    · exact .inr ⟨name, hname⟩

theorem Distinct.mem_contents_unset_iff (h : s.Distinct) :
    a ∈ (s.unset holder).contents ↔ ∃ other, other ≠ holder ∧ s.get? other = some a := by
  rw [(h.unset holder).mem_contents_iff]
  refine exists_congr fun other => ?_
  by_cases hother : other = holder
  · simp [hother]
  · simp [hother, get?_unset_of_ne hother]

theorem Distinct.count_contents [BEq α] [LawfulBEq α] (h : s.Distinct)
    (hholder : s.get? holder = some a) :
    s.contents.count a = (s.unset holder).contents.count a + 1 := by
  cases holder with
  | tree name =>
    simp only [contents, Holdings.unset, List.count_append, h.trees.count_contents hholder]
    omega
  | transient name =>
    simp only [contents, Holdings.unset, List.count_append, h.transients.count_contents hholder]
    omega

end Holdings

/-! ## Versions under names -/

/-- A version of a tree: how it came about, and which root it has. -/
structure Version (σ K V : Type) where
  identity : Nat
  derivation : Derivation σ K V

/-- The version after an update, unless the update fails. Its root is the one with the identity
`fresh` if the update does not leave the root as it is. -/
def Version.edit? (v : Version σ K V) (fresh : Nat) (edit : Edit K V) : Option (Version σ K V) :=
  let derivation := v.derivation.revise (.edit edit)
  match v.derivation.replay, derivation.replay with
  | .ok t, .ok _ => some ⟨if edit.keepsRoot t then v.identity else fresh, derivation⟩
  | _, _ => none

/-- The versions under all names. -/
structure Ledger (σ K V : Type) where
  /-- The first identity that has not been given out. -/
  fresh : Nat
  versions : Holdings (Version σ K V)

namespace Ledger

/-- The ledger in which no name has a version. -/
def empty : Ledger σ K V := ⟨0, .empty⟩

/-- The ledger with a version under a name. -/
def hold (l : Ledger σ K V) (v : Version σ K V) (holder : Holder) : Ledger σ K V :=
  ⟨max l.fresh (v.identity + 1), l.versions.set v holder⟩

/-- The ledger without the version under a name. -/
def drop (l : Ledger σ K V) (holder : Holder) : Ledger σ K V :=
  { l with versions := l.versions.unset holder }

/-- Whether another name has a version with this root. -/
def shares (l : Ledger σ K V) (holder : Holder) (identity : Nat) : Bool :=
  (l.versions.unset holder).contents.any (·.identity == identity)

/-- One step, told by derivations. A root is new if a tree is brought in, after an update that does
not leave the root as it is, after a transform into a new tree, and after a transform in place of a
root that another name has too. -/
def step (l : Ledger σ K V) : Action σ K V → Ledger σ K V
  | .store target t => l.hold ⟨l.fresh, ⟨t, []⟩⟩ (.tree target)
  | .copy source target =>
    match l.versions.get? (.tree source) with
    | none => l
    | some v => l.hold v (.tree target)
  | .edit source target edit =>
    match l.versions.get? (.tree source) with
    | none => l
    | some v =>
      match v.edit? l.fresh edit with
      | none => l
      | some v => l.hold v (.tree target)
  | .map source target f s =>
    match l.versions.get? (.tree source) with
    | none => l
    | some v => l.hold ⟨l.fresh, v.derivation.revise (.map f s)⟩ (.tree target)
  | .begin transient t => l.hold ⟨l.fresh, ⟨t, []⟩⟩ (.transient transient)
  | .borrow source transient =>
    match l.versions.get? (.tree source) with
    | none => l
    | some v => l.hold v (.transient transient)
  | .move source transient =>
    match l.versions.get? (.tree source) with
    | none => l
    | some v => (l.drop (.tree source)).hold v (.transient transient)
  | .update transient edit =>
    match l.versions.get? (.transient transient) with
    | none => l
    | some v =>
      match v.edit? l.fresh edit with
      | none => l.drop (.transient transient)
      | some v => l.hold v (.transient transient)
  | .mapInPlace transient f s =>
    match l.versions.get? (.transient transient) with
    | none => l
    | some v =>
      let identity := if l.shares (.transient transient) v.identity then l.fresh else v.identity
      l.hold ⟨identity, v.derivation.revise (.mapInPlace f s)⟩ (.transient transient)
  | .snapshot transient target =>
    match l.versions.get? (.transient transient) with
    | none => l
    | some v => l.hold v (.tree target)
  | .finish transient target =>
    match l.versions.get? (.transient transient) with
    | none => l
    | some v => (l.drop (.transient transient)).hold v (.tree target)

/-- The steps of a list one after another. -/
def run (l : Ledger σ K V) (actions : List (Action σ K V)) : Ledger σ K V := actions.foldl step l

end Ledger

end Multiway
