import Multiway.Proofs.Ledger

/-!
# Root identity is sound

A workspace shares roots between names and overwrites one now and then, a ledger keeps derivations
only. Run side by side they never part. So no name sees what is done under another, and one root
means one tree.

What the proof turns on is the transform in place. It is the only step that changes a root, and it
does so only if the root counts one holder. That the count finds every holder is kept along the run
(`Holdings.Distinct`), since a name that stood twice would hide a sharer.

* `Workspace.shareRoot`: whether two names hold one root;
* `Workspace.holders_eq_one_iff`: a root counts one holder just if no other name holds it;
* `Workspace.Follows`: the workspace holds what the ledger tells;
* `Workspace.Follows.hold`: what a step has to show, with `share`, `allocate`, `keep`, `overwrite`
  and `drop` as the ways to do so;
* **`Workspace.Follows.step`**, `Workspace.Follows.run`: one step, and any number;
* `Workspace.exists_mapInto`: a tree with values of another type comes in like any new tree;
* **`session_sound`**: what holds after any session.
-/

namespace Multiway

variable {σ K V : Type}

namespace Workspace

variable {w w' : Workspace K V} {holder other : Holder} {p : Place} {t : Tree K V}

/-- The places that the names hold. -/
def holdings (w : Workspace K V) : Holdings Place := ⟨w.trees, w.transients⟩

/-- The workspace with a place under a name. -/
def setPlace (w : Workspace K V) (p : Place) : Holder → Workspace K V
  | .tree name => w.setTree name p
  | .transient name => w.setTransient name p

/-- The workspace with a new root under a name. -/
def put (w : Workspace K V) (t : Tree K V) : Holder → Workspace K V
  | .tree name => w.putTree name t
  | .transient name => w.putTransient name t

/-- The workspace with nothing under a name. -/
def drop (w : Workspace K V) : Holder → Workspace K V
  | .tree name => { w with trees := w.trees.unset name }
  | .transient name => w.dropTransient name

theorem holdings_setPlace (w : Workspace K V) (p : Place) (holder : Holder) :
    (w.setPlace p holder).holdings = w.holdings.set p holder := by
  cases holder <;> rfl

theorem holdings_drop (w : Workspace K V) (holder : Holder) :
    (w.drop holder).holdings = w.holdings.unset holder := by
  cases holder <;> rfl

theorem put_eq (w : Workspace K V) (t : Tree K V) (holder : Holder) :
    w.put t holder = (w.allocate t).1.setPlace w.roots.size holder := by
  cases holder <;> rfl

theorem roots_setPlace (w : Workspace K V) (p : Place) (holder : Holder) :
    (w.setPlace p holder).roots = w.roots := by
  cases holder <;> rfl

theorem treeAt_setPlace (w : Workspace K V) (p q : Place) (holder : Holder) :
    (w.setPlace p holder).treeAt q = w.treeAt q := by
  rw [treeAt, roots_setPlace, treeAt]

theorem holder_tree?_eq (w : Workspace K V) (holder : Holder) :
    holder.tree? w = (w.holdings.get? holder).map w.treeAt := by
  cases holder <;> rfl

/-- Whether two names hold trees with one root. -/
def shareRoot (w : Workspace K V) (holder other : Holder) : Bool :=
  match w.holdings.get? holder, w.holdings.get? other with
  | some p, some q => w.sameRoot p q
  | _, _ => false

theorem treeAt_eq_of_sameRoot {q : Place} (h : w.sameRoot p q = true) :
    w.treeAt p = w.treeAt q := by
  rcases Bool.or_eq_true_iff.mp h with heq | hempty
  · rw [beq_iff_eq.mp heq]
  · obtain ⟨hp, hq⟩ := Bool.and_eq_true_iff.mp hempty
    rw [Tree.isEmpty_iff.mp hp, Tree.isEmpty_iff.mp hq]

theorem tree?_of_shareRoot (h : w.shareRoot holder other = true) :
    holder.tree? w = other.tree? w := by
  rw [holder_tree?_eq, holder_tree?_eq]
  rw [shareRoot] at h
  split at h
  · next p q hp hq =>
    rw [hp, hq, Option.map_some, Option.map_some, treeAt_eq_of_sameRoot h]
  · cases h

/-- **A root that no other name holds counts once.** -/
theorem holders_eq_one_iff (h : w.holdings.Distinct) (hholder : w.holdings.get? holder = some p) :
    w.holders p = 1 ↔ ∀ other, other ≠ holder → w.holdings.get? other ≠ some p := by
  have hcount : w.holders p = (w.holdings.unset holder).contents.count p + 1 := by
    rw [← h.count_contents hholder, Holdings.contents, List.count_append]
    rfl
  rw [hcount, Nat.add_eq_right, List.count_eq_zero, h.mem_contents_unset_iff]
  simp only [not_exists, not_and]

theorem treeAt_allocate_of_lt (hp : p < w.roots.size) (t : Tree K V) :
    (w.allocate t).1.treeAt p = w.treeAt p := by
  simp [allocate, treeAt, Array.getElem?_push, Nat.ne_of_lt hp]

end Workspace

theorem Ledger.shares_eq_false_iff {l : Ledger σ K V} (h : l.versions.Distinct) {holder : Holder}
    {identity : Nat} :
    l.shares holder identity = false ↔
      ∀ other v, other ≠ holder → l.versions.get? other = some v → v.identity ≠ identity := by
  simp only [shares, List.any_eq_false, h.mem_contents_unset_iff, beq_iff_eq]
  constructor
  · exact fun hnone other v hother hv => hnone v ⟨other, hother, hv⟩
  · rintro hnone v ⟨other, hother, hv⟩
    exact hnone other v hother hv

/-! ## The invariant -/

/-- The workspace holds what the ledger tells: under the same names, at the place with the number of
the identity, the tree that the derivation gives. -/
structure Workspace.Follows (w : Workspace K V) (l : Ledger σ K V) : Prop where
  size_eq : w.roots.size = l.fresh
  get?_eq : ∀ holder, w.holdings.get? holder = (l.versions.get? holder).map Version.identity
  identity_lt : ∀ holder v, l.versions.get? holder = some v → v.identity < l.fresh
  replay_eq : ∀ holder v, l.versions.get? holder = some v →
    v.derivation.replay = .ok (w.treeAt v.identity)
  distinct : w.holdings.Distinct
  distinct_versions : l.versions.Distinct

namespace Workspace.Follows

variable {w w' : Workspace K V} {l : Ledger σ K V} {holder : Holder} {v : Version σ K V}
  {d : Derivation σ K V} {t : Tree K V}

theorem empty : Follows (Workspace.empty : Workspace K V) (Ledger.empty : Ledger σ K V) where
  size_eq := rfl
  get?_eq holder := by cases holder <;> rfl
  identity_lt holder v hv := by cases (Holdings.get?_empty holder).symm.trans hv
  replay_eq holder v hv := by cases (Holdings.get?_empty holder).symm.trans hv
  distinct := Holdings.distinct_empty
  distinct_versions := Holdings.distinct_empty

theorem hold (h : Follows w l) (hsize : w'.roots.size = max l.fresh (v.identity + 1))
    (hself : w'.holdings.get? holder = some v.identity)
    (hothers : ∀ other, other ≠ holder → w'.holdings.get? other = w.holdings.get? other)
    (hdistinct : w'.holdings.Distinct)
    (hframe : ∀ other u, other ≠ holder → l.versions.get? other = some u →
      w'.treeAt u.identity = w.treeAt u.identity)
    (hreplay : v.derivation.replay = .ok (w'.treeAt v.identity)) :
    Follows w' (l.hold v holder) where
  size_eq := hsize
  get?_eq other := by
    by_cases hother : other = holder
    · rw [hother, hself, Ledger.hold, Holdings.get?_set_self, Option.map_some]
    · rw [hothers other hother, h.get?_eq, Ledger.hold, Holdings.get?_set_of_ne hother]
  identity_lt other u hu := by
    rcases Holdings.of_get?_set hu with ⟨-, rfl⟩ | ⟨-, hu⟩
    · exact Nat.lt_of_lt_of_le (Nat.lt_succ_self _) (Nat.le_max_right _ _)
    · exact Nat.lt_of_lt_of_le (h.identity_lt other u hu) (Nat.le_max_left _ _)
  replay_eq other u hu := by
    rcases Holdings.of_get?_set hu with ⟨-, rfl⟩ | ⟨hother, hu⟩
    · exact hreplay
    · rw [hframe other u hother hu]
      exact h.replay_eq other u hu
  distinct := hdistinct
  distinct_versions := h.distinct_versions.set v holder

theorem share (h : Follows w l) (hlt : v.identity < l.fresh)
    (hreplay : v.derivation.replay = .ok (w.treeAt v.identity)) (holder : Holder) :
    Follows (w.setPlace v.identity holder) (l.hold v holder) := by
  refine h.hold ?_ ?_ (fun other hother => ?_) ?_ (fun other u _ _ => w.treeAt_setPlace ..) ?_
  · rw [roots_setPlace, h.size_eq]
    omega
  · rw [holdings_setPlace, Holdings.get?_set_self]
  · rw [holdings_setPlace, Holdings.get?_set_of_ne hother]
  · rw [holdings_setPlace]
    exact h.distinct.set _ _
  · rw [treeAt_setPlace]
    exact hreplay

theorem allocate (h : Follows w l) (hreplay : d.replay = .ok t) (holder : Holder) :
    Follows (w.put t holder) (l.hold ⟨l.fresh, d⟩ holder) := by
  have hholdings : (w.put t holder).holdings = w.holdings.set w.roots.size holder := by
    cases holder <;> rfl
  refine h.hold ?_ ?_ (fun other hother => ?_) ?_ (fun other u _ hu => ?_) ?_
  · rw [put_eq, roots_setPlace, Workspace.allocate, Array.size_push, h.size_eq]
    exact (Nat.max_eq_right (Nat.le_succ _)).symm
  · rw [hholdings, Holdings.get?_set_self, h.size_eq]
  · rw [hholdings, Holdings.get?_set_of_ne hother]
  · rw [hholdings]
    exact h.distinct.set _ _
  · rw [put_eq, treeAt_setPlace, treeAt_allocate_of_lt (h.size_eq ▸ h.identity_lt other u hu)]
  · rw [put_eq, treeAt_setPlace, ← h.size_eq]
    exact hreplay.trans (congrArg _ (w.treeAt_allocate t).symm)

theorem keep (h : Follows w l) (hv : l.versions.get? holder = some v)
    (hreplay : d.replay = .ok (w.treeAt v.identity)) :
    Follows w (l.hold ⟨v.identity, d⟩ holder) := by
  have hlt := h.identity_lt holder v hv
  refine h.hold ?_ ?_ (fun _ _ => rfl) h.distinct (fun _ _ _ _ => rfl) hreplay
  · rw [h.size_eq]
    exact (Nat.max_eq_left hlt).symm
  · rw [h.get?_eq, hv, Option.map_some]

/-- **The root of a name is overwritten**, if no other name has it. -/
theorem overwrite (h : Follows w l) (hv : l.versions.get? holder = some v)
    (halone : l.shares holder v.identity = false) (hreplay : d.replay = .ok t) :
    Follows { w with roots := w.roots.setIfInBounds v.identity t }
      (l.hold ⟨v.identity, d⟩ holder) := by
  have hlt := h.identity_lt holder v hv
  have hothers := (Ledger.shares_eq_false_iff h.distinct_versions).mp halone
  refine h.hold ?_ ?_ (fun _ _ => rfl) h.distinct (fun other u hother hu => ?_) ?_
  · rw [Array.size_setIfInBounds, h.size_eq]
    exact (Nat.max_eq_left hlt).symm
  · exact (h.get?_eq holder).trans (by rw [hv, Option.map_some])
  · simp [treeAt, Ne.symm (hothers other u hother hu)]
  · simp [treeAt, hreplay, h.size_eq ▸ hlt]

theorem drop (h : Follows w l) (holder : Holder) : Follows (w.drop holder) (l.drop holder) where
  size_eq := by cases holder <;> exact h.size_eq
  get?_eq other := by
    rw [holdings_drop, Ledger.drop]
    by_cases hother : other = holder
    · rw [hother, Holdings.get?_unset_self, Holdings.get?_unset_self, Option.map_none]
    · rw [Holdings.get?_unset_of_ne hother, Holdings.get?_unset_of_ne hother, h.get?_eq]
  identity_lt other v hv := h.identity_lt other v (Holdings.of_get?_unset hv).2
  replay_eq other v hv := by
    have hroots : (w.drop holder).treeAt v.identity = w.treeAt v.identity := by
      cases holder <;> rfl
    rw [hroots]
    exact h.replay_eq other v (Holdings.of_get?_unset hv).2
  distinct := by
    rw [holdings_drop]
    exact h.distinct.unset holder
  distinct_versions := h.distinct_versions.unset holder

/-! ## One step -/

theorem get?_of_some (h : Follows w l) (hv : l.versions.get? holder = some v) :
    w.holdings.get? holder = some v.identity := by
  rw [h.get?_eq, hv, Option.map_some]

theorem edit?_eq_none (h : Follows w l) (hv : l.versions.get? holder = some v) {edit : Edit K V}
    {fault : Fault} (happly : edit.apply (w.treeAt v.identity) = .error fault) :
    v.edit? l.fresh edit = none := by
  have hreplay := h.replay_eq holder v hv
  have hrevise := Derivation.replay_revise hreplay (.edit edit)
  rw [Revision.change, Change.apply, happly] at hrevise
  simp only [Version.edit?, hreplay, hrevise, Functor.map, Except.map]

theorem edit?_eq_some (h : Follows w l) (hv : l.versions.get? holder = some v) {edit : Edit K V}
    {effect : Effect K V} (happly : edit.apply (w.treeAt v.identity) = .ok effect) :
    v.edit? l.fresh edit =
        some ⟨if effect.root.isNone then v.identity else l.fresh,
          v.derivation.revise (.edit edit)⟩ ∧
      (v.derivation.revise (.edit edit)).replay =
        .ok (effect.root.getD (w.treeAt v.identity)) := by
  have hreplay := h.replay_eq holder v hv
  have hrevise := Derivation.replay_revise hreplay (.edit edit)
  rw [Revision.change, Change.apply, happly] at hrevise
  refine ⟨?_, hrevise⟩
  simp only [Version.edit?, hreplay, hrevise, Functor.map, Except.map, Edit.isNone_root_eq happly]

theorem holders_eq_one_iff (h : Follows w l) (hv : l.versions.get? holder = some v) :
    w.holders v.identity = 1 ↔ l.shares holder v.identity = false := by
  rw [Workspace.holders_eq_one_iff h.distinct (h.get?_of_some hv),
    Ledger.shares_eq_false_iff h.distinct_versions]
  constructor
  · rintro hnone other u hother hu heq
    exact hnone other hother (by rw [h.get?_of_some hu, heq])
  · rintro hnone other hother hp
    rw [h.get?_eq, Option.map_eq_some_iff] at hp
    obtain ⟨u, hu, heq⟩ := hp
    exact hnone other u hother hu heq

/-- A step does nothing if the name that it begins with holds nothing. -/
theorem of_held (h : Follows w l) (holder : Holder) {refusal : Refusal}
    {F : Place → Workspace K V × Except Refusal (Answer K V)} {G : Version σ K V → Ledger σ K V}
    (hheld : ∀ v, l.versions.get? holder = some v → Follows (F v.identity).1 (G v)) :
    Follows
      (match w.holdings.get? holder with | none => (w, Except.error refusal) | some p => F p).1
      (match l.versions.get? holder with | none => l | some v => G v) := by
  rw [h.get?_eq]
  cases hv : l.versions.get? holder with
  | none => exact h
  | some v => exact hheld v hv

/-- **One step keeps what every name holds to its derivation.** -/
theorem step (h : Follows w l) (action : Action σ K V) :
    Follows (w.step action).1 (l.step action) := by
  cases action with
  | store target t => exact h.allocate (Derivation.replay_begin t) (.tree target)
  | begin transient t => exact h.allocate (Derivation.replay_begin t) (.transient transient)
  | copy source target =>
    exact h.of_held (.tree source) fun v hv =>
      h.share (h.identity_lt _ v hv) (h.replay_eq _ v hv) (.tree target)
  | borrow source transient =>
    exact h.of_held (.tree source) fun v hv =>
      h.share (h.identity_lt _ v hv) (h.replay_eq _ v hv) (.transient transient)
  | snapshot transient target =>
    exact h.of_held (.transient transient) fun v hv =>
      h.share (h.identity_lt _ v hv) (h.replay_eq _ v hv) (.tree target)
  | move source transient =>
    exact h.of_held (.tree source) fun v hv =>
      (h.drop (.tree source)).share (h.identity_lt _ v hv) (h.replay_eq _ v hv)
        (.transient transient)
  | finish transient target =>
    exact h.of_held (.transient transient) fun v hv =>
      (h.drop (.transient transient)).share (h.identity_lt _ v hv) (h.replay_eq _ v hv)
        (.tree target)
  | edit source target edit =>
    refine h.of_held (.tree source) fun v hv => ?_
    cases happly : edit.apply (w.treeAt v.identity) with
    | error fault =>
      rw [h.edit?_eq_none hv happly]
      exact h
    | ok effect =>
      obtain ⟨hedit, hreplay⟩ := h.edit?_eq_some hv happly
      rw [hedit]
      obtain ⟨_ | t, answer⟩ := effect
      · exact h.share (v := ⟨v.identity, v.derivation.revise (.edit edit)⟩)
          (h.identity_lt _ v hv) hreplay (.tree target)
      · exact h.allocate hreplay (.tree target)
  | update transient edit =>
    refine h.of_held (.transient transient) fun v hv => ?_
    cases happly : edit.apply (w.treeAt v.identity) with
    | error fault =>
      rw [h.edit?_eq_none hv happly]
      exact h.drop (.transient transient)
    | ok effect =>
      obtain ⟨hedit, hreplay⟩ := h.edit?_eq_some hv happly
      rw [hedit]
      obtain ⟨_ | t, answer⟩ := effect
      · exact h.keep hv hreplay
      · exact h.allocate hreplay (.transient transient)
  | map source target f s =>
    refine h.of_held (.tree source) fun v hv => ?_
    have hreplay := Derivation.replay_revise (h.replay_eq _ v hv) (.map f s)
    rw [Revision.change, Change.apply, Tree.map_eq_ok] at hreplay
    rw [Tree.map_eq_ok]
    exact h.allocate hreplay (.tree target)
  | mapInPlace transient f s =>
    refine h.of_held (.transient transient) fun v hv => ?_
    have hreplay := Derivation.replay_revise (h.replay_eq _ v hv) (.mapInPlace f s)
    rw [Revision.change, Change.apply] at hreplay
    have hone := h.holders_eq_one_iff hv
    cases hshares : l.shares (.transient transient) v.identity with
    | true =>
      have hmany : w.holders v.identity ≠ 1 := fun halone => by
        rw [hone.mp halone] at hshares
        cases hshares
      rw [replaceTransient, if_neg hmany]
      exact h.allocate hreplay (.transient transient)
    | false =>
      rw [replaceTransient, if_pos (hone.mpr hshares)]
      exact h.overwrite hv hshares hreplay

theorem run (h : Follows w l) (actions : List (Action σ K V)) :
    Follows (w.run actions) (l.run actions) := by
  induction actions generalizing w l with
  | nil => exact h
  | cons action later ih => exact ih (h.step action)

/-! ## What names show -/

theorem tree?_eq (h : Follows w l) (holder : Holder) :
    (holder.tree? w).map .ok = (l.versions.get? holder).map fun v => v.derivation.replay := by
  rw [holder_tree?_eq, h.get?_eq]
  cases hv : l.versions.get? holder with
  | none => rfl
  | some v => exact congrArg some (h.replay_eq holder v hv).symm

theorem isEmpty_treeAt_iff (h : Follows w l) (hv : l.versions.get? holder = some v) :
    (w.treeAt v.identity).isEmpty = true ↔ v.derivation.replay = .ok .empty := by
  rw [h.replay_eq holder v hv, Except.ok.injEq, Tree.isEmpty_iff]

theorem shareRoot_iff (h : Follows w l) (holder other : Holder) :
    w.shareRoot holder other = true ↔
      ∃ v u, l.versions.get? holder = some v ∧ l.versions.get? other = some u ∧
        (v.identity = u.identity ∨
          v.derivation.replay = .ok .empty ∧ u.derivation.replay = .ok .empty) := by
  rw [shareRoot, h.get?_eq, h.get?_eq]
  cases hv : l.versions.get? holder with
  | none => simp
  | some v =>
    cases hu : l.versions.get? other with
    | none => simp
    | some u =>
      simp [sameRoot, h.isEmpty_treeAt_iff hv, h.isEmpty_treeAt_iff hu]

end Workspace.Follows

/-! ## Any number of steps -/

/-- The names that a step puts something under or takes something from. -/
def Action.targets : Action σ K V → List Holder
  | .store target _ | .copy _ target | .edit _ target _ | .map _ target _ _
  | .snapshot _ target => [.tree target]
  | .begin transient _ | .borrow _ transient | .update transient _
  | .mapInPlace transient _ _ => [.transient transient]
  | .move source transient => [.tree source, .transient transient]
  | .finish transient target => [.transient transient, .tree target]

theorem Ledger.get?_step {action : Action σ K V} {holder : Holder} (h : holder ∉ action.targets)
    (l : Ledger σ K V) : (l.step action).versions.get? holder = l.versions.get? holder := by
  have hhold (l : Ledger σ K V) (v : Version σ K V) {other : Holder} (hother : holder ≠ other) :
      (l.hold v other).versions.get? holder = l.versions.get? holder :=
    Holdings.get?_set_of_ne hother ..
  have hdrop (l : Ledger σ K V) {other : Holder} (hother : holder ≠ other) :
      (l.drop other).versions.get? holder = l.versions.get? holder :=
    Holdings.get?_unset_of_ne hother ..
  cases action <;>
    simp only [Action.targets, List.mem_cons, List.not_mem_nil, or_false, not_or] at h <;>
    simp only [step] <;> (repeat' split) <;> simp [hhold, hdrop, h]

theorem Workspace.exists_mapInto {U : Type} {v : Workspace K U} {source : String} {t : Tree K U}
    (h : v.tree? source = some t) (w : Workspace K V) (target : String) (f : Transform σ K U V)
    (s : σ) : ∃ u s', t.map f s = .ok (u, s') ∧
      v.mapInto w source target f s = w.step (.store target u : Action σ K V) := by
  obtain ⟨p, hp, rfl⟩ := Option.map_eq_some_iff.mp h
  refine ⟨_, _, Tree.map_eq_ok f (v.treeAt p) s, ?_⟩
  simp only [mapInto, hp, Tree.map_eq_ok, step]

/-- **Root identity is sound, and no name sees the steps made under another.** Every name holds the
tree that comes of its own derivation. -/
theorem session_sound (session : List (Action σ K V)) :
    let w : Workspace K V := Workspace.empty.run session
    let l : Ledger σ K V := Ledger.empty.run session
    (∀ holder, (holder.tree? w).map .ok =
        (l.versions.get? holder).map fun v => v.derivation.replay) ∧
      (∀ (action : Action σ K V) holder, holder ∉ action.targets →
        holder.tree? (w.step action).1 = holder.tree? w) ∧
      (∀ holder other, w.shareRoot holder other = true ↔
        ∃ v u, l.versions.get? holder = some v ∧ l.versions.get? other = some u ∧
          (v.identity = u.identity ∨
            v.derivation.replay = .ok .empty ∧ u.derivation.replay = .ok .empty)) ∧
      (∀ holder other, w.shareRoot holder other = true → holder.tree? w = other.tree? w) ∧
      (∀ (cmp : Comparison K) (key : K) (t : Tree K V), t.Balanced →
        (Edit.erase cmp key).keepsRoot t = !t.contains cmp key) ∧
      ∀ {U : Type} (v : Workspace K U) (source target : String) (t : Tree K U)
        (f : Transform σ K U V) (s : σ), v.tree? source = some t →
          ∃ u s', t.map f s = .ok (u, s') ∧ v.mapInto w source target f s =
            (Workspace.empty.run (session ++ [.store target u]), .ok .nothing) := by
  intro w l
  have h : Workspace.Follows w l := Workspace.Follows.empty.run session
  refine ⟨h.tree?_eq, fun action holder hother => ?_, h.shareRoot_iff,
    fun holder other => Workspace.tree?_of_shareRoot,
    fun cmp key t => Edit.keepsRoot_erase_of_balanced, fun v source target t f s ht => ?_⟩
  · have hsame : ((holder.tree? (w.step action).1).map .ok : Option (Except Fault (Tree K V))) =
        (holder.tree? w).map .ok := by
      rw [(h.step action).tree?_eq, Ledger.get?_step hother, h.tree?_eq]
    exact Option.map_injective (fun _ _ => Except.ok.inj) hsame
  · obtain ⟨u, s', hmap, hinto⟩ := Workspace.exists_mapInto ht w target f s
    refine ⟨u, s', hmap, hinto.trans ?_⟩
    rw [Workspace.run, List.foldl_append]
    rfl

/-- A transient that shares its root with a snapshot is doubled, and then a tree comes in from
another workspace. -/
theorem session_sound_snapshots :
    let double : Action Unit Int64 Nat := .mapInPlace "x" (fun _ v _ => (2 * v, ())) ()
    let session : List (Action Unit Int64 Nat) :=
      [.begin "x" (.leaf ⟨5, 50⟩), .snapshot "x" "a", double, .snapshot "x" "b",
        .update "x" (.erase compare 7)]
    let w : Workspace Int64 Nat := Workspace.empty.run session
    let flags : Workspace Int64 Bool := Workspace.empty.putTree "flags" (.leaf ⟨7, true⟩)
    w.tree? "a" = some (.leaf ⟨5, 50⟩) ∧ w.tree? "b" = some (.leaf ⟨5, 100⟩) ∧
      w.shareRoot (.transient "x") (.tree "a") = false ∧
      w.shareRoot (.transient "x") (.tree "b") = true ∧ w.transient? "x" = w.tree? "b" ∧
      (w.step double).1.tree? "b" = w.tree? "b" ∧
      (Edit.erase compare 7).keepsRoot (.leaf ⟨5, 100⟩ : Tree Int64 Nat) = true ∧
      flags.mapInto w "flags" "c" (fun _ flag _ => (flag.toNat, ())) () =
        (Workspace.empty.run (session ++ [.store "c" (.leaf ⟨7, 1⟩)]), .ok .nothing) := by
  intro double session w flags
  obtain ⟨-, hframe, -, hsound, hkeeps, hinto⟩ := session_sound session
  have hfirst : w.tree? "a" = some (.leaf ⟨5, 50⟩) := by decide +kernel
  have hsecond : w.tree? "b" = some (.leaf ⟨5, 100⟩) := by decide +kernel
  have hnew : w.shareRoot (.transient "x") (.tree "a") = false := by decide +kernel
  have hkept : w.shareRoot (.transient "x") (.tree "b") = true := by decide +kernel
  have hmissing : (Tree.leaf ⟨5, 100⟩ : Tree Int64 Nat).contains compare 7 = false := by
    decide +kernel
  have hflags : flags.tree? "flags" = some (.leaf ⟨7, true⟩) := by decide +kernel
  obtain ⟨u, s', hmap, hrun⟩ :=
    hinto flags "flags" "c" _ (fun _ flag _ => (flag.toNat, ())) () hflags
  cases hmap
  exact ⟨hfirst, hsecond, hnew, hkept, hsound (.transient "x") (.tree "b") hkept,
    hframe double (.tree "b") (by simp [Action.targets, double]),
    (hkeeps compare 7 _ ⟨1, Tree.hasHeight_leaf _⟩).trans (by rw [hmissing]; rfl), hrun⟩

end Multiway
