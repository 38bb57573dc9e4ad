import Multiway.Proofs.Renaming
import Multiway.Proofs.Transform
import Multiway.Proofs.Workspace

/-!
# A transform is one pass over the list

A transform goes through a tree node by node. What it does can be told without nodes: it passes over
the list of the entries once, in order, and every call gets the state that the call before it has
left. The keys stay in their places, and so do the values if the transform gives them back.

* `Transform.pass`: the pass over a list; `Transform.recorded`: a transform that keeps its calls;
* **`Tree.pass_toList`**: the transform of a tree is the pass over its list;
* `Tree.transform_recorded`: its calls are the entries of the list;
* `Renaming.tree_transform`, `Tree.skeleton`: what a transform leaves as it is;
* `Workspace.exists_mapInPlace`: the transform of a transient;
* **`transform_one_pass`**: both transforms of any tree.
-/

namespace Multiway

variable {σ K V W K' V' : Type}

/-! ## The pass over a list -/

namespace Transform

/-- The entries transformed one after another, and the state after the last call. -/
def pass (f : Transform σ K V W) : List (Entry K V) → σ → List (Entry K W) × σ
  | [], s => ([], s)
  | e :: es, s =>
    let (e, s) := e.transform f s
    let (es, s) := pass f es s
    (e :: es, s)

/-- The transform that also keeps the entries of its calls, from the first call to the last. -/
def recorded (f : Transform σ K V W) : Transform (List (Entry K V) × σ) K V W := fun k v log =>
  let (w, s) := f k v log.2
  (w, log.1 ++ [⟨k, v⟩], s)

theorem pass_append (f : Transform σ K V W) (es es' : List (Entry K V)) (s : σ) :
    f.pass (es ++ es') s =
      ((f.pass es s).1 ++ (f.pass es' (f.pass es s).2).1, (f.pass es' (f.pass es s).2).2) := by
  induction es generalizing s with
  | nil => rfl
  | cons e es ih => simp only [List.cons_append, pass, ih]

end Transform

namespace Tree

theorem pass_toList (f : Transform σ K V W) (t : Tree K V) (s : σ) :
    f.pass t.toList s = ((t.transform f s).1.toList, (t.transform f s).2) := by
  induction t generalizing s with
  | empty => rfl
  | two _ _ _ ih₀ ih₁ =>
    simp only [toList, transform, Transform.pass_append, Transform.pass, ih₀, ih₁]
  | three _ _ _ _ _ ih₀ ih₁ ih₂ =>
    simp only [toList, transform, Transform.pass_append, Transform.pass, ih₀, ih₁, ih₂]
  | four _ _ _ _ _ _ _ ih₀ ih₁ ih₂ ih₃ =>
    simp only [toList, transform, Transform.pass_append, Transform.pass, ih₀, ih₁, ih₂, ih₃]

theorem transform_recorded (f : Transform σ K V W) (t : Tree K V) (calls : List (Entry K V))
    (s : σ) : t.transform f.recorded (calls, s) =
      ((t.transform f s).1, calls ++ t.toList, (t.transform f s).2) := by
  have hcall (e : Entry K V) (calls : List (Entry K V)) (s : σ) :
      e.transform f.recorded (calls, s) =
        ((e.transform f s).1, calls ++ [e], (e.transform f s).2) := rfl
  induction t generalizing calls s with
  | empty => simp [transform, toList]
  | two _ _ _ ih₀ ih₁ => simp [transform, toList, hcall, ih₀, ih₁]
  | three _ _ _ _ _ ih₀ ih₁ ih₂ => simp [transform, toList, hcall, ih₀, ih₁, ih₂]
  | four _ _ _ _ _ _ _ ih₀ ih₁ ih₂ ih₃ => simp [transform, toList, hcall, ih₀, ih₁, ih₂, ih₃]

end Tree

/-! ## What stays -/

namespace Renaming

/-- If the new entries under one renaming are the old ones under another, so are the trees. -/
theorem tree_transform {r : Renaming K W K' V'} {q : Renaming K V K' V'} {f : Transform σ K V W}
    (h : ∀ e s, r.entry (e.transform f s).1 = q.entry e) (t : Tree K V) (s : σ) :
    r.tree (t.transform f s).1 = q.tree t := by
  induction t generalizing s with
  | empty => rfl
  | two _ _ _ ih₀ ih₁ => simp only [Tree.transform, tree, h, ih₀, ih₁]
  | three _ _ _ _ _ ih₀ ih₁ ih₂ => simp only [Tree.transform, tree, h, ih₀, ih₁, ih₂]
  | four _ _ _ _ _ _ _ ih₀ ih₁ ih₂ ih₃ => simp only [Tree.transform, tree, h, ih₀, ih₁, ih₂, ih₃]

/-- Every key and every value as it is. -/
def same : Renaming K V K V := ⟨id, id⟩

theorem tree_same (t : Tree K V) : same.tree t = t := by
  induction t with
  | empty => rfl
  | two _ _ _ ih₀ ih₁ => simp only [tree, ih₀, ih₁]; rfl
  | three _ _ _ _ _ ih₀ ih₁ ih₂ => simp only [tree, ih₀, ih₁, ih₂]; rfl
  | four _ _ _ _ _ _ _ ih₀ ih₁ ih₂ ih₃ => simp only [tree, ih₀, ih₁, ih₂, ih₃]; rfl

/-- Every key as it is, and no values. -/
def keysOnly : Renaming K V K Unit := ⟨id, fun _ => ()⟩

end Renaming

namespace Tree

/-- The nodes of a tree with every key in its place. -/
def skeleton (t : Tree K V) : Tree K Unit := Renaming.keysOnly.tree t

theorem skeleton_transform (f : Transform σ K V W) (t : Tree K V) (s : σ) :
    (t.transform f s).1.skeleton = t.skeleton :=
  Renaming.tree_transform (fun _ _ => rfl) t s

theorem transform_eq_self {f : Transform σ K V V} (hf : ∀ k v s, (f k v s).1 = v) (t : Tree K V)
    (s : σ) : (t.transform f s).1 = t := by
  have hentry (e : Entry K V) (s : σ) :
      Renaming.same.entry (e.transform f s).1 = Renaming.same.entry e :=
    congrArg (Entry.mk e.key) (hf e.key e.value s)
  have htree := Renaming.tree_transform hentry t s
  rwa [Renaming.tree_same, Renaming.tree_same] at htree

end Tree

/-! ## The transform of a transient -/

namespace Workspace

variable {w : Workspace K V} {name : String} {t : Tree K V}

theorem treeAt_overwrite (w : Workspace K V) (p : Place) (f : Transform σ K V V) (s : σ) :
    { w with roots := w.roots.setIfInBounds p ((w.treeAt p).mapInPlace f s).1 }.treeAt p =
      ((w.treeAt p).mapInPlace f s).1 := by
  by_cases hp : p < w.roots.size
  · simp [treeAt, hp]
  · -- a place that holds no root shows the empty tree, which a transform leaves empty
    simp [treeAt, hp, Tree.mapInPlace]

theorem exists_mapInPlace (h : w.transient? name = some t) (f : Transform σ K V V) (s : σ) :
    ∃ w', w.step (.mapInPlace name f s) = (w', .ok .nothing) ∧
      w'.transient? name = some (t.mapInPlace f s).1 := by
  obtain ⟨p, hp, rfl⟩ := Option.map_eq_some_iff.mp h
  refine ⟨w.replaceTransient name p ((w.treeAt p).mapInPlace f s).1, by simp only [step, hp], ?_⟩
  rw [replaceTransient]
  split
  · rw [transient?, hp, Option.map_some, treeAt_overwrite]
  · exact transient?_putTransient w name _

end Workspace

/-! ## Both transforms -/

/-- **A transform is one pass over the entries, in order**, with new nodes or in the old ones. -/
theorem transform_one_pass (t : Tree K V) :
    (∀ {σ W : Type} (f : Transform σ K V W) (s : σ), ∃ u s',
      t.map f s = .ok (u, s') ∧ f.pass t.toList s = (u.toList, s') ∧ u.skeleton = t.skeleton ∧
        t.map f.recorded ([], s) = .ok (u, t.toList, s')) ∧
    (∀ {σ : Type} (f : Transform σ K V V) (s : σ), t.map f s = .ok (t.mapInPlace f s) ∧
      ∀ (w : Workspace K V) name, w.transient? name = some t →
        ∃ w', w.step (.mapInPlace name f s) = (w', .ok .nothing) ∧
          w'.transient? name = some (t.mapInPlace f s).1) ∧
    ∀ {σ : Type} (f : Transform σ K V V) (s : σ), (∀ k v s, (f k v s).1 = v) →
      ∃ s', t.map f s = .ok (t, s') ∧ t.mapInPlace f s = (t, s') := by
  refine ⟨fun f s => ?_, fun f s => ⟨?_, fun w name h => ?_⟩, fun f s hf => ?_⟩
  · refine ⟨_, _, t.map_eq_ok f s, t.pass_toList f s, t.skeleton_transform f s, ?_⟩
    rw [Tree.map_eq_ok, Tree.transform_recorded, List.nil_append]
  · rw [Tree.map_eq_ok, Tree.mapInPlace_eq]
  · exact Workspace.exists_mapInPlace h f s
  · have hself : t.transform f s = (t, (t.transform f s).2) :=
      Prod.ext (Tree.transform_eq_self hf t s) rfl
    exact ⟨_, (t.map_eq_ok f s).trans (congrArg _ hself), (t.mapInPlace_eq f s).trans hself⟩

/-- The number of the call is added to every value; the calls follow the list, not the keys. -/
theorem transform_one_pass_numbers :
    let t : Tree Int64 Nat := .three .empty ⟨5, 50⟩ (.leaf ⟨3, 30⟩) ⟨4, 40⟩ .empty
    let addNumber : Transform Nat Int64 Nat Nat := fun _ v n => (v + n, n + 1)
    let count : Transform Nat Int64 Nat Nat := fun _ v n => (v, n + 1)
    let w : Workspace Int64 Nat := Workspace.empty.putTransient "x" t
    (∃ u, t.map addNumber 1 = .ok (u, 4) ∧ u.toList = [⟨5, 51⟩, ⟨3, 32⟩, ⟨4, 43⟩] ∧
      t.map addNumber.recorded ([], 1) = .ok (u, [⟨5, 50⟩, ⟨3, 30⟩, ⟨4, 40⟩], 4)) ∧
    w.transient? "x" = some t ∧
    (∃ w', w.step (.mapInPlace "x" addNumber 1) = (w', .ok .nothing) ∧
      w'.transient? "x" = some (t.mapInPlace addNumber 1).1) ∧
    (∀ k v n, (count k v n).1 = v) ∧ ∃ n, t.map count 1 = .ok (t, n) := by
  intro t addNumber count w
  obtain ⟨hmap, hplace, hsame⟩ := transform_one_pass t
  obtain ⟨u, s', hu, hpass, -, hcalls⟩ := hmap addNumber 1
  have hlist : (u.toList, s') = ([⟨5, 51⟩, ⟨3, 32⟩, ⟨4, 43⟩], 4) := hpass.symm.trans (by rfl)
  obtain ⟨hentries, rfl⟩ := Prod.mk.inj hlist
  have hw : w.transient? "x" = some t := by decide
  have hcount : ∀ k v n, (count k v n).1 = v := fun _ _ _ => rfl
  obtain ⟨n, hn, -⟩ := hsame count 1 hcount
  exact ⟨⟨u, hu, hentries, hcalls⟩, hw, (hplace addNumber 1).2 w "x" hw, hcount, n, hn⟩

end Multiway
