import Multiway.Proofs.Opaque
import Multiway.Proofs.Pass
import Multiway.Proofs.Scan

/-!
# Three lookups come to one entry

The search for a key, the search from a key on and the cursor at a key go down in different ways:
one falls back on its way up, one keeps frames and drops them, one just stops. They come to the same
place all the same, whatever the comparison answers, and in a tree of any shape.

A tree may hold the same entry more than once, so equal answers say little. But no lookup looks at
the values. So the tree is searched with the number of every entry beside its value, and the number
tells which of the entries was found.

* `Tree.numbered`, `Tree.toList_numbered`: the tree with its entries numbered;
* `Tree.Cuts.get?_seek`, `Tree.Cuts.head?_of_find?`: the lookups, told by the cut;
* **`lookups_agree`**: the place that they come to.
-/

namespace Multiway

variable {K V : Type}

/-- The entry with a number beside its value. -/
def Entry.number (e : Entry K V) (n : Nat) : Entry K (Nat × V) := ⟨e.key, n, e.value⟩

namespace Tree

variable {cmp : Comparison K} {key : K} {t : Tree K V} {e : Entry K V}
  {before behind : List (Entry K V)}

/-! ## Numbers -/

/-- The tree with the number of every entry beside its value, in order from zero on. -/
def numbered (t : Tree K V) : Tree K (Nat × V) :=
  (t.transform (fun _ v n => ((n, v), n + 1)) 0).1

theorem pass_number (es : List (Entry K V)) (n : Nat) :
    (Transform.pass (fun _ v n => ((n, v), n + 1)) es n).1 =
      (es.zipIdx n).map fun p => p.1.number p.2 := by
  induction es generalizing n with
  | nil => rfl
  | cons e es ih =>
    rw [List.zipIdx_cons, List.map_cons, ← ih]
    rfl

theorem toList_numbered (t : Tree K V) :
    t.numbered.toList = t.toList.zipIdx.map fun p => p.1.number p.2 := by
  rw [← pass_number, pass_toList, numbered]

theorem getElem?_toList_numbered (t : Tree K V) (n : Nat) :
    t.numbered.toList[n]? = t.toList[n]?.map (·.number n) := by
  rw [toList_numbered, List.getElem?_map, List.getElem?_zipIdx, Option.map_map, Nat.zero_add]
  rfl

/-! ## The lookups at the cut -/

theorem Cuts.getElem?_toList (hcut : Cuts cmp key t before behind) :
    t.toList[before.length]? = behind.head? := by
  rw [hcut.toList_eq, List.getElem?_append_right (Nat.le_refl _), Nat.sub_self,
    List.head?_eq_getElem?]

theorem Cuts.get?_seek (hcut : Cuts cmp key t before behind) :
    (Cursor.seek cmp t key).get? = behind.head? := by
  obtain ⟨hsettled, hahead⟩ := hcut.settled_seek
  rw [hsettled.get?_eq_head?, hahead]

/-- If the search for the key finds an entry, it is the first one behind the cut. -/
theorem Cuts.head?_of_find? (hcut : Cuts cmp key t before behind)
    (hfind : t.find? cmp key = some e) : behind.head? = some e := by
  induction hcut with
  | atBottom hempty =>
    rw [isEmpty_iff.mp hempty, find?] at hfind
    cases hfind
  | atSlot hloc hgap =>
    rw [find?, hloc] at hfind
    exact (gap?_eq_some.mp hgap).2.1.symm.trans hfind
  | inChild hloc hc _ ih =>
    rw [find?_of_child hloc hc] at hfind
    rw [List.head?_append, ih hfind, Option.some_or]

end Tree

/-! ## One place -/

namespace Renaming

variable {cmp : Comparison K} {key : K}

/-- The numbers forgotten. -/
def unnumbered : Renaming K (Nat × V) K V := ⟨id, Prod.snd⟩

theorem tree_numbered (t : Tree K V) : unnumbered.tree t.numbered = t := by
  rw [Tree.numbered, tree_transform (q := same) fun _ _ => rfl, tree_same]

theorem map_entry_number (answer : Option (Entry K V)) (n : Nat) :
    (answer.map (·.number n)).map unnumbered.entry = answer := by
  rw [Option.map_map]
  exact Option.map_id'

theorem unnumbered_respects (cmp : Comparison K) :
    (unnumbered : Renaming K (Nat × V) K V).Respects cmp cmp := fun _ _ => rfl

theorem find?_eq_numbered (t : Tree K V) :
    t.find? cmp key = (t.numbered.find? cmp key).map unnumbered.entry := by
  have h := find?_tree (unnumbered_respects cmp) t.numbered key
  rwa [tree_numbered] at h

theorem findGE?_eq_numbered (t : Tree K V) :
    t.findGE? cmp key = (t.numbered.findGE? cmp key).map unnumbered.entry := by
  have h := findGE?_tree (unnumbered_respects cmp) t.numbered key
  rwa [tree_numbered] at h

theorem seek_eq_numbered (t : Tree K V) :
    Cursor.seek cmp t key = unnumbered.cursor (Cursor.seek cmp t.numbered key) := by
  have h := seek_tree (unnumbered_respects cmp) t.numbered key
  rwa [tree_numbered] at h

end Renaming

/-- **Three lookups come to one place**, whatever the tree and the comparison. -/
theorem lookups_agree (cmp : Comparison K) (t : Tree K V) (key : K) :
    ∃ n ≤ t.size,
      (Cursor.start t).advances n = .ok (Cursor.seek cmp t key) ∧
      ((Cursor.seek cmp t key).get? = t.toList[n]? ∧
        (Cursor.seek cmp t.numbered key).get? = t.toList[n]?.map (·.number n)) ∧
      (t.findGE? cmp key = t.toList[n]? ∧
        t.numbered.findGE? cmp key = t.toList[n]?.map (·.number n)) ∧
      ∀ e, t.find? cmp key = some e →
        t.toList[n]? = some e ∧ t.numbered.find? cmp key = some (e.number n) := by
  obtain ⟨before, behind, hcut⟩ := t.numbered.exists_cuts cmp key
  have hplace := hcut.getElem?_toList
  rw [Tree.getElem?_toList_numbered] at hplace
  have hcursor := hcut.get?_seek.trans hplace.symm
  have hceiling := hcut.findGE?_eq.trans hplace.symm
  refine ⟨before.length, ?_, ?_, ⟨?_, hcursor⟩, ⟨?_, hceiling⟩, fun e hfind => ?_⟩
  · have hlength := congrArg List.length hcut.toList_eq
    rw [Tree.toList_numbered, List.length_map, List.length_zipIdx, t.length_toList,
      List.length_append] at hlength
    exact hlength ▸ Nat.le_add_right _ _
  · have hwalk := Renaming.unnumbered.advances_cursor (Cursor.start t.numbered) before.length
    rw [← Renaming.start_tree, Renaming.tree_numbered, hcut.advances_start] at hwalk
    rw [hwalk, Renaming.seek_eq_numbered t]
    rfl
  · rw [Renaming.seek_eq_numbered t, Renaming.get?_cursor, hcursor, Renaming.map_entry_number]
  · rw [Renaming.findGE?_eq_numbered t, hceiling, Renaming.map_entry_number]
  · rw [Renaming.find?_eq_numbered t, Option.map_eq_some_iff] at hfind
    obtain ⟨found, hfound, rfl⟩ := hfind
    have hnumber := hplace.trans (hcut.head?_of_find? hfound)
    obtain ⟨e, he, rfl⟩ := Option.map_eq_some_iff.mp hnumber
    exact ⟨he, hfound⟩

/-- A tree that holds one entry three times: the lookups stop in the root, at the second of them. -/
theorem lookups_agree_repeated :
    let t : Tree Int64 Nat := .two (.leaf ⟨7, 70⟩) ⟨7, 70⟩ (.leaf ⟨7, 70⟩)
    let cmp : Comparison Int64 := .constant .eq
    ∃ n ≤ t.size, t.find? cmp 5 = some ⟨7, 70⟩ ∧ t.toList[n]? = some ⟨7, 70⟩ ∧
      t.numbered.find? cmp 5 = some ⟨7, n, 70⟩ ∧ n = 1 := by
  intro t cmp
  obtain ⟨n, hn, -, -, -, hfound⟩ := lookups_agree cmp t 5
  have hfind : t.find? cmp 5 = some ⟨7, 70⟩ := by cbv
  obtain ⟨he, hnumber⟩ := hfound _ hfind
  have hfirst : t.numbered.find? cmp 5 = some ⟨7, 1, 70⟩ := by cbv
  have hone := Option.some.inj (hnumber.symm.trans hfirst)
  exact ⟨n, hn, hfind, he, hnumber, congrArg (fun e => e.value.1) hone⟩

end Multiway
