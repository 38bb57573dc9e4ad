import Multiway.Edit
import Multiway.Proofs.Ascending

/-!
# Ordered maps

What a tree stands for: a list of entries in ascending order. Nothing is said here of nodes, so this
is also where one reads what the updates of a tree do.

* `storeIn`, `valueIn`: storing an entry in a list, and looking up a value;
* `storeIn_before`, `storeIn_at`, `storeIn_behind`: storing before, in place of and behind an entry;
* `OrderedMap`: an ascending list; `Update`, `OrderedMap.step`, `OrderedMap.run`: its updates;
* **`OrderedMap.insert_stored`**, **`OrderedMap.insert_absent`**, **`OrderedMap.erase_stored`**,
  **`OrderedMap.erase_absent`**: what they do to the list.
-/

namespace Multiway

variable {K V : Type}

/-- The list with `e` stored in it. An entry whose key compares equal keeps this key and gets the
new value; if there is none, `e` goes in front of the first greater key. -/
def storeIn (cmp : Comparison K) (e : Entry K V) : List (Entry K V) → List (Entry K V)
  | [] => [e]
  | a :: rest =>
    match cmp a.key e.key with
    | .lt => a :: storeIn cmp e rest
    | .eq => ⟨a.key, e.value⟩ :: rest
    | .gt => e :: a :: rest

/-- The value under `key`. -/
def valueIn (cmp : Comparison K) (key : K) (es : List (Entry K V)) : Option V :=
  (es.find? fun a => cmp a.key key == .eq).map Entry.value

section

variable {cmp : Comparison K} {key : K} {e a : Entry K V} {es before behind : List (Entry K V)}

/-! ## Storing and looking up -/

theorem storeIn_append (hbefore : Below cmp e.key before) :
    storeIn cmp e (before ++ es) = before ++ storeIn cmp e es := by
  induction before with
  | nil => rfl
  | cons a before ih =>
    obtain ⟨ha, hbefore⟩ := List.forall_mem_cons.mp hbefore
    rw [List.cons_append, storeIn, ha, ih hbefore]
    rfl

theorem storeIn_append_of_above (hbehind : Above cmp e.key behind) :
    storeIn cmp e (es ++ behind) = storeIn cmp e es ++ behind := by
  induction es with
  | nil =>
    cases behind with
    | nil => rfl
    | cons b behind =>
      simp only [List.nil_append, storeIn, hbehind b List.mem_cons_self, List.cons_append]
  | cons a es ih =>
    rw [List.cons_append, storeIn, storeIn]
    split
    · rw [ih, List.cons_append]
    · rfl
    · rfl

theorem valueIn_append (hbefore : Below cmp key before) :
    valueIn cmp key (before ++ es) = valueIn cmp key es := by
  have hnone : before.find? (fun a => cmp a.key key == .eq) = none :=
    List.find?_eq_none.mpr fun a ha => by rw [hbefore a ha]; decide
  rw [valueIn, List.find?_append, hnone, Option.none_or, valueIn]

theorem valueIn_append_of_above (hbehind : Above cmp key behind) :
    valueIn cmp key (es ++ behind) = valueIn cmp key es := by
  have hnone : behind.find? (fun a => cmp a.key key == .eq) = none :=
    List.find?_eq_none.mpr fun a ha => by rw [hbehind a ha]; decide
  rw [valueIn, List.find?_append, hnone, Option.or_none, valueIn]

theorem key_of_mem_storeIn {b : Entry K V} (hb : b ∈ storeIn cmp e es) :
    b.key = e.key ∨ ∃ a ∈ es, b.key = a.key := by
  induction es with
  | nil => exact .inl (by rw [List.mem_singleton.mp hb])
  | cons a es ih =>
    rw [storeIn] at hb
    split at hb
    · rcases List.mem_cons.mp hb with rfl | hb
      · exact .inr ⟨b, List.mem_cons_self, rfl⟩
      · refine (ih hb).imp_right ?_
        rintro ⟨a', ha', hkey⟩
        exact ⟨a', List.mem_cons_of_mem _ ha', hkey⟩
    · rcases List.mem_cons.mp hb with rfl | hb
      · exact .inr ⟨a, List.mem_cons_self, rfl⟩
      · exact .inr ⟨b, List.mem_cons_of_mem _ hb, rfl⟩
    · rcases List.mem_cons.mp hb with rfl | hb
      · exact .inl rfl
      · exact .inr ⟨b, hb, rfl⟩

theorem ascending_storeIn [Std.TransCmp cmp] (h : Ascending cmp es) (e : Entry K V) :
    Ascending cmp (storeIn cmp e es) := by
  induction es with
  | nil => exact List.pairwise_singleton ..
  | cons a es ih =>
    obtain ⟨ha, hes⟩ := List.pairwise_cons.mp h
    rw [storeIn]
    split
    · next hlt =>
      refine List.pairwise_cons.mpr ⟨fun b hb => ?_, ih hes⟩
      rcases key_of_mem_storeIn hb with hkey | ⟨a', ha', hkey⟩
      · rw [hkey]
        exact hlt
      · rw [hkey]
        exact ha a' ha'
    · exact List.pairwise_cons.mpr ⟨ha, hes⟩
    · next hgt =>
      have hlt := Std.OrientedCmp.lt_of_gt hgt
      refine List.pairwise_cons.mpr ⟨fun b hb => ?_, h⟩
      rcases List.mem_cons.mp hb with rfl | hb
      · exact hlt
      · exact Std.TransCmp.lt_trans hlt (ha b hb)

theorem storeIn_before [Std.TransCmp cmp] (h : Ascending cmp (before ++ a :: behind))
    (ha : cmp a.key e.key = .gt) :
    storeIn cmp e (before ++ a :: behind) = storeIn cmp e before ++ a :: behind ∧
      valueIn cmp e.key (before ++ a :: behind) = valueIn cmp e.key before := by
  have hbehind : Above cmp e.key (a :: behind) :=
    List.forall_mem_cons.mpr ⟨ha, h.above (by rw [ha]; decide)⟩
  exact ⟨storeIn_append_of_above hbehind, valueIn_append_of_above hbehind⟩

theorem valueIn_at [Std.TransCmp cmp] (h : Ascending cmp (before ++ a :: behind))
    (ha : cmp a.key key = .eq) : valueIn cmp key (before ++ a :: behind) = some a.value := by
  rw [valueIn_append (h.below (by rw [ha]; decide)), valueIn,
    List.find?_cons_of_pos (by rw [ha]; rfl), Option.map_some]

theorem storeIn_at [Std.TransCmp cmp] (h : Ascending cmp (before ++ a :: behind))
    (ha : cmp a.key e.key = .eq) :
    storeIn cmp e (before ++ a :: behind) = before ++ ⟨a.key, e.value⟩ :: behind ∧
      valueIn cmp e.key (before ++ a :: behind) = some a.value := by
  have hbefore : Below cmp e.key before := h.below (by rw [ha]; decide)
  exact ⟨by rw [storeIn_append hbefore, storeIn, ha], valueIn_at h ha⟩

theorem storeIn_behind [Std.TransCmp cmp] (h : Ascending cmp (before ++ a :: behind))
    (ha : cmp a.key e.key = .lt) :
    storeIn cmp e (before ++ a :: behind) = before ++ a :: storeIn cmp e behind ∧
      valueIn cmp e.key (before ++ a :: behind) = valueIn cmp e.key behind := by
  have hbefore : Below cmp e.key (before ++ [a]) := by
    intro b hb
    rcases List.mem_append.mp hb with hb | hb
    · exact h.below (by rw [ha]; decide) b hb
    · rw [List.mem_singleton.mp hb]
      exact ha
  rw [List.append_cons]
  constructor
  · rw [storeIn_append hbefore, List.append_assoc, List.singleton_append]
  · exact valueIn_append hbefore

/-- A key that is not in an ascending list belongs between its smaller and its greater keys. -/
theorem Ascending.exists_cut [Std.TransCmp cmp] (h : Ascending cmp es)
    (habsent : ∀ a ∈ es, cmp a.key key ≠ .eq) :
    ∃ before behind, es = before ++ behind ∧ Below cmp key before ∧ Above cmp key behind := by
  induction es with
  | nil => exact ⟨[], [], rfl, fun _ ha => absurd ha List.not_mem_nil,
      fun _ hb => absurd hb List.not_mem_nil⟩
  | cons a es ih =>
    obtain ⟨ha, hes⟩ := List.forall_mem_cons.mp habsent
    cases hanswer : cmp a.key key with
    | lt =>
      obtain ⟨before, behind, rfl, hbefore, hbehind⟩ := ih (List.pairwise_cons.mp h).2 hes
      exact ⟨a :: before, behind, rfl, List.forall_mem_cons.mpr ⟨hanswer, hbefore⟩, hbehind⟩
    | eq => exact absurd hanswer ha
    | gt =>
      have hrest : Ascending cmp ([] ++ a :: es) := h
      exact ⟨[], a :: es, rfl, fun _ ha => absurd ha List.not_mem_nil,
        List.forall_mem_cons.mpr ⟨hanswer, hrest.above (by rw [hanswer]; decide)⟩⟩

end

/-! ## Maps -/

/-- An update without a comparison. The map that it updates has one. -/
inductive Update (K V : Type) where
  | insert (e : Entry K V)
  | erase (key : K)
  | eraseFirst
  | eraseLast

/-- The update of a tree that compares keys by `cmp`. -/
def Update.edit (cmp : Comparison K) : Update K V → Edit K V
  | insert e => .insert cmp e
  | erase key => .erase cmp key
  | eraseFirst => .eraseFirst
  | eraseLast => .eraseLast

/-- A list of entries in ascending order. -/
structure OrderedMap (K V : Type) (cmp : Comparison K) where
  entries : List (Entry K V)
  ascending : Ascending cmp entries

namespace OrderedMap

variable {cmp : Comparison K}

/-- The value under `key`. -/
def get? (m : OrderedMap K V cmp) (key : K) : Option V := valueIn cmp key m.entries

/-- The map with `e` stored. -/
def insert [Std.TransCmp cmp] (m : OrderedMap K V cmp) (e : Entry K V) : OrderedMap K V cmp :=
  ⟨storeIn cmp e m.entries, ascending_storeIn m.ascending e⟩

/-- The map without the entry whose key compares equal to `key`. -/
def erase (m : OrderedMap K V cmp) (key : K) : OrderedMap K V cmp :=
  ⟨m.entries.filter (cmp ·.key key != .eq), m.ascending.filter _⟩

/-- The map without its first entry. -/
def eraseFirst (m : OrderedMap K V cmp) : OrderedMap K V cmp :=
  ⟨m.entries.tail, m.ascending.tail⟩

/-- The map without its last entry. -/
def eraseLast (m : OrderedMap K V cmp) : OrderedMap K V cmp :=
  ⟨m.entries.dropLast, m.ascending.sublist (List.dropLast_sublist _)⟩

/-- The updated map and the answer. -/
def step [Std.TransCmp cmp] (m : OrderedMap K V cmp) :
    Update K V → OrderedMap K V cmp × Answer K V
  | .insert e => (m.insert e, .value (m.get? e.key))
  | .erase key => (m.erase key, .value (m.get? key))
  | .eraseFirst => (m.eraseFirst, .entry m.entries.head?)
  | .eraseLast => (m.eraseLast, .entry m.entries.getLast?)

/-- The map and the answer after each of the updates. -/
def run [Std.TransCmp cmp] (m : OrderedMap K V cmp) :
    List (Update K V) → List (OrderedMap K V cmp × Answer K V)
  | [] => []
  | update :: later => m.step update :: (m.step update).1.run later

variable {m : OrderedMap K V cmp} {key : K} {a e : Entry K V} {before behind : List (Entry K V)}

theorem entries_insert [Std.TransCmp cmp] :
    (m.insert e).entries = storeIn cmp e m.entries := rfl

theorem entries_erase : (m.erase key).entries = m.entries.filter (cmp ·.key key != .eq) := rfl

theorem insert_stored [Std.TransCmp cmp] (hm : m.entries = before ++ a :: behind)
    (ha : cmp a.key e.key = .eq) :
    (m.insert e).entries = before ++ ⟨a.key, e.value⟩ :: behind ∧ m.get? e.key = some a.value := by
  rw [entries_insert, get?, hm]
  exact storeIn_at (hm ▸ m.ascending) ha

/-- **A new key adds one entry**, between the smaller and the greater keys. -/
theorem insert_absent [Std.TransCmp cmp] (habsent : ∀ a ∈ m.entries, cmp a.key e.key ≠ .eq) :
    ∃ before behind, m.entries = before ++ behind ∧
      (m.insert e).entries = before ++ e :: behind ∧ m.get? e.key = none := by
  obtain ⟨before, behind, hm, hbefore, hbehind⟩ := m.ascending.exists_cut habsent
  refine ⟨before, behind, hm, ?_, ?_⟩
  · rw [entries_insert, hm, storeIn_append hbefore, ← List.nil_append behind,
      storeIn_append_of_above hbehind]
    rfl
  · rw [get?, valueIn, List.find?_eq_none.mpr fun a ha => by simp [habsent a ha], Option.map_none]

/-- **The entry of a key that is stored is erased**, and no other one. -/
theorem erase_stored [Std.TransCmp cmp] (hm : m.entries = before ++ a :: behind)
    (ha : cmp a.key key = .eq) :
    (m.erase key).entries = before ++ behind ∧ m.get? key = some a.value := by
  have hascending : Ascending cmp (before ++ a :: behind) := hm ▸ m.ascending
  have hbefore : Below cmp key before := hascending.below (by rw [ha]; decide)
  have hbehind : Above cmp key behind := hascending.above (by rw [ha]; decide)
  constructor
  · have hkeep₁ : before.filter (cmp ·.key key != .eq) = before :=
      List.filter_eq_self.mpr fun b hb => by rw [hbefore b hb]; rfl
    have hkeep₂ : behind.filter (cmp ·.key key != .eq) = behind :=
      List.filter_eq_self.mpr fun b hb => by rw [hbehind b hb]; rfl
    rw [entries_erase, hm, List.filter_append, List.filter_cons_of_neg (by simp [ha]), hkeep₁,
      hkeep₂]
  · rw [get?, hm, valueIn_at hascending ha]

theorem erase_absent (habsent : ∀ a ∈ m.entries, cmp a.key key ≠ .eq) :
    (m.erase key).entries = m.entries ∧ m.get? key = none := by
  constructor
  · exact List.filter_eq_self.mpr fun a ha => by simp [habsent a ha]
  · rw [get?, valueIn, List.find?_eq_none.mpr fun a ha => by simp [habsent a ha], Option.map_none]

end OrderedMap

end Multiway
