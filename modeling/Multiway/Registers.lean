/-!
# Registers

Named places that hold one thing each. Only looking up, filling and emptying a place by its name can
be observed.

* `Registers`, `Registers.get?`, `Registers.set`, `Registers.unset`;
* `Registers.Distinct`: no name stands twice;
* `Registers.Distinct.mem_contents_iff`, `Registers.Distinct.count_contents`: the things held.
-/

namespace Multiway

/-- Things held under names. -/
structure Registers (α : Type) where
  pairs : List (String × α)

namespace Registers

variable {α : Type}

/-- No name holds anything. -/
def empty : Registers α := ⟨[]⟩

/-- What is held under a name. -/
def get? (r : Registers α) (name : String) : Option α := r.pairs.lookup name

/-- The registers with nothing under a name. -/
def unset (r : Registers α) (name : String) : Registers α :=
  ⟨r.pairs.filter fun p => p.1 != name⟩

/-- The registers with `a` under a name. -/
def set (r : Registers α) (name : String) (a : α) : Registers α :=
  ⟨(name, a) :: (r.unset name).pairs⟩

/-- Everything held, in no particular order. -/
def contents (r : Registers α) : List α := r.pairs.map Prod.snd

theorem lookup_cons (name other : String) (a : α) (pairs : List (String × α)) :
    ((name, a) :: pairs).lookup other = if other = name then some a else pairs.lookup other := by
  by_cases h : other = name
  · simp [h]
  · have hne : (other == name) = false := beq_false_of_ne h
    simp [List.lookup_cons, hne, h]

theorem get?_empty (name : String) : (empty : Registers α).get? name = none := rfl

theorem get?_unset (r : Registers α) (name other : String) :
    (r.unset name).get? other = if other = name then none else r.get? other := by
  obtain ⟨pairs⟩ := r
  induction pairs with
  | nil => exact (ite_self none).symm
  | cons p rest ih =>
    obtain ⟨key, a⟩ := p
    simp only [get?, unset, List.filter_cons, lookup_cons] at ih ⊢
    by_cases hkey : key = name
    · rw [if_neg (by simp [hkey]), ih]
      by_cases hother : other = name
      · rw [if_pos hother, if_pos hother]
      · rw [if_neg hother, if_neg hother, if_neg (hkey ▸ hother)]
    · rw [if_pos (by simp [hkey]), lookup_cons, ih]
      by_cases hother : other = key
      · rw [if_pos hother, if_pos hother, if_neg (hother ▸ hkey)]
      · rw [if_neg hother, if_neg hother]

theorem get?_set (r : Registers α) (name other : String) (a : α) :
    (r.set name a).get? other = if other = name then some a else r.get? other := by
  have hunset := r.get?_unset name other
  simp only [get?, set, lookup_cons] at hunset ⊢
  by_cases hother : other = name
  · rw [if_pos hother, if_pos hother]
  · rw [if_neg hother, if_neg hother, hunset, if_neg hother]

/-! ## Counting the names of a thing -/

/-- No name stands twice. -/
def Distinct (r : Registers α) : Prop := (r.pairs.map Prod.fst).Nodup

variable {r : Registers α} {name : String} {a : α}

theorem distinct_empty : (empty : Registers α).Distinct := List.nodup_nil

theorem Distinct.unset (h : r.Distinct) (name : String) : (r.unset name).Distinct :=
  List.Nodup.sublist (List.filter_sublist.map _) h

theorem Distinct.set (h : r.Distinct) (name : String) (a : α) : (r.set name a).Distinct := by
  refine List.nodup_cons.mpr ⟨fun hmem => ?_, h.unset name⟩
  obtain ⟨p, hp, hname⟩ := List.mem_map.mp hmem
  simpa [hname] using (List.mem_filter.mp hp).2

theorem Distinct.mem_pairs_iff (h : r.Distinct) : (name, a) ∈ r.pairs ↔ r.get? name = some a := by
  obtain ⟨pairs⟩ := r
  induction pairs with
  | nil => simp [get?]
  | cons p rest ih =>
    obtain ⟨key, b⟩ := p
    obtain ⟨hkey, hrest⟩ := List.nodup_cons.mp h
    simp only [get?, lookup_cons, List.mem_cons, Prod.mk.injEq] at ih ⊢
    by_cases hname : name = key
    · have habsent : (name, a) ∉ rest := fun hmem =>
        hkey (List.mem_map.mpr ⟨_, hmem, hname⟩)
      simp [hname, eq_comm, hname ▸ habsent]
    · simp [hname, ih hrest]

theorem Distinct.mem_contents_iff (h : r.Distinct) :
    a ∈ r.contents ↔ ∃ name, r.get? name = some a := by
  simp only [contents, List.mem_map, Prod.exists, exists_eq_right, h.mem_pairs_iff]

variable [BEq α] [LawfulBEq α]

theorem Distinct.count_contents (h : r.Distinct) (hname : r.get? name = some a) :
    r.contents.count a = (r.unset name).contents.count a + 1 := by
  obtain ⟨pairs⟩ := r
  induction pairs with
  | nil => cases hname
  | cons p rest ih =>
    obtain ⟨key, b⟩ := p
    obtain ⟨hkey, hrest⟩ := List.nodup_cons.mp h
    simp only [get?, lookup_cons] at hname ih
    simp only [contents, Registers.unset, List.filter_cons, List.map_cons] at ih ⊢
    by_cases heq : name = key
    · obtain rfl : b = a := by simpa [heq] using hname
      have hkeep : rest.filter (fun p => p.1 != name) = rest := List.filter_eq_self.mpr fun p hp =>
        bne_iff_ne.mpr fun hp' => hkey (List.mem_map.mpr ⟨p, hp, hp'.trans heq⟩)
      rw [hkeep, if_neg (by simp [heq]), List.count_cons_self]
    · rw [if_neg heq] at hname
      rw [if_pos (by simpa using Ne.symm heq), List.map_cons, List.count_cons, List.count_cons,
        ih hrest hname]
      exact Nat.add_right_comm _ _ _

end Registers

end Multiway
