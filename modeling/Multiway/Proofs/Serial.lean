import Mathlib.Data.List.Nodup
import Multiway.Proofs.Equality
import Multiway.Proofs.Json
import Multiway.Serial

/-!
# A tree survives being written and read

What is written is the list of the entries, and reading it inserts them one after another in the
natural order of the keys. So nothing is lost, whatever the order that the tree was built in: if the
members have different keys, the new tree has the same entries, and if two have one key, it has the
last of them. Only the order of the entries, and the shape, may be another one.

* `last?`: the last member of a key;
* `OrderedMap.mem_foldl_insert_iff`, **`Tree.exists_deserialize`**: the entries of a tree that is
  read;
* `Tree.serialize_eq`: what is written;
* `Format`, `Format.Faithful`: a format, and what it has to keep to; `Json.format`,
  `Json.faithful_format`: the text format;
* **`serialize_deserialize`**: writing and reading.
-/

namespace Multiway

variable {K V : Type}

/-! ## Reading -/

/-- The last of the members whose key is `key`. -/
def last? [Ord K] (key : K) (members : List (Entry K V)) : Option (Entry K V) :=
  members.reverse.find? (compare ·.key key == .eq)

section

variable [Ord K] {key : K} {e b : Entry K V} {members : List (Entry K V)}

theorem last?_cons (key : K) (e : Entry K V) (members : List (Entry K V)) :
    last? key (e :: members) =
      (last? key members).or (if compare e.key key = .eq then some e else none) := by
  rw [last?, List.reverse_cons, List.find?_append, last?, List.find?_cons]
  cases compare e.key key <;> rfl

variable [Std.LawfulEqOrd K]

theorem mem_of_last?_eq_some (h : last? key members = some e) : e ∈ members ∧ e.key = key := by
  have hanswer := List.find?_some h
  exact ⟨List.mem_reverse.mp (List.mem_of_find?_eq_some h),
    Std.LawfulEqCmp.eq_of_compare (beq_iff_eq.mp hanswer)⟩

theorem last?_eq_some_iff (h : (members.map Entry.key).Nodup) :
    last? e.key members = some e ↔ e ∈ members := by
  refine ⟨fun hlast => (mem_of_last?_eq_some hlast).1, fun he => ?_⟩
  have hsome : (last? e.key members).isSome = true :=
    List.find?_isSome.mpr ⟨e, List.mem_reverse.mpr he, by simp⟩
  obtain ⟨a, ha⟩ := Option.isSome_iff_exists.mp hsome
  obtain ⟨hmem, hkey⟩ := mem_of_last?_eq_some ha
  rw [ha, List.inj_on_of_nodup_map h hmem he hkey]

variable [Std.TransOrd K] {m : OrderedMap K V compare}

theorem OrderedMap.exists_cut_insert (m : OrderedMap K V compare) (e : Entry K V) :
    ∃ before gone behind, m.entries = before ++ (gone ++ behind) ∧
      (m.insert e).entries = before ++ e :: behind ∧ ∀ a ∈ gone, a.key = e.key := by
  by_cases hstored : ∃ a ∈ m.entries, compare a.key e.key = .eq
  · obtain ⟨a, ha, hanswer⟩ := hstored
    obtain ⟨before, behind, hm⟩ := List.append_of_mem ha
    have hkey : a.key = e.key := Std.LawfulEqCmp.eq_of_compare hanswer
    refine ⟨before, [a], behind, hm, ?_, by simpa using hkey⟩
    rw [(OrderedMap.insert_stored hm hanswer).1, hkey]
  · obtain ⟨before, behind, hm, hinsert, -⟩ := OrderedMap.insert_absent (m := m) (e := e)
      fun a ha hanswer => hstored ⟨a, ha, hanswer⟩
    exact ⟨before, [], behind, hm, hinsert, fun _ ha => absurd ha List.not_mem_nil⟩

theorem OrderedMap.mem_insert_iff :
    b ∈ (m.insert e).entries ↔ b = e ∨ b.key ≠ e.key ∧ b ∈ m.entries := by
  obtain ⟨before, gone, behind, hm, hinsert, hgone⟩ := m.exists_cut_insert e
  obtain ⟨⟨-, hbefore⟩, -, hbehind⟩ := ascending_append_cons.mp (hinsert ▸ (m.insert e).ascending)
  have hless : ∀ b ∈ before, b.key ≠ e.key := fun b hb => ne_of_eq_lt (hbefore b hb)
  have hgreater : ∀ b ∈ behind, b.key ≠ e.key := fun b hb => (ne_of_eq_lt (hbehind b hb)).symm
  rw [hinsert, hm]
  simp only [List.mem_append, List.mem_cons]
  grind

/-- After any number of entries have been stored, the last one of every key is there. -/
theorem OrderedMap.mem_foldl_insert_iff (members : List (Entry K V)) :
    b ∈ (members.foldl OrderedMap.insert m).entries ↔
      last? b.key members = some b ∨ last? b.key members = none ∧ b ∈ m.entries := by
  induction members generalizing m with
  | nil => simp [last?]
  | cons e members ih =>
    have hanswer : compare e.key b.key = .eq ↔ e.key = b.key := Std.LawfulEqCmp.compare_eq_iff_eq
    rw [List.foldl_cons, ih, mem_insert_iff, last?_cons]
    cases last? b.key members with
    | some a => simp
    | none =>
      by_cases hkey : e.key = b.key
      · simp [hkey, eq_comm]
      · have hne : b ≠ e := fun heq => hkey (by rw [heq])
        simp [hanswer, hkey, Ne.symm hkey, hne]

theorem Tree.exists_deserialize (members : List (Entry K V)) :
    ∃ u d, Tree.deserialize members = .ok u ∧ u.validate compare = .ok d ∧
      ∀ e, e ∈ u.toList ↔ last? e.key members = some e := by
  have hempty : Tree.empty.StandsFor (⟨[], .nil⟩ : OrderedMap K V compare) := standsFor_empty
  obtain ⟨u, hu, hstands⟩ := hempty.exists_insertMany members
  obtain ⟨d, hd⟩ := Tree.exists_standsFor_iff.mp ⟨_, hstands⟩
  refine ⟨u, d, hu, hd, fun e => ?_⟩
  rw [← hstands.entries_eq, OrderedMap.mem_foldl_insert_iff]
  simp

end

/-! ## Writing -/

theorem Tree.serialize_eq (t : Tree K V) : t.serialize = .ok ⟨t.toList.length, t.toList⟩ := by
  rw [serialize, Iter.toList_eq (Iter.settled_start t), Iter.ahead_start, ← t.length_toList]
  rfl

/-! ## Formats -/

/-- A way to write what a tree gives as a text, and to read the members of a text. -/
structure Format (K V Text Failure : Type) where
  write : Serialized K V → Text
  read : Text → Except Failure (List (Entry K V))

namespace Format

variable {Text Failure : Type} (format : Format K V Text Failure)

/-- If the right number of members was announced, the same members are read back in the same
order. -/
def Faithful : Prop :=
  ∀ s : Serialized K V, s.announced = s.members.length →
    format.read (format.write s) = .ok s.members

/-- The text of a tree. -/
def encode (t : Tree K V) : Except Fault Text := format.write <$> t.serialize

/-- The tree of a text. -/
def decode [Ord K] (text : Text) : Except Failure (Except Fault (Tree K V)) :=
  Tree.deserialize <$> format.read text

end Format

/-- JSON objects. -/
def Json.format [Json.MemberName K] [Json.Scalar V] : Format K V String Json.Failure where
  write s := Json.renderObject s.members
  read := Json.membersOfText

theorem Json.faithful_format [Json.MemberName K] [Json.Scalar V] [Json.LawfulName K]
    [Json.LawfulScalar V] : (Json.format : Format K V String Json.Failure).Faithful :=
  fun s _ => Json.membersOfText_renderObject s.members

/-! ## Writing and reading -/

section

variable {Text Failure : Type} {format : Format K V Text Failure} [Ord K] [Std.TransOrd K]
  [Std.LawfulEqOrd K]

theorem Format.Faithful.exists_decode (hformat : format.Faithful) (members : List (Entry K V)) :
    ∃ u d, format.decode (format.write ⟨members.length, members⟩) = .ok (.ok u) ∧
      u.validate compare = .ok d ∧ ∀ e, e ∈ u.toList ↔ last? e.key members = some e := by
  obtain ⟨u, d, hu, hd, hentries⟩ := Tree.exists_deserialize members
  refine ⟨u, d, ?_, hd, hentries⟩
  rw [Format.decode, hformat ⟨members.length, members⟩ rfl]
  exact congrArg Except.ok hu

theorem Format.Faithful.exists_decode_encode (hformat : format.Faithful) {cmp : Comparison K}
    [Std.TransCmp cmp] {t : Tree K V} {d : Nat} (ht : t.validate cmp = .ok d) :
    ∃ text u d', format.encode t = .ok text ∧ format.decode text = .ok (.ok u) ∧
      u.validate compare = .ok d' ∧ u.toList.Perm t.toList := by
  have hkeys := (Tree.validate_eq_ok_iff.mp ht).1.nodup_keys
  obtain ⟨u, d', hu, hd', hentries⟩ := hformat.exists_decode t.toList
  have hukeys := (Tree.validate_eq_ok_iff.mp hd').1.nodup_keys
  refine ⟨_, u, d', by rw [Format.encode, Tree.serialize_eq]; rfl, hu, hd', ?_⟩
  rw [List.perm_ext_iff_of_nodup (List.Nodup.of_map _ hukeys) (List.Nodup.of_map _ hkeys)]
  exact fun e => (hentries e).trans (last?_eq_some_iff hkeys)

end

/-- **Writing and reading undo each other up to the order of the keys**, in a faithful format. -/
theorem serialize_deserialize {Text Failure : Type} [Ord K] [Std.TransOrd K] [Std.LawfulEqOrd K]
    [BEq K] [ReflBEq K] [BEq V] [ReflBEq V] {format : Format K V Text Failure}
    (hformat : format.Faithful) :
    (∀ (t : Tree K V) d, t.validate compare = .ok d →
      ∃ text u d', format.encode t = .ok text ∧ format.decode text = .ok (.ok u) ∧
        u.validate compare = .ok d' ∧
        ∀ (w : Workspace K V) p q, w.treeAt p = t → w.treeAt q = u → w.equal p q = .ok true) ∧
    (∀ members : List (Entry K V), ∃ u d s,
      format.decode (format.write ⟨members.length, members⟩) = .ok (.ok u) ∧
        u.validate compare = .ok d ∧ (∀ e, e ∈ u.toList ↔ last? e.key members = some e) ∧
        u.serialize = .ok s ∧ s.members = u.toList ∧ Ascending compare s.members) ∧
    (∀ (cmp : Comparison K) (t : Tree K V) d, Std.TransCmp cmp → t.validate cmp = .ok d →
      ∃ text u, format.encode t = .ok text ∧ format.decode text = .ok (.ok u) ∧
        u.toList.Perm t.toList ∧ Ascending compare u.toList) ∧
    ∀ t : Tree K V, ∃ s, t.serialize = .ok s ∧ s.announced = s.members.length := by
  refine ⟨fun t d ht => ?_, fun members => ?_, fun cmp t d hcmp ht => ?_, fun t => ?_⟩
  · obtain ⟨text, u, d', hencode, hdecode, hu, hperm⟩ := hformat.exists_decode_encode ht
    have hlist : u.toList = t.toList :=
      (Tree.validate_eq_ok_iff.mp hu).1.eq_of_perm (Tree.validate_eq_ok_iff.mp ht).1 hperm
    refine ⟨text, u, d', hencode, hdecode, hu, ?_⟩
    rintro w p q rfl rfl
    exact Workspace.equal_of_toList_eq hlist.symm
  · obtain ⟨u, d, hdecode, hu, hentries⟩ := hformat.exists_decode members
    exact ⟨u, d, _, hdecode, hu, hentries, u.serialize_eq, rfl, (Tree.validate_eq_ok_iff.mp hu).1⟩
  · obtain ⟨text, u, d', hencode, hdecode, hu, hperm⟩ := hformat.exists_decode_encode ht
    exact ⟨text, u, hencode, hdecode, hperm, (Tree.validate_eq_ok_iff.mp hu).1⟩
  · exact ⟨_, t.serialize_eq, rfl⟩

/-- Integers by magnitude, written as JSON: the tree comes back sorted. -/
theorem serialize_deserialize_json :
    let format : Format Int64 String String Json.Failure := Json.format
    let t : Tree Int64 String := .two (.leaf ⟨-1, "a"⟩) ⟨2, "b"⟩ (.leaf ⟨-3, "c"⟩)
    format.Faithful ∧
      (∃ text u, format.encode t = .ok text ∧ format.decode text = .ok (.ok u) ∧
        u.toList = [⟨-3, "c"⟩, ⟨-1, "a"⟩, ⟨2, "b"⟩]) ∧
      ∃ u, format.decode (format.write ⟨2, [⟨7, "a"⟩, ⟨7, "b"⟩]⟩) = .ok (.ok u) ∧
        (⟨7, "b"⟩ : Entry Int64 String) ∈ u.toList ∧
        (⟨7, "a"⟩ : Entry Int64 String) ∉ u.toList := by
  intro format t
  have hformat : format.Faithful := Json.faithful_format
  have hcmp : Std.TransCmp Comparison.byMagnitude := inferInstanceAs (Std.TransCmp (compareOn _))
  have hvalid : t.validate Comparison.byMagnitude = .ok 2 := by decide
  obtain ⟨-, hmembers, horder, -⟩ := serialize_deserialize hformat
  obtain ⟨text, u, hencode, hdecode, hperm, hascending⟩ := horder _ t 2 hcmp hvalid
  obtain ⟨u', -, -, hdecode', -, hentries, -⟩ := hmembers [⟨7, "a"⟩, ⟨7, "b"⟩]
  refine ⟨hformat, ⟨text, u, hencode, hdecode, ?_⟩, u', hdecode', ?_, ?_⟩
  · let sorted : List (Entry Int64 String) := [⟨-3, "c"⟩, ⟨-1, "a"⟩, ⟨2, "b"⟩]
    have hsorted : Ascending compare sorted := by
      rw [Ascending]
      decide
    exact hascending.eq_of_perm hsorted (hperm.trans (by decide))
  · exact (hentries _).mpr (by decide)
  · exact fun h => absurd ((hentries _).mp h) (by decide)

end Multiway
