import Multiway.Json.Members

/-!
# What is written in JSON is read back

The members of an object are written and read back one after another: the same keys and values come
back in the same order, whatever the texts and however long the list. Every statement about a part
of a text is made for all that may follow it.

* `Ends`: no number goes on in a text;
* `absorb_eq`, **`readMagnitude_toDigits`**, `readInt64_render`: integers;
* `readBody_escape`, **`readBody_flatMap`**: one character of a string, and all of them;
* `LawfulScalar`, `LawfulName`: types of values and of keys that are read back, among them integers
  and strings;
* `readMember_memberText`, `readMembers_membersText`: one member and what follows, and all of them;
* **`membersOfText_renderObject`**: an object.
-/

namespace Multiway.Json

variable {rest : List Char}

/-! ## Decimal digits -/

theorem isDigit_of_mem_toDigits {n : Nat} {c : Char} (h : c ∈ Nat.toDigits 10 n) :
    isDigit c = true :=
  Nat.isDigit_of_mem_toDigits (by decide) (by decide) h

theorem le_ofDigitChars (digits : List Char) (n : Nat) : n ≤ Nat.ofDigitChars 10 digits n := by
  induction digits generalizing n with
  | nil => exact Nat.le_refl n
  | cons c digits ih =>
    rw [Nat.ofDigitChars_cons]
    exact Nat.le_trans (by omega) (ih _)

/-- Digits whose number is below the limit are all taken in. -/
theorem absorb_eq {limit n : Nat} {digits : List Char}
    (h : Nat.ofDigitChars 10 digits n < limit) :
    absorb limit n digits = (Nat.ofDigitChars 10 digits n, []) := by
  induction digits generalizing n with
  | nil => rfl
  | cons c digits ih =>
    rw [Nat.ofDigitChars_cons, Nat.mul_comm 10 n] at h ⊢
    have hnext : n * 10 + digitValue c < limit := Nat.lt_of_le_of_lt (le_ofDigitChars ..) h
    rw [absorb, if_pos hnext]
    exact ih h

theorem eq_zero_of_head?_toDigits {n : Nat} (h : (Nat.toDigits 10 n).head? = some '0') :
    n = 0 := by
  induction n using Nat.strongRecOn with
  | ind n ih =>
    rw [Nat.toDigits_eq_if (by decide)] at h
    split at h
    · exact Nat.zero_eq_digitChar.mp (Option.some.inj h).symm
    · obtain ⟨c, digits, hcons⟩ := List.exists_cons_of_ne_nil (@Nat.toDigits_ne_nil (n / 10) 10)
      rw [hcons] at h
      have hzero := ih (n / 10) (by omega) (by rw [hcons]; exact h)
      omega

/-- No digit, point or exponent stands in front of the text. -/
def Ends (text : List Char) : Prop :=
  ∀ c ∈ text.head?, isDigit c = false ∧ c ≠ '.' ∧ c ≠ 'e' ∧ c ≠ 'E'

theorem ends_cons {c : Char} (hc : c = ',' ∨ c = '\x7d' ∨ c = '"') (rest : List Char) :
    Ends (c :: rest) := by
  rintro d ⟨⟩
  rcases hc with rfl | rfl | rfl <;> decide

theorem readDigits_toDigits (n : Nat) (hrest : Ends rest) :
    readDigits (Nat.toDigits 10 n ++ rest) = .ok (Nat.toDigits 10 n, rest) := by
  have hdigits : ∀ c ∈ Nat.toDigits 10 n, isDigit c = true := fun _ => isDigit_of_mem_toDigits
  have htake : rest.takeWhile isDigit = [] := by
    cases rest with
    | nil => rfl
    | cons c rest => exact List.takeWhile_cons_of_neg (by simp [(hrest c rfl).1])
  have hdrop : rest.dropWhile isDigit = rest := by
    cases rest with
    | nil => rfl
    | cons c rest => exact List.dropWhile_cons_of_neg (by simp [(hrest c rfl).1])
  obtain ⟨c, digits, hcons⟩ := List.exists_cons_of_ne_nil (@Nat.toDigits_ne_nil n 10)
  have htext : Nat.toDigits 10 n ++ rest = c :: (digits ++ rest) := by rw [hcons]; rfl
  rw [readDigits.eq_def, htext]
  simp only
  rw [if_pos (hdigits c (by simp [hcons])), ← htext, List.takeWhile_append_of_pos hdigits,
    List.dropWhile_append_of_pos hdigits, htake, hdrop, List.append_nil]

theorem readFraction_of_ends (hrest : Ends rest) : readFraction rest = .ok (none, rest) := by
  unfold readFraction
  split
  · exact absurd rfl (hrest '.' rfl).2.1
  · rfl

theorem readExponent_of_ends (hrest : Ends rest) : readExponent rest = .ok (none, rest) := by
  cases rest with
  | nil => rfl
  | cons c rest =>
    obtain ⟨-, -, hsmall, hlarge⟩ := hrest c rfl
    rw [readExponent, if_neg (by simp [hsmall, hlarge])]

/-- **The digits of a number are read back**, if they fit into 64 bits. -/
theorem readMagnitude_toDigits (negative : Bool) {n : Nat} (hn : n < 1 <<< 64)
    (hrest : Ends rest) :
    readMagnitude negative (Nat.toDigits 10 n ++ rest) = .ok (.ofMagnitude negative n, rest) := by
  have hzero : ¬((Nat.toDigits 10 n).head? = some '0' &&
      1 < (Nat.toDigits 10 n).length) = true := by
    intro h
    obtain ⟨hhead, hlength⟩ := Bool.and_eq_true_iff.mp h
    rw [eq_zero_of_head?_toDigits (of_decide_eq_true hhead)] at hlength
    cases hlength
  have hvalue : Nat.ofDigitChars 10 (Nat.toDigits 10 n) 0 = n := Nat.ofDigitChars_ten_toDigits
  have hparts : Number.ofParts negative (Nat.toDigits 10 n) none none =
      some (.ofMagnitude negative n) := by
    rw [Number.ofParts, absorb_eq (by rwa [hvalue]), hvalue]
    rfl
  rw [readMagnitude, readDigits_toDigits n hrest]
  simp only
  rw [if_neg hzero, readFraction_of_ends hrest]
  simp only
  rw [readExponent_of_ends hrest]
  simp only
  rw [hparts]

/-! ## Integers -/

theorem toList_toString_append (n : Int) (rest : List Char) :
    (toString n).toList ++ rest = if 0 ≤ n then Nat.toDigits 10 n.toNat ++ rest
      else '-' :: (Nat.toDigits 10 (-n).toNat ++ rest) := by
  rw [Int.toString_eq_repr, Int.repr_eq_if]
  split <;> simp [Nat.repr_eq_ofList_toDigits]

theorem startsNumber_toDigits (n : Nat) (rest : List Char) :
    ∃ c text, Nat.toDigits 10 n ++ rest = c :: text ∧ isDigit c = true := by
  obtain ⟨c, digits, hcons⟩ := List.exists_cons_of_ne_nil (@Nat.toDigits_ne_nil n 10)
  exact ⟨c, digits ++ rest, by rw [hcons]; rfl, isDigit_of_mem_toDigits (by rw [hcons]; simp)⟩

theorem readNumber_toDigits {n : Nat} (hn : n < 1 <<< 64) (hrest : Ends rest) :
    readNumber (Nat.toDigits 10 n ++ rest) = .ok (.integer n, rest) := by
  obtain ⟨c, text, hcons, hdigit⟩ := startsNumber_toDigits n rest
  unfold readNumber
  split
  · next after hsign =>
    obtain ⟨rfl, -⟩ := List.cons.inj (hcons.symm.trans hsign)
    cases hdigit
  · exact readMagnitude_toDigits false hn hrest

theorem readNumber_toString (a : Int64) (hrest : Ends rest) :
    readNumber ((toString a.toInt).toList ++ rest) = .ok (.integer a.toInt, rest) := by
  have hlower := a.le_toInt
  have hupper := a.toInt_lt
  rw [toList_toString_append]
  split
  · next hsign => rw [readNumber_toDigits (by omega) hrest, Int.toNat_of_nonneg hsign]
  · next hsign =>
    have hrange : ¬((-a.toInt).toNat = 0 || 1 <<< 63 < (-a.toInt).toNat) = true := by
      simp only [Bool.or_eq_true, decide_eq_true_eq]
      omega
    rw [readNumber, readMagnitude_toDigits true (by omega) hrest, Number.ofMagnitude, if_pos rfl,
      if_neg hrange, Int.toNat_of_nonneg (by omega), Int.neg_neg]

theorem startsNumber_toString (n : Int) (rest : List Char) :
    ∃ c text, (toString n).toList ++ rest = c :: text ∧ startsNumber c = true := by
  rw [toList_toString_append]
  split
  · obtain ⟨c, text, hcons, hdigit⟩ := startsNumber_toDigits n.toNat rest
    exact ⟨c, text, hcons, by rw [startsNumber, hdigit, Bool.or_true]⟩
  · exact ⟨_, _, rfl, rfl⟩

theorem int64?_toInt (a : Int64) : int64? a.toInt = some a := by
  have hrange := Bool.and_eq_true_iff.mpr
    ⟨decide_eq_true a.minValue_le_toInt, decide_eq_true a.toInt_le⟩
  rw [int64?, if_pos hrange, Int64.ofInt_toInt]

theorem readInt64_toString (a : Int64) (hrest : Ends rest) :
    readInt64 ((toString a.toInt).toList ++ rest) = .ok (a, rest) := by
  obtain ⟨c, text, hcons, hstart⟩ := startsNumber_toString a.toInt rest
  have hhead : ((c :: text).head?.map startsNumber).getD false = true := hstart
  rw [readInt64, hcons, if_pos hhead, ← hcons, readNumber_toString a hrest]
  simp only [Number.int64?, int64?_toInt]

theorem readQuotedInt64_toString (a : Int64) (rest : List Char) :
    readQuotedInt64 ((toString a.toInt).toList ++ '"' :: rest) = .ok (a, rest) := by
  obtain ⟨c, text, hcons, hstart⟩ := startsNumber_toString a.toInt ('"' :: rest)
  have hhead : ((c :: text).head?.map startsNumber).getD false = true := hstart
  have hread := readInt64_toString a (ends_cons (.inr (.inr rfl)) rest)
  rw [readQuotedInt64, hcons, if_pos hhead, ← hcons, hread]
  rfl

/-! ## Strings -/

theorem hexValue?_hexDigit {n : Nat} (h : n < 16) : hexValue? (hexDigit n) = some n := by
  revert n
  decide

/-- The characters before the blank are no halves of pairs. -/
theorem readCodePoint_control {c : Char} (hc : c < ' ') (rest : List Char) :
    readCodePoint ('0' :: '0' :: hexDigit (c.toNat / 16) :: hexDigit (c.toNat % 16) :: rest) =
      .ok (c, rest) := by
  have hlt : c.toNat < 32 := hc
  have hhigh := hexValue?_hexDigit (n := c.toNat / 16) (by omega)
  have hlow := hexValue?_hexDigit (n := c.toNat % 16) (by omega)
  have hzero : hexValue? '0' = some 0 := rfl
  have hunit : ((0 * 16 + 0) * 16 + c.toNat / 16) * 16 + c.toNat % 16 = c.toNat := by omega
  have htrailing : isTrailing c.toNat = false := by
    simp [isTrailing]
    omega
  have hleading : isLeading c.toNat = false := by
    simp [isLeading]
    omega
  simp only [readCodePoint, readUnit, hzero, hhigh, hlow, hunit, htrailing, hleading,
    Bool.false_eq_true, if_false, Char.ofNat_toNat]

theorem readBody_of_readEscape {c : Char} {text : List Char}
    (h : readEscape text = .ok (c, rest)) :
    readBody ('\\' :: text) = (fun (body, rest) => (c :: body, rest)) <$> readBody rest := by
  rw [readBody, h]

theorem readBody_escape (c : Char) (text : List Char) :
    readBody (escape c ++ text) = (fun (body, rest) => (c :: body, rest)) <$> readBody text := by
  unfold escape
  split
  · next h => exact readBody_of_readEscape (by rw [h]; rfl)
  split
  · next h => exact readBody_of_readEscape (by rw [h]; rfl)
  split
  · next h => exact readBody_of_readEscape (by rw [h]; rfl)
  split
  · next h => exact readBody_of_readEscape (by rw [h]; rfl)
  split
  · next h => exact readBody_of_readEscape (by rw [h]; rfl)
  split
  · next h => exact readBody_of_readEscape (by rw [h]; rfl)
  split
  · next h => exact readBody_of_readEscape (by rw [h]; rfl)
  split
  · next h => exact readBody_of_readEscape (readCodePoint_control h text)
  · next hquote hslash _ _ _ _ _ hcontrol =>
    rw [List.singleton_append, readBody, if_neg hcontrol]
    · exact hquote
    · exact hslash

/-- **A string is read back**, whatever its characters. -/
theorem readBody_flatMap (s rest : List Char) :
    readBody (s.flatMap escape ++ '"' :: rest) = .ok (s, rest) := by
  induction s with
  | nil => rw [List.flatMap_nil, List.nil_append, readBody]
  | cons c s ih =>
    rw [List.flatMap_cons, List.append_assoc, readBody_escape, ih]
    rfl

theorem toList_quote_append (s : String) (rest : List Char) :
    (quote s).toList ++ rest = '"' :: (s.toList.flatMap escape ++ '"' :: rest) := by
  simp [quote]

theorem readText_flatMap (s : String) (rest : List Char) :
    readText (s.toList.flatMap escape ++ '"' :: rest) = .ok (s, rest) := by
  rw [readText, readBody_flatMap]
  simp only [String.ofList_toList]

/-! ## Keys and values -/

/-- Types whose values are read back, whether another member follows or not. -/
class LawfulScalar (α : Type) [Scalar α] : Prop where
  skipBlanks_render (a : α) (rest : List Char) :
    skipBlanks ((Scalar.render a).toList ++ rest) = (Scalar.render a).toList ++ rest
  read_render (a : α) {c : Char} (hc : c = ',' ∨ c = '\x7d') (rest : List Char) :
    Scalar.read ((Scalar.render a).toList ++ c :: rest) = .ok (a, c :: rest)

/-- Types whose names are read back. -/
class LawfulName (α : Type) [MemberName α] : Prop where
  exists_read (a : α) : ∃ name, (MemberName.render a).toList = '"' :: name ∧
    ∀ rest, MemberName.read (name ++ rest) = .ok (a, rest)

theorem skipBlanks_cons {c : Char} (hc : isBlank c = false) (rest : List Char) :
    skipBlanks (c :: rest) = c :: rest :=
  List.dropWhile_cons_of_neg (by simp [hc])

theorem isBlank_of_startsNumber {c : Char} (hc : startsNumber c = true) : isBlank c = false := by
  cases h : isBlank c with
  | false => rfl
  | true =>
    have hblank : c = ' ' ∨ c = '\n' ∨ c = '\t' ∨ c = '\r' := by
      simpa [isBlank, or_assoc] using h
    rcases hblank with rfl | rfl | rfl | rfl <;> cases hc

instance : LawfulScalar Int64 where
  skipBlanks_render a rest := by
    obtain ⟨c, text, hcons, hstart⟩ := startsNumber_toString a.toInt rest
    have hrender : (Scalar.render a).toList ++ rest = c :: text := hcons
    rw [hrender, skipBlanks_cons (isBlank_of_startsNumber hstart)]
  read_render a c hc rest := by
    refine readInt64_toString a (ends_cons ?_ rest)
    exact hc.elim .inl fun h => .inr (.inl h)

instance : LawfulName Int64 where
  exists_read a := ⟨(toString a.toInt).toList ++ ['"'], by simp [MemberName.render], fun rest => by
    rw [List.append_assoc]
    exact readQuotedInt64_toString a rest⟩

instance : LawfulScalar String where
  skipBlanks_render s rest := by
    have hrender := toList_quote_append s rest
    exact (congrArg skipBlanks hrender).trans ((skipBlanks_cons rfl _).trans hrender.symm)
  read_render s c _ rest := by
    have hrender := toList_quote_append s (c :: rest)
    exact (congrArg readString hrender).trans (readText_flatMap s (c :: rest))

instance : LawfulName String where
  exists_read s := ⟨s.toList.flatMap escape ++ ['"'], by simp [MemberName.render, quote],
    fun rest => by
      rw [List.append_assoc]
      exact readText_flatMap s rest⟩

/-! ## Objects -/

variable {K V : Type} [MemberName K] [Scalar V]

/-- The text of a member from after the quote that opens its name. -/
def memberText (e : Entry K V) : List Char :=
  (MemberName.render e.key).toList.tail ++ ':' :: (Scalar.render e.value).toList

/-- The text of some members from after the quote that opens the first name. -/
def membersText (e : Entry K V) : List (Entry K V) → List Char
  | [] => memberText e
  | e' :: es => memberText e ++ ',' :: '"' :: membersText e' es

theorem intercalate_members (e : Entry K V) (es : List (Entry K V)) :
    [','].intercalate ((e :: es).map fun e => '"' :: memberText e) = '"' :: membersText e es := by
  induction es generalizing e with
  | nil => exact List.intercalate_singleton
  | cons e' es ih =>
    have hlater := ih e'
    rw [List.map_cons] at hlater
    rw [List.map_cons, List.map_cons, List.intercalate_cons_cons, hlater, membersText,
      List.append_assoc]
    rfl

variable [LawfulName K]

theorem toList_member (e : Entry K V) :
    (MemberName.render e.key ++ ":" ++ Scalar.render e.value).toList = '"' :: memberText e := by
  obtain ⟨name, hname, -⟩ := LawfulName.exists_read e.key
  simp [memberText, hname]

theorem toList_renderObject (e : Entry K V) (es : List (Entry K V)) :
    (renderObject (e :: es)).toList = '\x7b' :: '"' :: (membersText e es ++ ['\x7d']) := by
  have hmembers := intercalate_members e es
  simp only [← toList_member] at hmembers
  simp only [renderObject, String.toList_append, String.toList_intercalate, List.map_map,
    Function.comp_def] at hmembers ⊢
  rw [show ",".toList = [','] from rfl, hmembers]
  rfl

variable [LawfulScalar V]

theorem readMember_memberText (e : Entry K V) {c : Char} (hc : c = ',' ∨ c = '\x7d')
    (rest : List Char) : readMember (memberText e ++ c :: rest) = .ok (e, c :: rest) := by
  obtain ⟨name, hname, hread⟩ := LawfulName.exists_read e.key
  rw [memberText, hname, List.tail_cons, List.append_assoc, List.cons_append, readMember, hread]
  simp only
  rw [skipBlanks_cons rfl]
  simp only
  rw [LawfulScalar.skipBlanks_render, LawfulScalar.read_render e.value hc]

theorem readMembers_membersText (e : Entry K V) (es : List (Entry K V)) (rest : List Char) :
    readMembers (membersText e es ++ '\x7d' :: rest) = .ok (e :: es, rest) := by
  induction es generalizing e with
  | nil =>
    rw [membersText, readMembers, readMember_memberText e (.inr rfl)]
    rfl
  | cons e' es ih =>
    rw [membersText, List.append_assoc, List.cons_append, List.cons_append, readMembers,
      readMember_memberText e (.inl rfl)]
    have hmore (text : List Char) : readSeparator (',' :: '"' :: text) = .ok (true, text) := rfl
    simp only
    rw [hmore]
    simp only [ih]
    rfl

/-- **An object is read back**, member by member and in the same order. -/
theorem membersOfText_renderObject (members : List (Entry K V)) :
    membersOfText (renderObject members) = .ok members := by
  cases members with
  | nil =>
    have htext : (renderObject ([] : List (Entry K V))).toList = ['\x7b', '\x7d'] := by
      simp [renderObject]
    rw [membersOfText, htext]
    rfl
  | cons e es =>
    rw [membersOfText, toList_renderObject, readObject, skipBlanks_cons rfl]
    simp only
    rw [skipBlanks_cons rfl]
    simp only
    rw [readMembers_membersText]
    rfl

end Multiway.Json
