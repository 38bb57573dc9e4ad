import Multiway.Json.Document
import Multiway.Json.Number
import Multiway.Json.Quoted
import Multiway.Tree.Transform

/-!
# Keys and values in JSON

A value is a number or a string. The name of a member is always a string; a number used as a key is
written between quotes.

* `Scalar`: types that are written and read as JSON values;
* `MemberName`: types that are written and read as names of members;
* `wholePart?`, `renderWhole`: floating-point numbers as integers;
* `label`: entries as texts made of their JSON values;
* `misfit`: why a text is not the front of a value of the type asked for.
-/

namespace Multiway.Json

/-- Types whose elements are JSON values. -/
class Scalar (α : Type) where
  /-- What a value of the type is called. -/
  expected : String
  /-- The JSON text of a value. -/
  render : α → String
  /-- Reads a value from a text with no blanks in front. -/
  read : List Char → Except Failure (α × List Char)
  length_read {text rest : List Char} {a : α} :
    read text = .ok (a, rest) → rest.length ≤ text.length
  /-- Takes a value from a JSON value already read. -/
  ofDocument : Document → Except Misfit α

/-- Types whose elements are names of members. -/
class MemberName (α : Type) where
  /-- The JSON string that stands for a name. -/
  render : α → String
  /-- Reads a name from after its opening quote. -/
  read : List Char → Except Failure (α × List Char)
  length_read {text rest : List Char} {a : α} :
    read text = .ok (a, rest) → rest.length ≤ text.length
  /-- Takes a name from a string already read. -/
  ofName : String → Except Misfit α

/-- The failure to read the letters of a word whose first letter has been read: the word is a value
of the wrong type. -/
def wordMisfit : (letters : List Char) → (text : List Char) → Failure
  | [], _ => .wrongType
  | _ :: _, [] => .earlyEnd
  | letter :: letters, c :: text => if c = letter then wordMisfit letters text else .malformed

/-- The failure of a reader that gave an answer which is not asked for. -/
def failureOr {α : Type} : Except Failure α → Failure
  | .error failure => failure
  | .ok _ => .wrongType

/-- The failure to find a value of the type asked for at the front of a text with no blanks: the
text may end, or not be JSON, or hold a value of another type. -/
def misfit : List Char → Failure
  | [] => .earlyEnd
  | 'n' :: rest => wordMisfit ['u', 'l', 'l'] rest
  | 't' :: rest => wordMisfit ['r', 'u', 'e'] rest
  | 'f' :: rest => wordMisfit ['a', 'l', 's', 'e'] rest
  | '"' :: rest => failureOr (readBody rest)
  | '[' :: _ => .wrongType
  | '\x7b' :: _ => .wrongType
  | c :: rest =>
    if startsNumber c then failureOr ((readNumber (c :: rest)).mapError fun stop => stop.flaw.failure)
    else .malformed

theorem length_readBody {text rest body : List Char} (h : readBody text = .ok (body, rest)) :
    rest.length ≤ text.length := by
  fun_induction readBody text generalizing body rest with
  | case1 => cases h
  | case2 =>
    cases h
    exact Nat.le_succ _
  | case3 => cases h
  | case4 after c text' he ih =>
    cases hb : readBody text' with
    | error failure => rw [hb] at h; cases h
    | ok r =>
      rw [hb] at h
      obtain ⟨-, rfl⟩ := Prod.mk.inj (Except.ok.inj h)
      have := length_readEscape he
      have := ih hb
      simp only [List.length_cons]
      omega
  | case5 => cases h
  | case6 c text' _ _ _ ih =>
    cases hb : readBody text' with
    | error failure => rw [hb] at h; cases h
    | ok r =>
      rw [hb] at h
      obtain ⟨-, rfl⟩ := Prod.mk.inj (Except.ok.inj h)
      exact Nat.le_succ_of_le (ih hb)

/-! ## Integers of 64 bits -/

/-- The integer of 64 bits with a given value, if it is in range. -/
def int64? (n : Int) : Option Int64 :=
  if Int64.minValue.toInt ≤ n && n ≤ Int64.maxValue.toInt then some (Int64.ofInt n)
  else none

/-- The integer of 64 bits that a number stands for. -/
def Number.int64? : Number → Option Int64
  | .integer n => Json.int64? n
  | .float _ => none

/-- Reads an integer of 64 bits from a text with no blanks in front. -/
def readInt64 (text : List Char) : Except Failure (Int64 × List Char) :=
  if (text.head?.map startsNumber).getD false then
    match readNumber text with
    | .error stop => .error stop.flaw.failure
    | .ok (n, rest) =>
      match n.int64? with
      | none => .error .wrongType
      | some a => .ok (a, rest)
  else .error (misfit text)

theorem length_readInt64 {text rest : List Char} {a : Int64} (h : readInt64 text = .ok (a, rest)) :
    rest.length ≤ text.length := by
  unfold readInt64 at h
  split at h
  · split at h
    · cases h
    · next hn =>
      split at h
      · cases h
      · cases h
        exact Nat.le_of_lt (length_readNumber hn)
  · cases h

instance : Scalar Int64 where
  expected := "i64"
  render a := toString a.toInt
  read := readInt64
  length_read := length_readInt64
  ofDocument
    | .integer n =>
      match int64? n with
      | some a => .ok a
      | none => .error (.range (.integer n) "i64")
    | document => .error (.type document "i64")

/-- Reads an integer from after the quote that opens it to after the quote that closes it. -/
def readQuotedInt64 (text : List Char) : Except Failure (Int64 × List Char) :=
  if (text.head?.map startsNumber).getD false then
    match readInt64 text with
    | .error failure => .error failure
    | .ok (a, '"' :: rest) => .ok (a, rest)
    | .ok _ => .error .malformed
  else .error .malformed

theorem length_readQuotedInt64 {text rest : List Char} {a : Int64}
    (h : readQuotedInt64 text = .ok (a, rest)) : rest.length ≤ text.length := by
  unfold readQuotedInt64 at h
  split at h
  · split at h
    · cases h
    · next hread =>
      cases h
      exact Nat.le_of_succ_le (length_readInt64 hread)
    · cases h
  · cases h

/-- The integer that a name stands for. A flaw in the name shows before an integer that does not fit,
and that shows before characters behind the number. -/
def int64OfName (name : List Char) : Except Misfit Int64 :=
  if (name.head?.map startsNumber).getD false then
    match readNumber name with
    | .error stop => .error (.within (stop.position name) (.number stop.flaw))
    | .ok (n, rest) =>
      match Scalar.ofDocument (.ofNumber n) with
      | .error misfit =>
        .error (.within (.after (name.take (name.length - rest.length))) misfit)
      | .ok a => if rest.isEmpty then .ok a else .error .name
  else .error .name

instance : MemberName Int64 where
  render a := "\"" ++ toString a.toInt ++ "\""
  read := readQuotedInt64
  length_read := length_readQuotedInt64
  ofName name := int64OfName name.toList

/-! ## Strings -/

/-- Reads a string from after its opening quote. -/
def readText (text : List Char) : Except Failure (String × List Char) :=
  match readBody text with
  | .error failure => .error failure
  | .ok (body, rest) => .ok (String.ofList body, rest)

theorem length_readText {text rest : List Char} {s : String} (h : readText text = .ok (s, rest)) :
    rest.length ≤ text.length := by
  unfold readText at h
  split at h
  · cases h
  · next hbody =>
    cases h
    exact length_readBody hbody

/-- Reads a string from a text with no blanks in front. -/
def readString : List Char → Except Failure (String × List Char)
  | '"' :: rest => readText rest
  | text => .error (misfit text)

theorem length_readString {text rest : List Char} {s : String}
    (h : readString text = .ok (s, rest)) : rest.length ≤ text.length := by
  unfold readString at h
  split at h
  · exact Nat.le_succ_of_le (length_readText h)
  · cases h

instance : Scalar String where
  expected := "a string"
  render := quote
  read := readString
  length_read := length_readString
  ofDocument
    | .text s => .ok s
    | document => .error (.type document "a string")

instance : MemberName String where
  render := quote
  read := readText
  length_read := length_readText
  ofName := .ok

/-! ## Floating-point numbers -/

/-- The floating-point number that a number stands for. -/
def Number.toFloat : Number → Float
  | .integer n => Float.ofInt n
  | .float x => x

/-- Reads a floating-point number from a text with no blanks in front. -/
def readFloat (text : List Char) : Except Failure (Float × List Char) :=
  if (text.head?.map startsNumber).getD false then
    match readNumber text with
    | .error stop => .error stop.flaw.failure
    | .ok (n, rest) => .ok (n.toFloat, rest)
  else .error (misfit text)

theorem length_readFloat {text rest : List Char} {x : Float} (h : readFloat text = .ok (x, rest)) :
    rest.length ≤ text.length := by
  unfold readFloat at h
  split at h
  · split at h
    · cases h
    · next hn =>
      cases h
      exact Nat.le_of_lt (length_readNumber hn)
  · cases h

instance : Scalar Float where
  expected := "f64"
  render := Text.renderFloat floatLayout
  read := readFloat
  length_read := length_readFloat
  ofDocument
    | .integer n => .ok (Float.ofInt n)
    | .float x => .ok x
    | document => .error (.type document "f64")

/-- The whole part of a number, as near as 64 bits allow; there is none if it is not a number. -/
def wholePart? (x : Float) : Option Int64 := if x.isNaN then none else some x.toInt64

/-- The whole part of a number as JSON text. -/
def renderWhole (x : Float) : String := ((wholePart? x).map Scalar.render).getD "null"

/-! ## Labels -/

/-- The transform that labels every entry by the number of the call, its key and the text of its
value. -/
def label {K V : Type} [Scalar K] (render : V → String) : Transform Nat K V String := fun k v n =>
  (toString n ++ "|" ++ Scalar.render k ++ "|" ++ render v, n + 1)

end Multiway.Json
