import Multiway.Json.Scalar
import Multiway.Tree.Basic

/-!
# JSON objects

A tree is written as an object with one member for every entry. An object is read member by member,
in the order of the text, and the first failure ends the reading.

* `renderObject`: writing;
* `readMember`, `readSeparator`, `readMembers`, `readObject`: reading from the front of a text;
* `membersOfText`: the members of a text that holds one object and nothing else;
* `membersOfDocument`: the members of an object already read.
-/

namespace Multiway.Json

variable {K V : Type} [MemberName K] [Scalar V]

/-- The text of an object. -/
def renderObject (members : List (Entry K V)) : String :=
  let texts := members.map fun e => MemberName.render e.key ++ ":" ++ Scalar.render e.value
  "\x7b" ++ String.intercalate "," texts ++ "\x7d"

/-- Reads a member from after the quote that opens its name. -/
def readMember (text : List Char) : Except Failure (Entry K V × List Char) :=
  match MemberName.read (α := K) text with
  | .error failure => .error failure
  | .ok (key, rest) =>
    match skipBlanks rest with
    | ':' :: rest =>
      match Scalar.read (α := V) (skipBlanks rest) with
      | .error failure => .error failure
      | .ok (value, rest) => .ok (⟨key, value⟩, rest)
    | [] => .error .earlyEnd
    | _ => .error .malformed

theorem length_readMember {text rest : List Char} {e : Entry K V}
    (h : readMember text = .ok (e, rest)) : rest.length ≤ text.length := by
  unfold readMember at h
  split at h
  · cases h
  · next key afterKey hkey =>
    have hk := MemberName.length_read hkey
    have hblank := length_skipBlanks_le afterKey
    split at h
    · next afterColon hcolon =>
      rw [hcolon, List.length_cons] at hblank
      split at h
      · cases h
      · next hvalue =>
        obtain ⟨-, rfl⟩ := Prod.mk.inj (Except.ok.inj h)
        have hv := Scalar.length_read hvalue
        have := length_skipBlanks_le afterColon
        omega
    · cases h
    · cases h

/-- Reads what follows a member: the brace that ends the object, or a comma and the quote that opens
the next name. The first part of the answer says whether another member follows. -/
def readSeparator (text : List Char) : Except Failure (Bool × List Char) :=
  match skipBlanks text with
  | '\x7d' :: rest => .ok (false, rest)
  | ',' :: rest =>
    match skipBlanks rest with
    | '"' :: rest => .ok (true, rest)
    | [] => .error .earlyEnd
    | _ => .error .malformed
  | [] => .error .earlyEnd
  | _ => .error .malformed

theorem length_readSeparator {text rest : List Char} {more : Bool}
    (h : readSeparator text = .ok (more, rest)) : rest.length < text.length := by
  unfold readSeparator at h
  have hblank := length_skipBlanks_le text
  split at h
  · next hend =>
    cases h
    rwa [hend] at hblank
  · next afterComma hcomma =>
    rw [hcomma, List.length_cons] at hblank
    have hname := length_skipBlanks_le afterComma
    split at h
    · next hquote =>
      cases h
      rw [hquote, List.length_cons] at hname
      omega
    all_goals cases h
  all_goals cases h

/-- Reads the members of an object from after the quote that opens the first name. -/
def readMembers (text : List Char) : Except Failure (List (Entry K V) × List Char) :=
  match _hmember : readMember text with
  | .error failure => .error failure
  | .ok (e, rest) =>
    match _hmore : readSeparator rest with
    | .error failure => .error failure
    | .ok (false, rest) => .ok ([e], rest)
    | .ok (true, rest) => (fun (es, rest) => (e :: es, rest)) <$> readMembers rest
termination_by text.length
decreasing_by exact Nat.lt_of_lt_of_le (length_readSeparator ‹_›) (length_readMember ‹_›)

/-- Reads an object. -/
def readObject (text : List Char) : Except Failure (List (Entry K V) × List Char) :=
  match skipBlanks text with
  | '\x7b' :: rest =>
    match skipBlanks rest with
    | '\x7d' :: rest => .ok ([], rest)
    | '"' :: rest => readMembers rest
    | [] => .error .earlyEnd
    | _ => .error .malformed
  | text => .error (misfit text)

/-- The members of the one object that a text holds. -/
def membersOfText (text : String) : Except Failure (List (Entry K V)) :=
  match readObject text.toList with
  | .error failure => .error failure
  | .ok (members, rest) => if (skipBlanks rest).isEmpty then .ok members else .error .malformed

/-- The member that a name and a value stand for. -/
def memberOfDocument (name : String) (document : Document) : Except Misfit (Entry K V) := do
  let key ← MemberName.ofName name
  let value ← Scalar.ofDocument document
  return ⟨key, value⟩

/-- The members of an object already read. -/
def membersOfDocument : Document → Except Misfit (List (Entry K V))
  | .object members => members.mapM fun (name, document) => memberOfDocument name document
  | document => .error (.type document "a map")

end Multiway.Json
