import Multiway.Json.Scalar

/-!
# Reading JSON values

A text is read from left to right into the value it stands for. The members of an object come out
in the order of their names; of several members with one name the last one counts.

* `readLeaf`: a value without parts;
* `putMember`, `Document.ofMembers`: objects;
* `readDocument`, `readItems`, `readNamed`: any value, the items of a sequence and the members of an
  object;
* `Document.ofText`: the value of a text that holds one value and nothing else.
-/

namespace Multiway.Json

/-! ## Values without parts -/

/-- Reads a word, a string or a number from a text with no blanks in front. -/
def readLeaf : List Char → Except Failure (Document × List Char)
  | 'n' :: 'u' :: 'l' :: 'l' :: rest => .ok (.null, rest)
  | 't' :: 'r' :: 'u' :: 'e' :: rest => .ok (.bool true, rest)
  | 'f' :: 'a' :: 'l' :: 's' :: 'e' :: rest => .ok (.bool false, rest)
  | '"' :: rest => (fun (s, rest) => (.text s, rest)) <$> readText rest
  | text =>
    match readNumber text with
    | .ok (n, rest) => .ok (.ofNumber n, rest)
    | .error _ => .error (misfit text)

theorem length_readLeaf {text rest : List Char} {document : Document}
    (h : readLeaf text = .ok (document, rest)) : rest.length < text.length := by
  unfold readLeaf at h
  split at h
  iterate 3
    · cases h
      simp only [List.length_cons]
      omega
  · next afterQuote =>
    cases hs : readText afterQuote with
    | error failure => rw [hs] at h; cases h
    | ok r =>
      rw [hs] at h
      obtain ⟨-, rfl⟩ := Prod.mk.inj (Except.ok.inj h)
      exact Nat.lt_succ_of_le (length_readText hs)
  · split at h
    · next hn =>
      obtain ⟨-, rfl⟩ := Prod.mk.inj (Except.ok.inj h)
      exact length_readNumber hn
    · cases h

/-! ## Objects -/

/-- Puts a member among members that are in the order of their names, in place of one with its name
if there is one. -/
def putMember (name : String) (document : Document) :
    List (String × Document) → List (String × Document)
  | [] => [(name, document)]
  | (other, value) :: members =>
    match compare name other with
    | .lt => (name, document) :: (other, value) :: members
    | .eq => (name, document) :: members
    | .gt => (other, value) :: putMember name document members

/-- The object with these members. -/
def Document.ofMembers (members : List (String × Document)) : Document :=
  .object (members.foldl (fun object (name, document) => putMember name document object) [])

/-- The value of a member of an object. -/
def Document.member? (name : String) : Document → Option Document
  | .object members => members.lookup name
  | _ => none

/-! ## Any value -/

/-- What is read from the front of a text and the text after it, which is shorter. -/
abbrev Front (α : Type) (text : List Char) := { r : α × List Char // r.2.length < text.length }

mutual

/-- Reads a value. -/
def readDocument (text : List Char) : Except Failure (Front Document text) :=
  match hopen : skipBlanks text with
  | '[' :: inside =>
    match hfirst : skipBlanks inside with
    | ']' :: rest => .ok ⟨(.sequence [], rest), by
        have := length_skipBlanks_le text
        have := length_skipBlanks_le inside
        simp_all only [List.length_cons]
        omega⟩
    | _ =>
      match readItems inside with
      | .error failure => .error failure
      | .ok ⟨(items, rest), hrest⟩ => .ok ⟨(.sequence items, rest), by
          have := length_skipBlanks_le text
          simp_all only [List.length_cons]
          omega⟩
  | '\x7b' :: inside =>
    match hfirst : skipBlanks inside with
    | '\x7d' :: rest => .ok ⟨(.object [], rest), by
        have := length_skipBlanks_le text
        have := length_skipBlanks_le inside
        simp_all only [List.length_cons]
        omega⟩
    | _ =>
      match readNamed inside with
      | .error failure => .error failure
      | .ok ⟨(members, rest), hrest⟩ => .ok ⟨(.ofMembers members, rest), by
          have := length_skipBlanks_le text
          simp_all only [List.length_cons]
          omega⟩
  | _ =>
    match hleaf : readLeaf (skipBlanks text) with
    | .error failure => .error failure
    | .ok (document, rest) => .ok ⟨(document, rest),
        Nat.lt_of_lt_of_le (length_readLeaf hleaf) (length_skipBlanks_le text)⟩
termination_by (text.length, 0)
decreasing_by
  all_goals
    have := length_skipBlanks_le text
    simp_all only [List.length_cons]
    exact Prod.Lex.left _ _ (by omega)

/-- Reads an item of a sequence and the items after it, to the bracket that ends the sequence. -/
def readItems (text : List Char) : Except Failure (Front (List Document) text) :=
  match readDocument text with
  | .error failure => .error failure
  | .ok ⟨(item, afterItem), hitem⟩ =>
    match hnext : skipBlanks afterItem with
    | ']' :: rest => .ok ⟨([item], rest), by
        have := length_skipBlanks_le afterItem
        simp_all only [List.length_cons]
        omega⟩
    | ',' :: more =>
      match readItems more with
      | .error failure => .error failure
      | .ok ⟨(items, rest), hrest⟩ => .ok ⟨(item :: items, rest), by
          have := length_skipBlanks_le afterItem
          simp_all only [List.length_cons]
          omega⟩
    | [] => .error .earlyEnd
    | _ => .error .malformed
termination_by (text.length, 1)
decreasing_by
  · exact Prod.Lex.right _ (by decide)
  · have := length_skipBlanks_le afterItem
    simp_all only [List.length_cons]
    exact Prod.Lex.left _ _ (by omega)

/-- Reads a member of an object and the members after it, to the brace that ends the object. -/
def readNamed (text : List Char) : Except Failure (Front (List (String × Document)) text) :=
  match hopen : skipBlanks text with
  | '"' :: inside =>
    match hname : readText inside with
    | .error failure => .error failure
    | .ok (name, afterName) =>
      match hcolon : skipBlanks afterName with
      | ':' :: afterColon =>
        have hvalue : afterColon.length < text.length := by
          have := length_skipBlanks_le text
          have := length_readText hname
          have := length_skipBlanks_le afterName
          simp_all only [List.length_cons]
          omega
        match readDocument afterColon with
        | .error failure => .error failure
        | .ok ⟨(document, afterValue), hafter⟩ =>
          match hnext : skipBlanks afterValue with
          | '\x7d' :: rest => .ok ⟨([(name, document)], rest), by
              have := length_skipBlanks_le afterValue
              simp_all only [List.length_cons]
              omega⟩
          | ',' :: more =>
            match readNamed more with
            | .error failure => .error failure
            | .ok ⟨(members, rest), hrest⟩ => .ok ⟨((name, document) :: members, rest), by
                have := length_skipBlanks_le afterValue
                simp_all only [List.length_cons]
                omega⟩
          | [] => .error .earlyEnd
          | _ => .error .malformed
      | [] => .error .earlyEnd
      | _ => .error .malformed
  | [] => .error .earlyEnd
  | _ => .error .malformed
termination_by (text.length, 1)
decreasing_by
  · exact Prod.Lex.left _ _ hvalue
  · have := length_skipBlanks_le afterValue
    simp_all only [List.length_cons]
    exact Prod.Lex.left _ _ (by omega)

end

/-- The one value that a text holds. -/
def Document.ofText (text : String) : Except Failure Document :=
  match readDocument text.toList with
  | .error failure => .error failure
  | .ok ⟨(document, rest), _⟩ =>
    if (skipBlanks rest).isEmpty then .ok document else .error .malformed

end Multiway.Json
