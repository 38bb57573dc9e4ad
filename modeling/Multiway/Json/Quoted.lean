import Multiway.Json.Failure

/-!
# JSON strings

Writing a string puts a backslash before the quote and the backslash, and writes control characters
by a letter or by number; every other character stands for itself. Reading takes any escape of the
format, among them a character beyond the first 65536 as a pair of numbers.

* `escape`, `quote`: writing;
* `readUnit`, `readCodePoint`, `readEscape`, `readBody`: reading four digits, a character given by
  number, an escape, and a string up to its closing quote.
-/

namespace Multiway.Json

/-- The digit of a number below sixteen. -/
def hexDigit (n : Nat) : Char := Nat.digitChar n

/-- A character as it is written between quotes. -/
def escape (c : Char) : List Char :=
  if c = '"' then ['\\', '"']
  else if c = '\\' then ['\\', '\\']
  else if c = '\x08' then ['\\', 'b']
  else if c = '\x0c' then ['\\', 'f']
  else if c = '\n' then ['\\', 'n']
  else if c = '\r' then ['\\', 'r']
  else if c = '\t' then ['\\', 't']
  else if c < ' ' then
    ['\\', 'u', '0', '0', hexDigit (c.toNat / 16), hexDigit (c.toNat % 16)]
  else [c]

/-- A JSON string. -/
def quote (s : String) : String := String.ofList ('"' :: s.toList.flatMap escape ++ ['"'])

/-- The value of a digit in base sixteen. -/
def hexValue? (c : Char) : Option Nat :=
  if '0' ≤ c && c ≤ '9' then some (c.toNat - '0'.toNat)
  else if 'a' ≤ c && c ≤ 'f' then some (c.toNat - 'a'.toNat + 10)
  else if 'A' ≤ c && c ≤ 'F' then some (c.toNat - 'A'.toNat + 10)
  else none

/-- The number of bytes of a text. -/
def byteLength (text : List Char) : Nat := text.foldl (fun n c => n + c.utf8Size) 0

/-- The number given by four digits. The text ends too early if it has fewer than four bytes. -/
def readUnit : List Char → Except Failure (Nat × List Char)
  | a :: b :: c :: d :: rest =>
    match hexValue? a, hexValue? b, hexValue? c, hexValue? d with
    | some a, some b, some c, some d => .ok (((a * 16 + b) * 16 + c) * 16 + d, rest)
    | _, _, _, _ => .error .malformed
  | text => .error (if byteLength text < 4 then .earlyEnd else .malformed)

/-- Whether a number is the first half of a pair. -/
def isLeading (n : Nat) : Bool := 0xD800 ≤ n && n ≤ 0xDBFF

/-- Whether a number is the second half of a pair. -/
def isTrailing (n : Nat) : Bool := 0xDC00 ≤ n && n ≤ 0xDFFF

/-- The second number of a pair, which must follow as an escape of its own. -/
def readTrailing : List Char → Except Failure (Nat × List Char)
  | '\\' :: 'u' :: rest =>
    match readUnit rest with
    | .error failure => .error failure
    | .ok (n, rest) => if isTrailing n then .ok (n, rest) else .error .malformed
  | [] => .error .earlyEnd
  | ['\\'] => .error .earlyEnd
  | _ => .error .malformed

/-- The character given by number, from after the letter of the escape. -/
def readCodePoint (text : List Char) : Except Failure (Char × List Char) :=
  match readUnit text with
  | .error failure => .error failure
  | .ok (n, rest) =>
    if isTrailing n then .error .malformed
    else if isLeading n then
      match readTrailing rest with
      | .error failure => .error failure
      | .ok (m, rest) => .ok (Char.ofNat ((n - 0xD800) * 0x400 + (m - 0xDC00) + 0x10000), rest)
    else .ok (Char.ofNat n, rest)

/-- The character given by an escape, from after its backslash. -/
def readEscape : List Char → Except Failure (Char × List Char)
  | [] => .error .earlyEnd
  | 'u' :: rest => readCodePoint rest
  | '"' :: rest => .ok ('"', rest)
  | '\\' :: rest => .ok ('\\', rest)
  | '/' :: rest => .ok ('/', rest)
  | 'b' :: rest => .ok ('\x08', rest)
  | 'f' :: rest => .ok ('\x0c', rest)
  | 'n' :: rest => .ok ('\n', rest)
  | 'r' :: rest => .ok ('\r', rest)
  | 't' :: rest => .ok ('\t', rest)
  | _ :: _ => .error .malformed

theorem length_readUnit {text rest : List Char} {n : Nat} (h : readUnit text = .ok (n, rest)) :
    rest.length < text.length := by
  fun_cases readUnit text <;> simp_all [readUnit]
  omega

theorem length_readTrailing {text rest : List Char} {n : Nat}
    (h : readTrailing text = .ok (n, rest)) : rest.length < text.length := by
  unfold readTrailing at h
  split at h
  · split at h
    · cases h
    · next hunit =>
      split at h
      · cases h
        have := length_readUnit hunit
        simp only [List.length_cons]
        omega
      · cases h
  all_goals cases h

theorem length_readCodePoint {text rest : List Char} {c : Char}
    (h : readCodePoint text = .ok (c, rest)) : rest.length < text.length := by
  unfold readCodePoint at h
  split at h
  · cases h
  · next hunit =>
    have hfirst := length_readUnit hunit
    split at h
    · cases h
    · split at h
      · split at h
        · cases h
        · next htrailing =>
          obtain ⟨-, rfl⟩ := Prod.mk.inj (Except.ok.inj h)
          exact Nat.lt_trans (length_readTrailing htrailing) hfirst
      · obtain ⟨-, rfl⟩ := Prod.mk.inj (Except.ok.inj h)
        exact hfirst

theorem length_readEscape {text rest : List Char} {c : Char}
    (h : readEscape text = .ok (c, rest)) : rest.length < text.length := by
  unfold readEscape at h
  split at h
  case h_2 => exact Nat.lt_trans (length_readCodePoint h) (Nat.lt_succ_self _)
  all_goals cases h
  all_goals exact Nat.lt_succ_self _

/-- The characters of a string up to its closing quote, and the text after it. -/
def readBody : List Char → Except Failure (List Char × List Char)
  | [] => .error .earlyEnd
  | '"' :: rest => .ok ([], rest)
  | '\\' :: rest =>
    match _h : readEscape rest with
    | .error failure => .error failure
    | .ok (c, rest) => (fun (body, rest) => (c :: body, rest)) <$> readBody rest
  | c :: rest =>
    if c < ' ' then .error .malformed
    else (fun (body, rest) => (c :: body, rest)) <$> readBody rest
termination_by text => text.length
decreasing_by
  · have := length_readEscape ‹_›
    simp only [List.length_cons]
    omega
  · exact Nat.lt_succ_self _

end Multiway.Json
