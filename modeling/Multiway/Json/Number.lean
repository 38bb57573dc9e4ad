import Multiway.Json.Failure

/-!
# JSON numbers

A number has an optional sign, digits without a needless zero in front, and then perhaps a point
with digits and an exponent. One with neither point nor exponent that fits into 64 bits is an
integer; any other is a floating-point number, made from as many leading digits as fit into 64 bits,
and has to be finite. The number zero with a sign is a floating-point number.

* `Number`: what is read;
* `NumberFlaw`, `NumberStop`: why a text has no number in front, and where that shows;
* `absorb`: the leading digits that stay below a limit;
* `scale`: digits times a power of ten;
* `readFraction`, `readExponent`, `readNumber`: the parts of a number, and all of it.
-/

namespace Multiway.Json

/-- A number as it is read. -/
inductive Number where
  | integer (value : Int)
  | float (value : Float)

/-- Why a text has no number in front. -/
inductive NumberFlaw where
  /-- The text ends too early. -/
  | earlyEnd
  /-- A character is out of place. -/
  | malformed
  /-- The number is too large. -/
  | tooLarge
deriving DecidableEq

/-- The text of a flaw. -/
def NumberFlaw.message : NumberFlaw → String
  | earlyEnd => "EOF while parsing a value"
  | malformed => "invalid number"
  | tooLarge => "number out of range"

/-- The failure that a flaw is. -/
def NumberFlaw.failure : NumberFlaw → Failure
  | earlyEnd => .earlyEnd
  | malformed | tooLarge => .malformed

/-- A flaw and the text that is left where it shows. A character out of place is still left. -/
structure NumberStop where
  flaw : NumberFlaw
  left : List Char

/-- Where in a text a flaw shows: behind the character out of place, if there is one. -/
def NumberStop.position (text : List Char) (stop : NumberStop) : Position :=
  let read := text.length - stop.left.length
  Position.after (text.take (if stop.flaw = .malformed then read + 1 else read))

/-- Whether a character is a decimal digit. -/
def isDigit (c : Char) : Bool := '0' ≤ c && c ≤ '9'

/-- The value of a decimal digit. -/
def digitValue (c : Char) : Nat := c.toNat - '0'.toNat

/-- Whether a number can begin with a character. -/
def startsNumber (c : Char) : Bool := c = '-' || isDigit c

/-- Appends digits to a number as long as the result is below a limit. The second part of the answer
is the digits left over. -/
def absorb (limit n : Nat) : List Char → Nat × List Char
  | [] => (n, [])
  | c :: digits =>
    let next := n * 10 + digitValue c
    if next < limit then absorb limit next digits else (n, c :: digits)

/-- The power of ten nearest to `10 ^ n`. -/
def powerOfTen (n : Nat) : Float := Float.ofScientific 1 false n

/-- A number divided by `10 ^ n`, in steps that can be represented. -/
def divideByPower (x : Float) (n : Nat) : Float :=
  if n ≤ 308 then x / powerOfTen n
  else if x == 0 then x
  else divideByPower (x / powerOfTen 308) (n - 308)
termination_by n

/-- The number `digits * 10 ^ exponent`, unless it is too large. -/
def scale (digits : Nat) (exponent : Int) : Option Float :=
  let x := Float.ofNat digits
  if exponent < 0 then some (divideByPower x (-exponent).toNat)
  else if digits = 0 then some 0
  else if 308 < exponent then none
  else
    let y := x * powerOfTen exponent.toNat
    if y.isInf then none else some y

/-- One digit or more. -/
def readDigits (text : List Char) : Except NumberStop (List Char × List Char) :=
  match text with
  | [] => .error ⟨.earlyEnd, []⟩
  | c :: _ =>
    if isDigit c then .ok (text.takeWhile isDigit, text.dropWhile isDigit)
    else .error ⟨.malformed, text⟩

/-- The digits after a point, if there is one. -/
def readFraction : List Char → Except NumberStop (Option (List Char) × List Char)
  | '.' :: rest => (fun (digits, rest) => (some digits, rest)) <$> readDigits rest
  | text => .ok (none, text)

/-- An exponent as it is written. -/
structure Exponent where
  negative : Bool
  digits : List Char

/-- The number that some digits stand for. -/
def valueOf (digits : List Char) : Nat := digits.foldl (fun n c => n * 10 + digitValue c) 0

/-- The number that an exponent stands for. -/
def Exponent.value (e : Exponent) : Int :=
  if e.negative then -(valueOf e.digits : Int) else valueOf e.digits

/-- The digits of an exponent that are not looked at once it does not fit into 32 bits. -/
def Exponent.unread (e : Exponent) : List Char := (absorb (1 <<< 31) 0 e.digits).2.drop 1

/-- The sign of an exponent, which may be left out. -/
def readSign : List Char → Bool × List Char
  | '+' :: rest => (false, rest)
  | '-' :: rest => (true, rest)
  | text => (false, text)

/-- The exponent, if there is one. -/
def readExponent : List Char → Except NumberStop (Option Exponent × List Char)
  | [] => .ok (none, [])
  | c :: rest =>
    if c = 'e' || c = 'E' then
      let (negative, rest) := readSign rest
      (fun (digits, rest) => (some ⟨negative, digits⟩, rest)) <$> readDigits rest
    else .ok (none, c :: rest)

/-- The number without point and exponent. -/
def Number.ofMagnitude (negative : Bool) (n : Nat) : Number :=
  if negative then
    if n = 0 || 1 <<< 63 < n then .float (-Float.ofNat n) else .integer (-n)
  else .integer n

/-- The number given by its parts, unless it is too large. -/
def Number.ofParts (negative : Bool) (whole : List Char) (fraction : Option (List Char))
    (exponent : Option Exponent) : Option Number :=
  let (n, wholeLeft) := absorb (1 <<< 64) 0 whole
  if wholeLeft.isEmpty && fraction.isNone && exponent.isNone then some (.ofMagnitude negative n)
  else
    let fraction := fraction.getD []
    let (n, fractionLeft) := absorb (1 <<< 64) n fraction
    let shift : Int := wholeLeft.length - (fraction.length - fractionLeft.length : Nat)
    (scale n (shift + (exponent.map Exponent.value).getD 0)).map fun x =>
      .float (if negative then -x else x)

/-- The number after its sign. -/
def readMagnitude (negative : Bool) (text : List Char) : Except NumberStop (Number × List Char) :=
  match readDigits text with
  | .error stop => .error stop
  | .ok (whole, rest) =>
    if whole.head? = some '0' && 1 < whole.length then .error ⟨.malformed, text.drop 1⟩
    else
      match readFraction rest with
      | .error stop => .error stop
      | .ok (fraction, rest) =>
        match readExponent rest with
        | .error stop => .error stop
        | .ok (exponent, rest) =>
          match Number.ofParts negative whole fraction exponent with
          | some number => .ok (number, rest)
          | none => .error ⟨.tooLarge, (exponent.map Exponent.unread).getD [] ++ rest⟩

/-- A number. -/
def readNumber : List Char → Except NumberStop (Number × List Char)
  | '-' :: rest => readMagnitude true rest
  | text => readMagnitude false text

/-! ## The rest is shorter -/

theorem length_readDigits {text rest digits : List Char} (h : readDigits text = .ok (digits, rest)) :
    rest.length < text.length := by
  unfold readDigits at h
  split at h
  · cases h
  · next c after =>
    split at h
    · next hdigit =>
      obtain ⟨-, rfl⟩ := Prod.mk.inj (Except.ok.inj h)
      rw [List.dropWhile_cons_of_pos hdigit]
      exact Nat.lt_succ_of_le (List.dropWhile_sublist _).length_le
    · cases h

theorem length_readFraction {text rest : List Char} {digits : Option (List Char)}
    (h : readFraction text = .ok (digits, rest)) : rest.length ≤ text.length := by
  unfold readFraction at h
  split at h
  · next after =>
    cases hd : readDigits after with
    | error stop => rw [hd] at h; cases h
    | ok r =>
      rw [hd] at h
      obtain ⟨-, rfl⟩ := Prod.mk.inj (Except.ok.inj h)
      exact Nat.le_succ_of_le (Nat.le_of_lt (length_readDigits hd))
  · obtain ⟨-, rfl⟩ := Prod.mk.inj (Except.ok.inj h)
    exact Nat.le_refl _

theorem length_readSign (text : List Char) : (readSign text).2.length ≤ text.length := by
  unfold readSign
  split <;> simp

theorem length_readExponent {text rest : List Char} {exponent : Option Exponent}
    (h : readExponent text = .ok (exponent, rest)) : rest.length ≤ text.length := by
  unfold readExponent at h
  split at h
  · cases h
    exact Nat.le_refl _
  · next c after =>
    split at h
    · have hsign := length_readSign after
      cases hd : readDigits (readSign after).2 with
      | error stop => simp only [hd] at h; cases h
      | ok r =>
        simp only [hd] at h
        obtain ⟨-, rfl⟩ := Prod.mk.inj (Except.ok.inj h)
        have := length_readDigits hd
        simp only [List.length_cons]
        omega
    · cases h
      exact Nat.le_refl _

theorem length_readMagnitude {negative : Bool} {text rest : List Char} {n : Number}
    (h : readMagnitude negative text = .ok (n, rest)) : rest.length < text.length := by
  unfold readMagnitude at h
  split at h
  · cases h
  · next whole r₁ h₁ =>
    split at h
    · cases h
    · split at h
      · cases h
      · next fraction r₂ h₂ =>
        split at h
        · cases h
        · next exponent r₃ h₃ =>
          split at h
          · obtain ⟨-, rfl⟩ := Prod.mk.inj (Except.ok.inj h)
            exact Nat.lt_of_le_of_lt (length_readExponent h₃)
              (Nat.lt_of_le_of_lt (length_readFraction h₂) (length_readDigits h₁))
          · cases h

theorem length_readNumber {text rest : List Char} {n : Number}
    (h : readNumber text = .ok (n, rest)) : rest.length < text.length := by
  unfold readNumber at h
  split at h
  · exact Nat.lt_succ_of_lt (length_readMagnitude h)
  · exact length_readMagnitude h

end Multiway.Json
