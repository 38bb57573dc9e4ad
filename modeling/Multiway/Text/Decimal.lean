/-!
# The shortest decimal of a floating-point number

A finite number stands for all reals that round to it. Its shortest decimal is the one with the
fewest digits among them, and the nearest to the number if there are several. Of two that are
equally near, a layout says which one is taken.

* `Decimal`: a number of digits scaled by a power of ten;
* `Tie`: the choice between two decimals that are equally near;
* `Interval`: the reals that round to a positive number, with exact ends;
* `shortest`: the shortest decimal of a positive finite number;
* `Layout`, `Decimal.render`, `renderFloat`: positional or scientific notation.
-/

namespace Multiway.Text

/-- The number `digits * 10 ^ exponent`. -/
structure Decimal where
  digits : Nat
  exponent : Int
deriving DecidableEq

/-- Which of two neighbouring numbers of digits is taken if both are equally near. -/
inductive Tie where
  /-- The even one. -/
  | toEven
  /-- The larger one. -/
  | up

/-- Whether the smaller of two neighbours is taken, if both are equally near. -/
def Tie.takesBelow (below : Nat) : Tie → Bool
  | toEven => below % 2 = 0
  | up => false

/-- A positive number with the reals that round to it, all over one denominator. -/
structure Interval where
  low : Nat
  value : Nat
  high : Nat
  denominator : Nat
  /-- Whether the ends round to the number too. -/
  closed : Bool

/-- The interval of the positive number with these bits. -/
def Interval.ofBits (bits : UInt64) : Interval :=
  let fraction := bits.toNat % (1 <<< 52)
  let biased := bits.toNat / (1 <<< 52) % (1 <<< 11)
  let significand := if biased = 0 then fraction else fraction + (1 <<< 52)
  let power : Int := (if biased = 0 then 1 else biased : Nat) - 1077
  let scale := 1 <<< power.toNat
  let below := if fraction = 0 && biased > 1 then 1 else 2
  { low := (4 * significand - below) * scale
    value := 4 * significand * scale
    high := (4 * significand + 2) * scale
    denominator := 1 <<< (-power).toNat
    closed := significand % 2 = 0 }

/-- The nearest multiple of `10 ^ exponent` in the interval among the two next to the number. -/
def Interval.onGrid (r : Interval) (tie : Tie) (exponent : Int) : Option Decimal :=
  let unit := Nat.pow 10 exponent.toNat * r.denominator
  let scale := Nat.pow 10 (-exponent).toNat
  let below := r.value * scale / unit
  let inside (n : Nat) : Bool :=
    if r.closed then r.low * scale ≤ n * unit && n * unit ≤ r.high * scale
    else r.low * scale < n * unit && n * unit < r.high * scale
  let belowFirst :=
    match compare (r.value * scale - below * unit) ((below + 1) * unit - r.value * scale) with
    | .lt => true
    | .eq => tie.takesBelow below
    | .gt => false
  if inside below && (belowFirst || !inside (below + 1)) then some ⟨below, exponent⟩
  else if inside (below + 1) then some ⟨below + 1, exponent⟩
  else none

/-- The shortest decimal of the positive finite number with these bits: the first hit on ever finer
grids. -/
def shortest (tie : Tie) (bits : UInt64) : Option Decimal :=
  let r := Interval.ofBits bits
  (List.range 640).findSome? fun (i : Nat) => r.onGrid tie (309 - i)

/-- When a number is written positionally, and how the special numbers are written. -/
structure Layout where
  /-- The least position of the leading digit, counted from the point, that is not scientific. -/
  leastPosition : Int
  /-- The choice between two shortest decimals that are equally near. -/
  tie : Tie
  /-- What stands before an exponent that is not negative. -/
  exponentSign : String
  nan : String
  infinity : String
  negativeInfinity : String

/-- A decimal with a point in it, or in scientific notation if it is very large or very small. -/
def Decimal.render (layout : Layout) (d : Decimal) : String :=
  let digits := toString d.digits
  let position : Int := digits.length + d.exponent
  if 0 ≤ d.exponent && position ≤ 16 then
    digits ++ "".pushn '0' d.exponent.toNat ++ ".0"
  else if 0 < position && position ≤ 16 then
    String.ofList (digits.toList.take position.toNat) ++ "." ++
      String.ofList (digits.toList.drop position.toNat)
  else if layout.leastPosition ≤ position && position ≤ 0 then
    "0." ++ "".pushn '0' (-position).toNat ++ digits
  else
    let rest := String.ofList (digits.toList.drop 1)
    String.ofList (digits.toList.take 1) ++ (if rest.isEmpty then "" else "." ++ rest) ++ "e" ++
      (if 0 < position then layout.exponentSign else "") ++ toString (position - 1)

/-- A floating-point number by its shortest decimal. -/
def renderFloat (layout : Layout) (x : Float) : String :=
  let negative := x.toBits.toNat / (1 <<< 63) = 1
  if x.isNaN then layout.nan
  else if x.isInf then if negative then layout.negativeInfinity else layout.infinity
  else
    let sign := if negative then "-" else ""
    let magnitude := x.toBits % (1 <<< 63)
    let decimal := if magnitude = 0 then none else shortest layout.tie magnitude
    sign ++ (decimal.getD ⟨0, 0⟩).render layout

end Multiway.Text
