import Multiway.Tree.Transform

/-!
# Rules for values

The ready-made transforms: every value may stay, give way to the number of the call, be joined with
its key, or be combined with a constant. All of them count their calls.

* `ValueRule`: the rules;
* `ValueArith`: what keys and values have to offer;
* `ValueRule.transform`: the transform of a rule;
* `progression`: integer keys at equal distances.
-/

namespace Multiway

/-- A ready-made transform of values. -/
inductive ValueRule (V : Type) where
  /-- The value stays. -/
  | keep
  /-- The number of the call, counted from zero. -/
  | index
  /-- The value joined with its key. -/
  | key
  /-- The value plus a constant. -/
  | add (constant : V)
  /-- The value times a constant. -/
  | mul (constant : V)

/-- What values of type `V` under keys of type `K` offer to the rules. -/
class ValueArith (K V : Type) where
  ofIndex : Nat → V
  join : K → V → V
  add : V → V → V
  mul : V → V → V

/-- Words of 64 bits, which wrap. -/
instance : ValueArith Int64 Int64 where
  ofIndex n := Int64.ofNat n
  join k v := v + k
  add := (· + ·)
  mul := (· * ·)

/-- Texts are added by writing one after the other; they have no product. -/
instance : ValueArith String String where
  ofIndex n := toString n
  join k v := k ++ ":" ++ v
  add := (· ++ ·)
  mul v _ := v

instance : ValueArith Int64 Float where
  ofIndex n := Float.ofNat n
  join k v := v + k.toFloat
  add := (· + ·)
  mul := (· * ·)

/-- The transform of a rule; its state is the number of calls made. -/
def ValueRule.transform {K V : Type} [ValueArith K V] : ValueRule V → Transform Nat K V V
  | .keep, _, v, n => (v, n + 1)
  | .index, _, _, n => (ValueArith.ofIndex K n, n + 1)
  | .key, k, v, n => (ValueArith.join k v, n + 1)
  | .add a, _, v, n => (ValueArith.add K v a, n + 1)
  | .mul a, _, v, n => (ValueArith.mul K v a, n + 1)

/-- Key number `i` of an arithmetic progression, reduced to its remainder if there is a modulus. -/
def progression (start step : Int64) (modulus : Option Int) (i : Nat) : Int64 :=
  let key := start + Int64.ofNat i * step
  match modulus with
  | none => key
  | some m => Int64.ofInt (key.toInt % m)

end Multiway
