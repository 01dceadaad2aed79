import BlueprintPatch.Number.Power

/-! Binary floating-point numbers of 64 bits, kept as their bits and computed in exact natural
arithmetic: a ratio or a decimal is rounded once, to the nearest number, a tie going to the even
significand. -/
namespace BlueprintPatch

structure Binary64 where
  bits : UInt64
deriving DecidableEq, Repr, Inhabited

namespace Binary64

/-- What a pattern of bits stands for; a finite number is `significand * 2 ^ exponent`. -/
inductive Meaning
  | nan
  | infinite (negative : Bool)
  | finite (negative : Bool) (significand : Nat) (exponent : Int)
deriving DecidableEq, Repr

def signBit : Nat := pow2 63

/-- The magnitude of infinity; every larger one is no number. -/
def infinite : Nat := 0x7FF0000000000000

def ofMagnitude (negative : Bool) (magnitude : Nat) : Binary64 :=
  ⟨UInt64.ofNat (magnitude + if negative then signBit else 0)⟩

def negative (x : Binary64) : Bool := signBit ≤ x.bits.toNat

def magnitude (x : Binary64) : Nat := x.bits.toNat % signBit

def zero : Binary64 := ⟨0⟩

def nan : Binary64 := ofMagnitude false 0x7FF8000000000000

def infinity (negative : Bool) : Binary64 := ofMagnitude negative infinite

def isNaN (x : Binary64) : Bool := infinite < x.magnitude

def isZero (x : Binary64) : Bool := x.magnitude == 0

def isFinite (x : Binary64) : Bool := x.magnitude < infinite

def meaning (x : Binary64) : Meaning :=
  let field : Nat := x.magnitude / pow2 52
  let fraction := x.magnitude % pow2 52
  if x.isNaN then .nan
  else if x.magnitude = infinite then .infinite x.negative
  else if field = 0 then .finite x.negative fraction (-1074)
  else .finite x.negative (pow2 52 + fraction) ((field : Int) - 1075)

/-- The natural number nearest to `num / den`; a tie goes to the even neighbour. -/
def roundRatio (num den : Nat) : Nat :=
  let q := num / den
  let r := num % den
  if 2 * r < den ∨ 2 * r = den ∧ q % 2 = 0 then q else q + 1

/-- The greatest `k` with `2 ^ k ≤ num / den`, for positive `num` and `den`. -/
def binaryScale (num den : Nat) : Int :=
  let k : Int := num.log2 - den.log2
  if den * pow2 k.toNat ≤ num * pow2 (-k).toNat then k else k - 1

/-- The number nearest to `num / den`. Its bits are the place of the rounded significand in the
sequence of all magnitudes, so a significand that rounds up to the next power of two needs no
case of its own. -/
def ofRatio (negative : Bool) (num den : Nat) : Binary64 :=
  if num = 0 then ofMagnitude negative 0
  else
    let e := max (binaryScale num den - 52) (-1074)
    let m := roundRatio (num * pow2 (-e).toNat) (den * pow2 e.toNat)
    ofMagnitude negative (min ((e + 1074).toNat * pow2 52 + m) infinite)

/-- The number nearest to `digits * 10 ^ exponent`. Beyond the bounds tested first the answer is
infinity or zero whatever the digits are. -/
def ofDecimal (negative : Bool) (digits : Nat) (exponent : Int) : Binary64 :=
  if digits = 0 then ofMagnitude negative 0
  else if 310 < exponent then infinity negative
  else if (digits.log2 / 3 + 1 : Nat) + exponent < -330 then ofMagnitude negative 0
  else ofRatio negative (digits * pow10 exponent.toNat) (pow10 (-exponent).toNat)

/-- The number nearest to an integer, unless that would be infinity. -/
def ofInt? (n : Int) : Option Binary64 :=
  let x := ofRatio (n < 0) n.natAbs 1
  if x.isFinite then some x else none

/-- The integer a number is equal to. -/
def toInt? (x : Binary64) : Option Int :=
  match x.meaning with
  | .finite negative m e =>
    let below := pow2 (-e).toNat
    if m % below = 0 then
      let n : Int := (m / below * pow2 e.toNat : Nat)
      some (if negative then -n else n)
    else none
  | _ => none

end Binary64

end BlueprintPatch
