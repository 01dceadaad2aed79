import BlueprintPatch.Number.Binary64

/-! The shortest decimal that reads back as a given binary number, and its text: positional
between `1e-4` and `1e16`, with an exponent of at least two digits elsewhere. -/
namespace BlueprintPatch

/-- The number `digits * 10 ^ exponent`. -/
structure Decimal where
  digits : Nat
  exponent : Int
deriving DecidableEq, Repr

namespace Shortest

/-- A positive finite number `significand * 2 ^ exponent`; `narrow` says that the number below is
half as far away as the one above. -/
structure Target where
  significand : Nat
  exponent : Int
  narrow : Bool

/-- The target over the grid `10 ^ g`, as numerator and denominator. -/
def Target.over (t : Target) (g : Int) : Nat × Nat :=
  (t.significand * pow2 t.exponent.toNat * pow10 (-g).toNat,
    pow2 (-t.exponent).toNat * pow10 g.toNat)

/-- Whether `d` lies among the reals that round to the target: up to half way to either
neighbour, the ends included when the significand is even. -/
def Target.readsBack (t : Target) (d : Decimal) : Bool :=
  let (num, den) := t.over d.exponent
  let unit := num / t.significand
  let low := 4 * num - (if t.narrow then unit else 2 * unit)
  let high := 4 * num + 2 * unit
  let here := 4 * d.digits * den
  if t.significand % 2 = 0 then low ≤ here && here ≤ high else low < here && here < high

/-- The least `k` with `target < 10 ^ k`, from an estimate that is at most three too small. -/
def Target.decimalScale (t : Target) : Int :=
  let e : Int := t.significand.log2 + t.exponent
  let guess := e * 30103 / 100000 - 1
  let below (k : Int) : Bool := let (num, den) := t.over k; num < den
  match ([guess, guess + 1, guess + 2, guess + 3] : List Int).find? below with
  | some k => k
  | none => guess + 4

/-- The nearer of the target's two neighbours on the grid `10 ^ g` that reads back, a tie going
to the even one. -/
def Target.onGrid? (t : Target) (g : Int) : Option Decimal :=
  let (num, den) := t.over g
  let low := num / den
  let near := Binary64.roundRatio num den
  let far := if near = low then low + 1 else low
  if t.readsBack ⟨near, g⟩ then some ⟨near, g⟩
  else if t.readsBack ⟨far, g⟩ then some ⟨far, g⟩
  else none

/-- The decimal on the coarsest grid that reads back; seventeen digits are always enough, and the
exact value stands for the case that they were not. -/
def Target.select (t : Target) : Decimal :=
  let k := t.decimalScale
  match (List.range 17).findSome? (fun n => t.onGrid? (k - (n + 1 : Nat))) with
  | some d => d
  | none =>
    let g := min t.exponent 0
    let (num, den) := t.over g
    ⟨num / den, g⟩

/-- The same number without zeros at the end of its digits. -/
def Decimal.strip : Nat → Decimal → Decimal
  | 0, d => d
  | n + 1, d => if d.digits % 10 = 0 then strip n ⟨d.digits / 10, d.exponent + 1⟩ else d

def ofFinite (significand : Nat) (exponent : Int) : Decimal :=
  Decimal.strip 20 (Target.select ⟨significand, exponent, significand = pow2 52 ∧ -1074 < exponent⟩)

/-- The digits `ds` of a decimal with the point after the first `place` of them. -/
def positional (ds : List Char) (place : Int) : List Char :=
  if place ≤ 0 then '0' :: '.' :: (List.replicate (-place).toNat '0' ++ ds)
  else if ds.length ≤ place.toNat then
    ds ++ List.replicate (place.toNat - ds.length) '0' ++ ['.', '0']
  else ds.take place.toNat ++ '.' :: ds.drop place.toNat

def scientific (ds : List Char) (e : Int) : List Char :=
  let fraction := if ds.tail.isEmpty then [] else '.' :: ds.tail
  let width := Nat.toDigits 10 e.natAbs
  ds.take 1 ++ fraction ++ ['e', if e < 0 then '-' else '+']
    ++ List.replicate (2 - width.length) '0' ++ width

def layout (d : Decimal) : List Char :=
  let ds := Nat.toDigits 10 d.digits
  let e : Int := ds.length + d.exponent - 1
  if -4 ≤ e ∧ e < 16 then positional ds (e + 1) else scientific ds e

end Shortest

/-- The texts of the numbers that have no digits. -/
structure SpecialTexts where
  nan : String
  infinity : String

/-- The shortest text that reads back as `x`, its sign in front. -/
def Binary64.text (special : SpecialTexts) (x : Binary64) : String :=
  let sign (negative : Bool) := if negative then "-" else ""
  match x.meaning with
  | .nan => special.nan
  | .infinite negative => sign negative ++ special.infinity
  | .finite negative 0 _ => sign negative ++ "0.0"
  | .finite negative m e => sign negative ++ String.ofList (Shortest.layout (Shortest.ofFinite m e))

end BlueprintPatch
