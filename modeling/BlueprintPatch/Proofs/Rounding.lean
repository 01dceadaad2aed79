import BlueprintPatch.Number.Shortest
import Mathlib.Algebra.Order.Field.Power
import Mathlib.Data.Rat.Cast.Order
import Mathlib.Tactic.FieldSimp
import Mathlib.Tactic.Linarith
import Mathlib.Tactic.Positivity
import Mathlib.Tactic.Ring

/-! Rounding to binary numbers, over the rationals. A positive finite number is a target; the
rationals that it catches lie up to half way to its neighbours, and each of them, as a ratio or as a
decimal, is rounded to the target. -/
namespace BlueprintPatch

theorem pow10_eq (n : Nat) : pow10 n = 10 ^ n := rfl

theorem cast_pow2 (n : Nat) : ((pow2 n : Nat) : ℚ) = 2 ^ n := by simp [pow2]

theorem cast_pow10 (n : Nat) : ((pow10 n : Nat) : ℚ) = 10 ^ n := by simp [pow10]

theorem zpow_eq_ratio {b : ℚ} (hb : b ≠ 0) (e : Int) : b ^ e = b ^ e.toNat / b ^ (-e).toNat := by
  rw [← zpow_natCast b e.toNat, ← zpow_natCast b (-e).toNat, ← zpow_sub₀ hb]
  congr 1
  omega

theorem two_zpow_eq (e : Int) : (2 : ℚ) ^ e = (pow2 e.toNat : ℕ) / (pow2 (-e).toNat : ℕ) := by
  rw [cast_pow2, cast_pow2, zpow_eq_ratio (by norm_num)]

theorem ten_zpow_eq (e : Int) : (10 : ℚ) ^ e = (pow10 e.toNat : ℕ) / (pow10 (-e).toNat : ℕ) := by
  rw [cast_pow10, cast_pow10, zpow_eq_ratio (by norm_num)]

namespace Binary64

/-- The nearest natural number is the one at most a half away, and of two of them the even one. -/
theorem roundRatio_eq {num den n : Nat} (hden : 0 < den) (hlow : (n : ℚ) - 1 / 2 ≤ num / den)
    (hhigh : (num : ℚ) / den ≤ n + 1 / 2)
    (hodd : n % 2 = 1 → (n : ℚ) - 1 / 2 < num / den ∧ (num : ℚ) / den < n + 1 / 2) :
    roundRatio num den = n := by
  have hden' : (0 : ℚ) < den := by exact_mod_cast hden
  rw [le_div_iff₀ hden'] at hlow
  rw [div_le_iff₀ hden'] at hhigh
  rw [lt_div_iff₀ hden', div_lt_iff₀ hden'] at hodd
  have hlow : 2 * (n * den) ≤ 2 * num + den := by
    have h : (2 * (n * den) : ℚ) ≤ 2 * num + den := by linarith
    exact_mod_cast h
  have hhigh : 2 * num ≤ 2 * (n * den) + den := by
    have h : (2 * num : ℚ) ≤ 2 * (n * den) + den := by linarith
    exact_mod_cast h
  have hodd : n % 2 = 1 → 2 * (n * den) < 2 * num + den ∧ 2 * num < 2 * (n * den) + den := by
    intro hn
    have hlt : (2 * (n * den) : ℚ) < 2 * num + den := by linarith [hodd hn]
    have hgt : (2 * num : ℚ) < 2 * (n * den) + den := by linarith [hodd hn]
    exact ⟨by exact_mod_cast hlt, by exact_mod_cast hgt⟩
  have hnum : num / den * den + num % den = num := Nat.div_add_mod' num den
  have hrem : num % den < den := Nat.mod_lt num hden
  have hle : num / den ≤ n := by
    by_contra h
    have := Nat.mul_le_mul_right den (show n + 1 ≤ num / den by omega)
    rw [Nat.add_mul] at this
    omega
  have hge : n ≤ num / den + 1 := by
    by_contra h
    have := Nat.mul_le_mul_right den (show num / den + 2 ≤ n by omega)
    rw [Nat.add_mul] at this
    omega
  unfold roundRatio
  obtain h | h : num / den = n ∨ num / den + 1 = n := by omega
  · rw [h] at hnum ⊢
    rw [if_pos]
    omega
  · have hprod : n * den = num / den * den + den := by rw [← h, Nat.add_mul, Nat.one_mul]
    rw [if_neg, h]
    omega

theorem binaryScale_spec {num den : Nat} (hnum : 0 < num) (hden : 0 < den) :
    (2 : ℚ) ^ binaryScale num den ≤ num / den ∧
      (num : ℚ) / den < 2 ^ (binaryScale num den + 1) := by
  have hden' : (0 : ℚ) < den := by exact_mod_cast hden
  have hbounds : ∀ n : Nat, 0 < n → (2 : ℚ) ^ (n.log2 : ℤ) ≤ n ∧ (n : ℚ) < 2 ^ (n.log2 + 1 : ℤ) := by
    intro n hn
    have hlow := Nat.log2_self_le (Nat.ne_of_gt hn)
    have hhigh := Nat.lt_log2_self (n := n)
    constructor
    · rw [zpow_natCast]
      exact_mod_cast hlow
    · exact_mod_cast hhigh
  obtain ⟨hnumLow, hnumHigh⟩ := hbounds num hnum
  obtain ⟨hdenLow, hdenHigh⟩ := hbounds den hden
  have hlow : (2 : ℚ) ^ ((num.log2 : ℤ) - den.log2 - 1) ≤ num / den := by
    rw [le_div_iff₀ hden']
    calc (2 : ℚ) ^ ((num.log2 : ℤ) - den.log2 - 1) * den
        ≤ 2 ^ ((num.log2 : ℤ) - den.log2 - 1) * 2 ^ (den.log2 + 1 : ℤ) := by gcongr
      _ = 2 ^ (num.log2 : ℤ) := by rw [← zpow_add₀ (by norm_num)]; congr 1; omega
      _ ≤ num := hnumLow
  have hhigh : (num : ℚ) / den < 2 ^ ((num.log2 : ℤ) - den.log2 + 1) := by
    rw [div_lt_iff₀ hden']
    calc (num : ℚ) < 2 ^ (num.log2 + 1 : ℤ) := hnumHigh
      _ = 2 ^ ((num.log2 : ℤ) - den.log2 + 1) * 2 ^ (den.log2 : ℤ) := by
        rw [← zpow_add₀ (by norm_num)]; congr 1; omega
      _ ≤ 2 ^ ((num.log2 : ℤ) - den.log2 + 1) * den := by gcongr
  have htest : den * pow2 ((num.log2 : ℤ) - den.log2).toNat ≤
      num * pow2 (-((num.log2 : ℤ) - den.log2)).toNat ↔
      (2 : ℚ) ^ ((num.log2 : ℤ) - den.log2) ≤ num / den := by
    have hpow : (0 : ℚ) < (pow2 (-((num.log2 : ℤ) - den.log2)).toNat : ℕ) := by
      exact_mod_cast pow2_pos _
    rw [two_zpow_eq, div_le_div_iff₀ hpow hden', mul_comm ((pow2 _ : ℕ) : ℚ)]
    exact_mod_cast Iff.rfl
  unfold binaryScale
  simp only [htest]
  split
  · next h => exact ⟨h, hhigh⟩
  · next h =>
    refine ⟨hlow, ?_⟩
    rw [sub_add_cancel]
    exact not_le.mp h

end Binary64

namespace Shortest.Target

/-- A target that a finite number has. -/
structure Regular (t : Target) : Prop where
  pos : 0 < t.significand
  lt : t.significand < 2 ^ 53
  least : -1074 ≤ t.exponent
  most : t.exponent ≤ 971
  full : 2 ^ 52 ≤ t.significand ∨ t.exponent = -1074
  narrow : t.narrow = true ↔ t.significand = 2 ^ 52 ∧ -1074 < t.exponent

def value (t : Target) : ℚ := t.significand * 2 ^ t.exponent

/-- How far the numbers that round to the target reach below it, as a part of its last place. -/
def reach (t : Target) : ℚ := if t.narrow then 1 / 4 else 1 / 2

/-- Whether a rational rounds to the target. -/
structure Catches (t : Target) (q : ℚ) : Prop where
  low : (t.significand - t.reach) * 2 ^ t.exponent ≤ q
  high : q ≤ (t.significand + 1 / 2) * 2 ^ t.exponent
  odd : t.significand % 2 = 1 →
    (t.significand - t.reach) * 2 ^ t.exponent < q ∧ q < (t.significand + 1 / 2) * 2 ^ t.exponent

/-- The place of the target in the sequence of all magnitudes. -/
def magnitude (t : Target) : Nat := (t.exponent + 1074).toNat * pow2 52 + t.significand

variable {t : Target} {q : ℚ}

theorem reach_le (t : Target) : t.reach ≤ 1 / 2 := by
  unfold reach
  split <;> norm_num

theorem reach_pos (t : Target) : 0 < t.reach := by
  unfold reach
  split <;> norm_num

theorem Catches.low_half (h : t.Catches q) :
    (t.significand - 1 / 2 : ℚ) * 2 ^ t.exponent ≤ q := by
  have hpow : (0 : ℚ) < 2 ^ t.exponent := by positivity
  have := mul_le_mul_of_nonneg_right (t.reach_le) hpow.le
  linarith [h.low]

theorem Regular.least_le (ht : t.Regular) (h : t.Catches q) : (2 : ℚ) ^ (-1075 : ℤ) ≤ q := by
  have hone : (1 : ℚ) ≤ t.significand := by exact_mod_cast ht.pos
  have hpow : (2 : ℚ) ^ (-1074 : ℤ) ≤ 2 ^ t.exponent := zpow_le_zpow_right₀ (by norm_num) ht.least
  calc (2 : ℚ) ^ (-1075 : ℤ) = 1 / 2 * 2 ^ (-1074 : ℤ) := by
        rw [show (-1075 : ℤ) = -1074 - 1 by norm_num, zpow_sub_one₀ (by norm_num)]
        ring
    _ ≤ (t.significand - 1 / 2) * 2 ^ t.exponent :=
        mul_le_mul (by linarith) hpow (by positivity) (by linarith)
    _ ≤ q := h.low_half

theorem Regular.lt_of_catches (ht : t.Regular) (h : t.Catches q) : q < 2 ^ (t.exponent + 53) := by
  have hlt : (t.significand : ℚ) + 1 ≤ 2 ^ 53 := by exact_mod_cast ht.lt
  calc q ≤ (t.significand + 1 / 2) * 2 ^ t.exponent := h.high
    _ < 2 ^ 53 * 2 ^ t.exponent := by gcongr; linarith
    _ = 2 ^ (t.exponent + 53) := by rw [zpow_add₀ (by norm_num), mul_comm]; norm_num

theorem Regular.magnitude_lt (ht : t.Regular) : t.magnitude < Binary64.infinite := by
  have := ht.lt
  have := ht.most
  have := ht.least
  simp only [magnitude, pow2, Binary64.infinite, Nat.pow_eq]
  omega

/-- The exponent that rounding chooses for what the target catches: the target's own, or the one
below for what lies under a power of two. -/
theorem Regular.scale (ht : t.Regular) (h : t.Catches q) {k : Int} (hlow : (2 : ℚ) ^ k ≤ q)
    (hhigh : q < 2 ^ (k + 1)) :
    max (k - 52) (-1074) = t.exponent ∨
      max (k - 52) (-1074) = t.exponent - 1 ∧ t.narrow = true ∧ q < 2 ^ (t.exponent + 52) := by
  have hleast := ht.least
  have hupper : k < t.exponent + 53 :=
    (zpow_lt_zpow_iff_right₀ one_lt_two).mp (hlow.trans_lt (ht.lt_of_catches h))
  by_cases hk : t.exponent = max (k - 52) (-1074)
  · exact .inl hk.symm
  · have hfull : (2 : ℚ) ^ 52 ≤ t.significand := by
      exact_mod_cast ht.full.resolve_right (by omega)
    have hpow : (0 : ℚ) < 2 ^ t.exponent := by positivity
    have hbelow : q < 2 ^ (t.exponent + 52) :=
      hhigh.trans_le (zpow_le_zpow_right₀ (by norm_num) (by omega))
    have hsplit : (2 : ℚ) ^ (t.exponent + 52) = 2 ^ 52 * 2 ^ t.exponent := by
      rw [zpow_add₀ (by norm_num), mul_comm]
      norm_num
    have hlt : (t.significand - 1 / 2 : ℚ) < 2 ^ 52 := by
      refine lt_of_mul_lt_mul_right ?_ hpow.le
      exact hsplit ▸ h.low_half.trans_lt hbelow
    have hsignificand : t.significand = 2 ^ 52 := by
      have hle : t.significand < 2 ^ 52 + 1 := by
        have hlt' : (t.significand : ℚ) < 2 ^ 52 + 1 := by linarith
        exact_mod_cast hlt'
      have hge : 2 ^ 52 ≤ t.significand := by exact_mod_cast hfull
      omega
    have hlower : t.exponent + 51 < k + 1 := by
      refine (zpow_lt_zpow_iff_right₀ one_lt_two).mp (lt_of_le_of_lt ?_ hhigh)
      calc (2 : ℚ) ^ (t.exponent + 51) = 2 ^ 51 * 2 ^ t.exponent := by
            rw [zpow_add₀ (by norm_num), mul_comm]
            norm_num
        _ ≤ (t.significand - 1 / 2) * 2 ^ t.exponent := by
            refine mul_le_mul_of_nonneg_right ?_ hpow.le
            linarith
        _ ≤ q := h.low_half
    exact .inr ⟨by omega, ht.narrow.mpr ⟨hsignificand, by omega⟩, hbelow⟩

end Shortest.Target

namespace Binary64

open Shortest

theorem cast_scaled (num den : Nat) (e : Int) :
    ((num * pow2 (-e).toNat : ℕ) : ℚ) / (den * pow2 e.toNat : ℕ) = num / den / 2 ^ e := by
  rw [two_zpow_eq]
  have h1 : (0 : ℚ) < (pow2 e.toNat : ℕ) := by exact_mod_cast pow2_pos _
  have h2 : (0 : ℚ) < (pow2 (-e).toNat : ℕ) := by exact_mod_cast pow2_pos _
  push_cast
  field_simp

section
variable {t : Target} {num den : Nat} (hden : 0 < den) (h : t.Catches (num / den))
include hden h

theorem roundRatio_of_catches :
    roundRatio (num * pow2 (-t.exponent).toNat) (den * pow2 t.exponent.toNat) = t.significand := by
  have hpow : (0 : ℚ) < 2 ^ t.exponent := by positivity
  refine roundRatio_eq (Nat.mul_pos hden (pow2_pos _)) ?_ ?_ ?_
  · rw [cast_scaled, le_div_iff₀ hpow]
    exact h.low_half
  · rw [cast_scaled, div_le_iff₀ hpow]
    exact h.high
  · intro hodd
    obtain ⟨hgt, hlt⟩ := h.odd hodd
    rw [cast_scaled, lt_div_iff₀ hpow, div_lt_iff₀ hpow]
    refine ⟨lt_of_le_of_lt ?_ hgt, hlt⟩
    exact mul_le_mul_of_nonneg_right (by linarith [t.reach_le]) hpow.le

/-- What lies under a power of two is rounded up to it on the grid of the numbers below. -/
theorem roundRatio_of_catches_below (hnarrow : t.narrow = true)
    (hsignificand : t.significand = 2 ^ 52) (hlt : (num / den : ℚ) < 2 ^ (t.exponent + 52)) :
    roundRatio (num * pow2 (-(t.exponent - 1)).toNat) (den * pow2 (t.exponent - 1).toNat) =
      2 ^ 53 := by
  have hpow : (0 : ℚ) < 2 ^ (t.exponent - 1) := by positivity
  have hdouble : (2 : ℚ) ^ t.exponent = 2 * 2 ^ (t.exponent - 1) := by
    rw [zpow_sub_one₀ (by norm_num)]
    ring
  refine roundRatio_eq (Nat.mul_pos hden (pow2_pos _)) ?_ ?_ (by norm_num)
  · have hreach : t.reach = 1 / 4 := by rw [Target.reach, if_pos hnarrow]
    have hcatch := h.low
    rw [hreach, hsignificand, hdouble] at hcatch
    rw [cast_scaled, le_div_iff₀ hpow]
    push_cast at hcatch ⊢
    linarith
  · have hsplit : (2 : ℚ) ^ (t.exponent + 52) = 2 ^ 53 * 2 ^ (t.exponent - 1) := by
      rw [show t.exponent + 52 = 53 + (t.exponent - 1) by ring, zpow_add₀ (by norm_num)]
      norm_num
    rw [cast_scaled, div_le_iff₀ hpow]
    push_cast
    linarith

/-- What a target catches is rounded to it, whichever ratio writes it. -/
theorem ofRatio_of_catches (ht : t.Regular) (negative : Bool) :
    ofRatio negative num den = ofMagnitude negative t.magnitude := by
  have hpos : (0 : ℚ) < num / den := lt_of_lt_of_le (by positivity) (ht.least_le h)
  have hnum : 0 < num := by
    refine Nat.pos_of_ne_zero ?_
    rintro rfl
    simp at hpos
  obtain ⟨hlow, hhigh⟩ := binaryScale_spec hnum hden
  have hmagnitude := ht.magnitude_lt
  suffices hround : ∀ e, e = max (binaryScale num den - 52) (-1074) →
      (e + 1074).toNat * pow2 52 + roundRatio (num * pow2 (-e).toNat) (den * pow2 e.toNat) =
        t.magnitude by
    simp only [ofRatio, if_neg (Nat.ne_of_gt hnum), hround _ rfl, min_eq_left hmagnitude.le]
  intro e he
  rcases ht.scale h hlow hhigh with hown | ⟨hbelow, hnarrow, hlt⟩
  · obtain rfl : e = t.exponent := he.trans hown
    rw [roundRatio_of_catches hden h, Target.magnitude]
  · obtain rfl : e = t.exponent - 1 := he.trans hbelow
    obtain ⟨hsignificand, hexponent⟩ := ht.narrow.mp hnarrow
    rw [roundRatio_of_catches_below hden h hnarrow hsignificand hlt, Target.magnitude,
      hsignificand]
    simp only [pow2, Nat.pow_eq]
    omega

end

/-- The powers of ten at which the test for infinity and zero comes first lie outside the range. -/
theorem range_lt_pow10 :
    (10 : ℚ) ^ (-330 : ℤ) < 2 ^ (-1075 : ℤ) ∧ (2 : ℚ) ^ (1024 : ℤ) < 10 ^ (310 : ℤ) := by
  constructor
  · have h : ((10 : ℚ) ^ (-30 : ℤ)) ^ 11 < (2 ^ (-98 : ℤ)) ^ 11 := by gcongr; norm_num
    rw [← zpow_natCast, ← zpow_natCast, ← zpow_mul, ← zpow_mul] at h
    exact h.trans_le (zpow_le_zpow_right₀ (by norm_num) (by norm_num))
  · have h : ((2 : ℚ) ^ (205 : ℤ)) ^ 5 < (10 ^ (62 : ℤ)) ^ 5 := by gcongr; norm_num
    rw [← zpow_natCast, ← zpow_natCast, ← zpow_mul, ← zpow_mul] at h
    exact lt_of_le_of_lt (zpow_le_zpow_right₀ (by norm_num) (by norm_num)) h

theorem lt_pow10_log2 (n : Nat) : (n : ℚ) < 10 ^ ((n.log2 / 3 + 1 : Nat) : ℤ) := by
  have hlt : n < 10 ^ (n.log2 / 3 + 1) :=
    calc n < 2 ^ (n.log2 + 1) := Nat.lt_log2_self
      _ ≤ 2 ^ (3 * (n.log2 / 3 + 1)) := Nat.pow_le_pow_right (by norm_num) (by omega)
      _ = 8 ^ (n.log2 / 3 + 1) := by rw [Nat.pow_mul]
      _ ≤ 10 ^ (n.log2 / 3 + 1) := Nat.pow_le_pow_left (by norm_num) _
  rw [zpow_natCast]
  exact_mod_cast hlt

theorem ofDecimal_of_catches {t : Target} (ht : t.Regular) {digits : Nat} {exponent : Int}
    (h : t.Catches (digits * 10 ^ exponent)) (negative : Bool) :
    ofDecimal negative digits exponent = ofMagnitude negative t.magnitude := by
  have hleast : (10 : ℚ) ^ (-330 : ℤ) < digits * 10 ^ exponent :=
    range_lt_pow10.1.trans_le (ht.least_le h)
  have hmost : (digits : ℚ) * 10 ^ exponent < 10 ^ (310 : ℤ) :=
    calc (digits : ℚ) * 10 ^ exponent < 2 ^ (t.exponent + 53) := ht.lt_of_catches h
      _ ≤ 2 ^ (1024 : ℤ) := zpow_le_zpow_right₀ (by norm_num) (by linarith [ht.most])
      _ < 10 ^ (310 : ℤ) := range_lt_pow10.2
  have hdigits : digits ≠ 0 := by
    rintro rfl
    have : (0 : ℚ) < 10 ^ (-330 : ℤ) := by positivity
    simp only [Nat.cast_zero, zero_mul] at hleast
    linarith
  have hpow : (0 : ℚ) < 10 ^ exponent := by positivity
  have hexponent : ¬ 310 < exponent := by
    intro hgt
    have hone : (1 : ℚ) ≤ digits := by exact_mod_cast Nat.one_le_iff_ne_zero.mpr hdigits
    have hle : (10 : ℚ) ^ (310 : ℤ) ≤ 10 ^ exponent := zpow_le_zpow_right₀ (by norm_num) hgt.le
    exact absurd hmost (not_lt.mpr (hle.trans (le_mul_of_one_le_left hpow.le hone)))
  have hsum : ¬ ((digits.log2 / 3 + 1 : Nat) : ℤ) + exponent < -330 := by
    intro hlt
    have hprod : (digits : ℚ) * 10 ^ exponent <
        10 ^ (((digits.log2 / 3 + 1 : Nat) : ℤ) + exponent) := by
      rw [zpow_add₀ (by norm_num)]
      exact mul_lt_mul_of_pos_right (lt_pow10_log2 digits) hpow
    have hle : (10 : ℚ) ^ (((digits.log2 / 3 + 1 : Nat) : ℤ) + exponent) ≤ 10 ^ (-330 : ℤ) :=
      zpow_le_zpow_right₀ (by norm_num) hlt.le
    linarith
  have hratio : ((digits * pow10 exponent.toNat : ℕ) : ℚ) / (pow10 (-exponent).toNat : ℕ) =
      digits * 10 ^ exponent := by
    rw [ten_zpow_eq]
    push_cast
    ring
  simp only [ofDecimal, if_neg hdigits, if_neg hexponent, if_neg hsum]
  exact ofRatio_of_catches (pow10_pos _) (hratio ▸ h) ht negative

end Binary64

end BlueprintPatch
