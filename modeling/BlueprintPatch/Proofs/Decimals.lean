import BlueprintPatch.Proofs.Rounding
import Mathlib.Data.Nat.Cast.Field

/-! The decimal that is chosen for a binary number: it is a decimal that rounds to the number, so
the number can be had back from it. -/
namespace BlueprintPatch

def Decimal.value (d : Decimal) : ℚ := d.digits * 10 ^ d.exponent

namespace Shortest

variable {t : Target}

namespace Target

theorem den_pos (t : Target) (g : Int) : 0 < (t.over g).2 :=
  Nat.mul_pos (pow2_pos _) (pow10_pos _)

theorem over_eq (t : Target) (g : Int) : ((t.over g).1 : ℚ) / (t.over g).2 = t.value / 10 ^ g := by
  have h2 : (0 : ℚ) < (pow2 (-t.exponent).toNat : ℕ) := by exact_mod_cast pow2_pos _
  have h10 : (0 : ℚ) < (pow10 (-g).toNat : ℕ) := by exact_mod_cast pow10_pos _
  have h10' : (0 : ℚ) < (pow10 g.toNat : ℕ) := by exact_mod_cast pow10_pos _
  rw [value, two_zpow_eq, ten_zpow_eq]
  simp only [Target.over]
  push_cast
  field_simp

/-- The unit of the last place over the grid. -/
def unit (t : Target) (g : Int) : Nat := (t.over g).1 / t.significand

theorem over_unit (ht : 0 < t.significand) (g : Int) :
    (t.over g).1 = t.significand * t.unit g := by
  have hnum : (t.over g).1 = t.significand * (pow2 t.exponent.toNat * pow10 (-g).toNat) :=
    Nat.mul_assoc _ _ _
  rw [unit, hnum, Nat.mul_div_cancel_left _ ht]

theorem unit_eq (ht : 0 < t.significand) (g : Int) :
    (2 : ℚ) ^ t.exponent = t.unit g / (t.over g).2 * 10 ^ g := by
  have hsignificand : (t.significand : ℚ) ≠ 0 := by exact_mod_cast Nat.ne_of_gt ht
  have hgrid : (10 : ℚ) ^ g ≠ 0 := by positivity
  have hover := t.over_eq g
  rw [over_unit ht g, Nat.cast_mul, mul_div_assoc, value, mul_div_assoc] at hover
  rw [mul_left_cancel₀ hsignificand hover]
  field_simp

theorem catches_value (t : Target) : t.Catches t.value := by
  have hpow : (0 : ℚ) < 2 ^ t.exponent := by positivity
  have hreach := t.reach_pos
  have hlow : (t.significand - t.reach) * 2 ^ t.exponent < t.value :=
    mul_lt_mul_of_pos_right (by linarith) hpow
  have hhigh : t.value < (t.significand + 1 / 2) * 2 ^ t.exponent :=
    mul_lt_mul_of_pos_right (by linarith) hpow
  exact ⟨hlow.le, hhigh.le, fun _ => ⟨hlow, hhigh⟩⟩

/-- The bounds of the test for reading back, over the grid of the decimal. -/
theorem readsBack_eq (ht : 0 < t.significand) (d : Decimal) :
    t.readsBack d = true ↔
      if t.significand % 2 = 0 then
        (t.significand - t.reach) * t.unit d.exponent ≤ (d.digits * (t.over d.exponent).2 : ℚ) ∧
          (d.digits * (t.over d.exponent).2 : ℚ) ≤ (t.significand + 1 / 2) * t.unit d.exponent
      else
        (t.significand - t.reach) * t.unit d.exponent < (d.digits * (t.over d.exponent).2 : ℚ) ∧
          (d.digits * (t.over d.exponent).2 : ℚ) < (t.significand + 1 / 2) * t.unit d.exponent := by
  have hunit : t.unit d.exponent ≤ (t.over d.exponent).1 := Nat.div_le_self _ _
  have hnum : ((t.over d.exponent).1 : ℚ) = t.significand * t.unit d.exponent := by
    exact_mod_cast over_unit ht d.exponent
  have hhere : ((4 * d.digits * (t.over d.exponent).2 : ℕ) : ℚ) =
      4 * (d.digits * (t.over d.exponent).2) := by push_cast; ring
  have hhigh : ((4 * (t.over d.exponent).1 + 2 * t.unit d.exponent : ℕ) : ℚ) =
      4 * ((t.significand + 1 / 2) * t.unit d.exponent) := by push_cast; rw [hnum]; ring
  have hlow : ((4 * (t.over d.exponent).1 -
      (if t.narrow then t.unit d.exponent else 2 * t.unit d.exponent) : ℕ) : ℚ) =
        4 * ((t.significand - t.reach) * t.unit d.exponent) := by
    cases hnarrow : t.narrow
    · have hle : 2 * t.unit d.exponent ≤ 4 * (t.over d.exponent).1 := by omega
      simp only [Bool.false_eq_true, if_false, Nat.cast_sub hle, reach, hnarrow]
      push_cast
      rw [hnum]
      ring
    · have hle : t.unit d.exponent ≤ 4 * (t.over d.exponent).1 := by omega
      simp only [if_true, Nat.cast_sub hle, reach, hnarrow]
      push_cast
      rw [hnum]
      ring
  have hfour : ∀ {a b : ℕ} {x y : ℚ}, (a : ℚ) = 4 * x → (b : ℚ) = 4 * y →
      (a ≤ b ↔ x ≤ y) ∧ (a < b ↔ x < y) := by
    intro a b x y ha hb
    rw [← Nat.cast_le (α := ℚ), ← Nat.cast_lt (α := ℚ), ha, hb]
    exact ⟨mul_le_mul_iff_right₀ (by norm_num), mul_lt_mul_iff_right₀ (by norm_num)⟩
  unfold readsBack
  simp only [← unit.eq_def]
  split
  · rw [Bool.and_eq_true, decide_eq_true_eq, decide_eq_true_eq, (hfour hlow hhere).1,
      (hfour hhere hhigh).1]
  · rw [Bool.and_eq_true, decide_eq_true_eq, decide_eq_true_eq, (hfour hlow hhere).2,
      (hfour hhere hhigh).2]

theorem catches_of_readsBack (ht : 0 < t.significand) {d : Decimal} (h : t.readsBack d = true) :
    t.Catches d.value := by
  have hden : (0 : ℚ) < (t.over d.exponent).2 := by exact_mod_cast t.den_pos d.exponent
  have hgrid : (0 : ℚ) < 10 ^ d.exponent := by positivity
  have hscale : ∀ a : ℚ, a * 2 ^ t.exponent =
      a * t.unit d.exponent / (t.over d.exponent).2 * 10 ^ d.exponent := by
    intro a
    rw [unit_eq ht d.exponent]
    ring
  have hbounds := (readsBack_eq ht d).mp h
  split at hbounds
  · next heven =>
    refine ⟨?_, ?_, by omega⟩
    · rw [hscale, Decimal.value, mul_le_mul_iff_left₀ hgrid, div_le_iff₀ hden]
      exact hbounds.1
    · rw [hscale, Decimal.value, mul_le_mul_iff_left₀ hgrid, le_div_iff₀ hden]
      exact hbounds.2
  · have hlow : (t.significand - t.reach) * 2 ^ t.exponent < d.value := by
      rw [hscale, Decimal.value, mul_lt_mul_iff_left₀ hgrid, div_lt_iff₀ hden]
      exact hbounds.1
    have hhigh : d.value < (t.significand + 1 / 2) * 2 ^ t.exponent := by
      rw [hscale, Decimal.value, mul_lt_mul_iff_left₀ hgrid, lt_div_iff₀ hden]
      exact hbounds.2
    exact ⟨hlow.le, hhigh.le, fun _ => ⟨hlow, hhigh⟩⟩

theorem readsBack_of_onGrid? {g : Int} {d : Decimal} (h : t.onGrid? g = some d) :
    t.readsBack d = true := by
  have hfirst : ∀ {near far : Decimal}, (if t.readsBack near then some near
      else if t.readsBack far then some far else none) = some d → t.readsBack d = true := by
    intro near far h
    split at h
    · next hnear => exact Option.some.inj h ▸ hnear
    · split at h
      · next hfar => exact Option.some.inj h ▸ hfar
      · cases h
  exact hfirst h

theorem value_exact (t : Target) :
    Decimal.value ⟨(t.over (min t.exponent 0)).1 / (t.over (min t.exponent 0)).2,
      min t.exponent 0⟩ = t.value := by
  have hden : (t.over (min t.exponent 0)).2 = 2 ^ (-t.exponent).toNat := by
    have hg : (min t.exponent 0).toNat = 0 := by omega
    simp [Target.over, hg, pow2, pow10]
  have hnum : (t.over (min t.exponent 0)).1 =
      t.significand * pow2 t.exponent.toNat * (2 ^ (-t.exponent).toNat * 5 ^ (-t.exponent).toNat) := by
    have hg : (-min t.exponent 0).toNat = (-t.exponent).toNat := by omega
    rw [← Nat.mul_pow]
    simp [Target.over, hg, pow10]
  have hdvd : (t.over (min t.exponent 0)).2 ∣ (t.over (min t.exponent 0)).1 := by
    rw [hden, hnum, Nat.mul_left_comm]
    exact Nat.dvd_mul_right _ _
  have hden' : ((t.over (min t.exponent 0)).2 : ℚ) ≠ 0 := by
    exact_mod_cast Nat.ne_of_gt (t.den_pos _)
  have hgrid : (10 : ℚ) ^ min t.exponent 0 ≠ 0 := by positivity
  rw [Decimal.value, Nat.cast_div hdvd hden', over_eq, div_mul_cancel₀ _ hgrid]

theorem catches_select (ht : 0 < t.significand) : t.Catches t.select.value := by
  simp only [select]
  split
  · next d hd =>
    obtain ⟨n, -, hn⟩ := List.exists_of_findSome?_eq_some hd
    exact catches_of_readsBack ht (readsBack_of_onGrid? hn)
  · simp only [value_exact]
    exact t.catches_value

end Target

theorem value_strip (n : Nat) (d : Decimal) : (Decimal.strip n d).value = d.value := by
  induction n generalizing d with
  | zero => rfl
  | succ n ih =>
    unfold Decimal.strip
    split
    · next hzero =>
      have hdigits : (d.digits : ℚ) = (d.digits / 10 : ℕ) * 10 := by
        exact_mod_cast (Nat.div_mul_cancel (Nat.dvd_of_mod_eq_zero hzero)).symm
      rw [ih, Decimal.value, Decimal.value, hdigits, zpow_add_one₀ (by norm_num)]
      ring
    · rfl

def targetOf (significand : Nat) (exponent : Int) : Target :=
  ⟨significand, exponent, significand = pow2 52 ∧ -1074 < exponent⟩

theorem narrow_targetOf (significand : Nat) (exponent : Int) :
    (targetOf significand exponent).narrow = true ↔ significand = 2 ^ 52 ∧ -1074 < exponent :=
  decide_eq_true_iff

theorem catches_ofFinite {significand : Nat} (h : 0 < significand) (exponent : Int) :
    (targetOf significand exponent).Catches (ofFinite significand exponent).value := by
  rw [ofFinite, value_strip]
  exact Target.catches_select h

theorem digits_ofFinite_pos {significand : Nat} {exponent : Int} (h : 0 < significand) :
    0 < (ofFinite significand exponent).digits := by
  have hcatches := (catches_ofFinite h exponent).low_half
  have hone : (1 : ℚ) ≤ (targetOf significand exponent).significand := by exact_mod_cast h
  have hpow : (0 : ℚ) < 2 ^ (targetOf significand exponent).exponent := by positivity
  refine Nat.pos_of_ne_zero fun hzero => ?_
  rw [Decimal.value, hzero, Nat.cast_zero, zero_mul] at hcatches
  nlinarith

end Shortest

namespace Binary64

open Shortest

theorem ofMagnitude_magnitude (x : Binary64) : ofMagnitude x.negative x.magnitude = x := by
  have hlt := x.bits.toNat_lt
  have hsign : x.negative = true ↔ 2 ^ 63 ≤ x.bits.toNat := decide_eq_true_iff
  have hmagnitude : x.magnitude = x.bits.toNat % 2 ^ 63 := rfl
  have hbits : x.magnitude + (if x.negative then 2 ^ 63 else 0) = x.bits.toNat := by
    split
    · next h => have := hsign.mp h; omega
    · next h => have := mt hsign.mpr h; omega
  calc ofMagnitude x.negative x.magnitude = ⟨UInt64.ofNat x.bits.toNat⟩ := by rw [← hbits]; rfl
    _ = x := by rw [UInt64.ofNat_toNat]

theorem negative_of_meaning {x : Binary64} {negative : Bool} {significand : Nat} {exponent : Int}
    (h : x.meaning = .finite negative significand exponent) : x.negative = negative := by
  simp only [meaning] at h
  split at h
  · cases h
  · split at h
    · cases h
    · split at h <;> cases h <;> rfl

theorem magnitude_of_meaning {x : Binary64} {negative : Bool} {significand : Nat} {exponent : Int}
    (h : x.meaning = .finite negative significand exponent) :
    (targetOf significand exponent).magnitude = x.magnitude ∧
      (0 < significand ∨ exponent = -1074) ∧
      (0 < significand → (targetOf significand exponent).Regular) := by
  simp only [meaning] at h
  split at h
  · cases h
  · next hnan =>
    split at h
    · cases h
    · next hinfinite =>
      have hle : x.magnitude ≤ infinite := by simpa [isNaN] using hnan
      have hlt : x.magnitude < infinite := Nat.lt_of_le_of_ne hle hinfinite
      simp only [infinite] at hlt
      split at h
      · next hfield =>
        simp only [pow2, Nat.pow_eq] at hfield h
        obtain ⟨rfl, rfl, rfl⟩ := Meaning.finite.inj h
        have hmod : x.magnitude % 2 ^ 52 = x.magnitude := by omega
        rw [hmod]
        refine ⟨by simp [targetOf, Target.magnitude], .inr rfl, fun hpos =>
          ⟨hpos, ?_, ?_, ?_, .inr rfl, narrow_targetOf _ _⟩⟩
        all_goals simp only [targetOf]
        all_goals omega
      · next hfield =>
        simp only [pow2, Nat.pow_eq] at hfield h
        obtain ⟨rfl, rfl, rfl⟩ := Meaning.finite.inj h
        refine ⟨?_, .inl (by omega), fun hpos =>
          ⟨hpos, ?_, ?_, ?_, .inl ?_, narrow_targetOf _ _⟩⟩
        all_goals simp only [targetOf, Target.magnitude, pow2, Nat.pow_eq]
        all_goals omega

theorem meaning_of_isFinite {x : Binary64} (h : x.isFinite = true) :
    ∃ negative significand exponent, x.meaning = .finite negative significand exponent := by
  have hlt : x.magnitude < infinite := by simpa [isFinite] using h
  have hnan : ¬ x.isNaN = true := by simpa [isNaN] using hlt.le
  simp only [meaning, if_neg hnan, if_neg (Nat.ne_of_lt hlt)]
  split
  · exact ⟨_, _, _, rfl⟩
  · exact ⟨_, _, _, rfl⟩

/-- The decimal that is chosen for a number, or any other of the same value, is the number when it
is read. -/
theorem ofDecimal_of_meaning {x : Binary64} {negative : Bool} {significand : Nat} {exponent : Int}
    (h : x.meaning = .finite negative significand exponent) (hpos : 0 < significand) {d : Decimal}
    (hd : d.value = (ofFinite significand exponent).value) :
    ofDecimal negative d.digits d.exponent = x := by
  obtain ⟨hmagnitude, -, hregular⟩ := magnitude_of_meaning h
  have hcatches := hd ▸ catches_ofFinite hpos exponent
  rw [ofDecimal_of_catches (hregular hpos) hcatches, hmagnitude, ← negative_of_meaning h,
    ofMagnitude_magnitude]

end Binary64

end BlueprintPatch
