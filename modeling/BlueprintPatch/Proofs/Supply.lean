import BlueprintPatch.Graph.Identity

/-! The supply of ids: two numbers never give the same id. -/
namespace BlueprintPatch

theorem digitChar_toUpper_inj :
    ∀ a < 16, ∀ b < 16, (Nat.digitChar a).toUpper = (Nat.digitChar b).toUpper → a = b := by
  decide

theorem upperDigits_inj {n m : Nat}
    (h : (Nat.toDigits 16 n).map Char.toUpper = (Nat.toDigits 16 m).map Char.toUpper) : n = m := by
  induction n using Nat.strongRecOn generalizing m with
  | ind n ih =>
    rw [Nat.toDigits_eq_if (by decide), Nat.toDigits_eq_if (n := m) (by decide)] at h
    split at h
    · next hn =>
      split at h
      · next hm =>
        exact digitChar_toUpper_inj n hn m hm (by simpa using h)
      · have hlen := congrArg List.length h
        simp at hlen
    · next hn =>
      split at h
      · have hlen := congrArg List.length h
        simp at hlen
      · next hm =>
        rw [List.map_append, List.map_append] at h
        obtain ⟨hinit, hlast⟩ := List.append_inj' h rfl
        have hdiv : n / 16 = m / 16 := ih (n / 16) (by omega) hinit
        have hmod : n % 16 = m % 16 :=
          digitChar_toUpper_inj _ (Nat.mod_lt _ (by decide)) _ (Nat.mod_lt _ (by decide))
            (by simpa using hlast)
        omega

theorem generatedId_inj {n m : Nat} (h : generatedId n = generatedId m) : n = m := by
  have hdigits := upperDigits_inj (String.ofList_injective h)
  omega

theorem lt_length_generatedId (n : Nat) : 31 < (generatedId n).length := by
  have h : ¬ (Nat.toDigits 16 (firstId + n)).length ≤ 31 := by
    rw [Nat.length_toDigits_le_iff (by decide) (by decide), firstId]
    omega
  simpa [generatedId] using h

/-- Whether the id is generated with a number that is not below `n`. -/
def IsGeneratedFrom (n : Nat) (id : String) : Prop := ∃ k, n ≤ k ∧ id = generatedId k

theorem isGeneratedFrom_mono {n m : Nat} {id : String} (h : n ≤ m) :
    IsGeneratedFrom m id → IsGeneratedFrom n id := by
  rintro ⟨k, hk, hid⟩
  exact ⟨k, by omega, hid⟩

theorem not_isGeneratedFrom_generatedId {n k : Nat} (h : k < n) :
    ¬ IsGeneratedFrom n (generatedId k) := by
  rintro ⟨j, hj, hid⟩
  have hkj := generatedId_inj hid
  omega

theorem not_isGeneratedFrom_of_short {n : Nat} {id : String} (h : id.length ≤ 31) :
    ¬ IsGeneratedFrom n id := by
  rintro ⟨k, -, rfl⟩
  exact absurd (lt_length_generatedId k) (by omega)

end BlueprintPatch
