import BlueprintPatch.Proofs.Reading

/-! The limits of the reader. A text in which no run of digits is too long and not too many brackets
are opened is either read or found to break the grammar. -/
namespace BlueprintPatch.Json

def Fault.IsMalformed : Fault → Prop
  | .malformed _ _ => True
  | _ => False

def isOpening (c : CodePoint) : Bool := c = .char '[' || c = .char '\x7b'

/-- No run of digits is too long for an integer, and at most `depth` brackets are opened. -/
structure WithinLimits (depth : Nat) (cs : Points) : Prop where
  digits : ∀ ds, ds <:+: cs → (∀ d ∈ ds, d.isDigit) → ds.length ≤ maxDigits
  brackets : cs.countP isOpening ≤ depth

namespace WithinLimits

variable {depth : Nat} {cs : Points}

theorem of_suffix {rest : Points} (h : WithinLimits depth cs) (hrest : rest <:+ cs) :
    WithinLimits depth rest where
  digits ds hds := h.digits ds (hds.trans hrest.isInfix)
  brackets := (hrest.sublist.countP_le).trans h.brackets

theorem of_length (hlength : cs.length ≤ maxDigits) (hbrackets : cs.countP isOpening ≤ depth) :
    WithinLimits depth cs :=
  ⟨fun _ hds _ => Nat.le_trans hds.length_le hlength, hbrackets⟩

theorem of_opening {c : CodePoint} (h : WithinLimits (depth + 1) (c :: cs)) (hc : isOpening c) :
    WithinLimits depth cs where
  digits ds hds := h.digits ds (hds.trans (List.suffix_cons c cs).isInfix)
  brackets := by
    have hcount := h.brackets
    rw [List.countP_cons_of_pos hc] at hcount
    omega

end WithinLimits

/-- Whatever the scan says against the text, it is about the grammar. -/
def Complains {α : Type} (scan : Points → Scan α) (cs : Points) : Prop :=
  ∀ fault, scan cs = .error fault → fault.IsMalformed

theorem except_bind_eq_error {ε α β : Type} {x : Except ε α} {f : α → Except ε β} {e : ε} :
    x.bind f = .error e ↔ x = .error e ∨ ∃ a, x = .ok a ∧ f a = .error e := by
  cases x <;> simp [Except.bind]

theorem except_map_eq_error {ε α β : Type} {x : Except ε α} {f : α → β} {e : ε} :
    x.map f = .error e ↔ x = .error e := by
  cases x <;> simp [Except.map]

theorem pieces_complains (opening : Nat) (cs : Points) : Complains (pieces opening) cs := by
  intro fault h
  fun_induction pieces opening cs with
  | case1 | case3 | case4 | case6 | case7 | case9 =>
    obtain rfl := Except.error.inj h
    exact trivial
  | case2 => cases h
  | case5 a b c d e tail n hn ih => exact ih (except_map_eq_error.mp h)
  | case8 c tail _ _ e he ih => exact ih (except_map_eq_error.mp h)
  | case10 c tail _ _ _ _ _ ih => exact ih (except_map_eq_error.mp h)

theorem stringBody_complains (cs : Points) : Complains stringBody cs :=
  fun fault h => pieces_complains _ cs fault (except_map_eq_error.mp h)

theorem wholePart_digits (cs : Points) :
    (wholePart cs).1 <:+: cs ∧ ∀ d ∈ (wholePart cs).1, d.isDigit := by
  unfold wholePart
  split
  · next tail =>
    exact ⟨(List.prefix_append [.char '0'] tail).isInfix, by simp⟩
  · exact ⟨(List.takeWhile_prefix _).isInfix, List.all_eq_true.mp List.all_takeWhile⟩

theorem number_complains {depth : Nat} {cs : Points} (h : WithinLimits depth cs) :
    Complains number cs := by
  intro fault hfault
  rw [number_eq] at hfault
  split at hfault
  · obtain rfl := Except.error.inj hfault
    exact trivial
  · have hnumeral := except_map_eq_error.mp hfault
    obtain ⟨hwithin, hdigits⟩ := wholePart_digits (minus cs).2
    have hlength := h.digits _ (hwithin.trans (minus_suffix cs).isInfix) hdigits
    unfold numeral at hnumeral
    split at hnumeral
    · rw [if_neg (by omega)] at hnumeral
      cases hnumeral
    · cases hnumeral

theorem entries_complains {α : Type} {close : CodePoint} {missing : Complaint}
    {entry : Points → Scan α} (hsteady : Steady entry) (bound : Nat) {cs : Points}
    (hentry : ∀ rest, rest <:+ cs → Complains entry rest) :
    Complains (entries close missing entry bound) cs := by
  induction bound generalizing cs with
  | zero =>
    intro fault h
    obtain rfl := Except.error.inj h
    exact trivial
  | succ bound ih =>
    intro fault h
    rcases except_bind_eq_error.mp h with herror | ⟨⟨a, left⟩, ha, hrest⟩
    · exact hentry cs (List.suffix_refl _) fault herror
    · have hleft := (skipBlank_suffix left).trans (hsteady.suffix ha)
      split at hrest
      · obtain rfl := Except.error.inj hrest
        exact trivial
      · next c tail hblank =>
        split at hrest
        · cases hrest
        · split at hrest
          · have htail : skipBlank tail <:+ cs := by
              rw [hblank] at hleft
              exact (skipBlank_suffix tail).trans ((List.suffix_cons c tail).trans hleft)
            exact ih (fun rest hrest => hentry rest (hrest.trans htail)) fault
              (except_map_eq_error.mp hrest)
          · obtain rfl := Except.error.inj hrest
            exact trivial

theorem enclosed_complains {α : Type} {close : CodePoint} {missing : Complaint}
    {entry : Points → Scan α} (hsteady : Steady entry) {cs : Points}
    (hentry : ∀ rest, rest <:+ cs → Complains entry rest) :
    Complains (enclosed close missing entry) cs := by
  intro fault h
  unfold enclosed at h
  split at h
  · obtain rfl := Except.error.inj h
    exact trivial
  · next c tail hblank =>
    have hcs : c :: tail <:+ cs := hblank ▸ skipBlank_suffix cs
    split at h
    · cases h
    · exact entries_complains hsteady _ (fun rest hrest => hentry rest (hrest.trans hcs)) fault h

theorem name_complains (cs : Points) : Complains name cs := by
  intro fault h
  unfold name at h
  split at h
  · exact stringBody_complains _ fault (except_map_eq_error.mp h)
  · obtain rfl := Except.error.inj h
    exact trivial

theorem member_complains {item : Points → Scan Json} {cs : Points}
    (hitem : ∀ rest, rest <:+ cs → Complains item rest) : Complains (member item) cs := by
  intro fault h
  rcases except_bind_eq_error.mp h with hname | ⟨⟨key, left⟩, hname, hrest⟩
  · exact name_complains cs fault hname
  · rcases except_bind_eq_error.mp hrest with hcolon | ⟨rest, hcolon, hvalue⟩
    · unfold colon at hcolon
      split at hcolon
      · cases hcolon
      · obtain rfl := Except.error.inj hcolon
        exact trivial
    · obtain ⟨tail, htail, rfl⟩ := colon_eq_ok.mp hcolon
      have hleft : .char ':' :: tail <:+ cs := by
        rw [← htail]
        exact (skipBlank_suffix left).trans (name_suffix hname)
      have hsuffix := (skipBlank_suffix tail).trans ((List.suffix_cons (.char ':') tail).trans hleft)
      exact hitem _ hsuffix fault (except_map_eq_error.mp hvalue)

theorem array_complains {item : Points → Scan Json} (hsteady : Steady item) {cs : Points}
    (hitem : ∀ rest, rest <:+ cs → Complains item rest) : Complains (array item) cs :=
  fun fault h =>
    enclosed_complains hsteady hitem fault (except_map_eq_error.mp (array_eq item cs ▸ h))

theorem object_complains {item : Points → Scan Json} (hsteady : Steady item) {cs : Points}
    (hitem : ∀ rest, rest <:+ cs → Complains item rest) : Complains (object item) cs :=
  fun fault h =>
    enclosed_complains (steady_member hsteady)
      (fun _ hrest => member_complains fun rest htail => hitem rest (htail.trans hrest)) fault
      (except_map_eq_error.mp (object_eq item cs ▸ h))

theorem value_complains_of_not_opening {limit depth : Nat} {c : CodePoint} {cs : Points}
    (h : WithinLimits limit (c :: cs)) (hc : ¬ isOpening c) :
    Complains (value depth) (c :: cs) := by
  intro fault hfault
  have hne : c ≠ .char '[' ∧ c ≠ .char '\x7b' := by simpa [isOpening] using hc
  by_cases hquote : c = .char '"'
  · subst hquote
    rw [value_quote] at hfault
    exact stringBody_complains cs fault (except_map_eq_error.mp hfault)
  · rw [value_of_head_ne hquote hne.1 hne.2] at hfault
    cases hnamed : named? (c :: cs) with
    | some r =>
      rw [hnamed] at hfault
      cases hfault
    | none =>
      rw [hnamed] at hfault
      exact number_complains h fault hfault

theorem value_complains {depth : Nat} {cs : Points} (h : WithinLimits depth cs) :
    Complains (value depth) cs := by
  induction depth generalizing cs with
  | zero =>
    intro fault hfault
    cases cs with
    | nil =>
      obtain rfl := Except.error.inj hfault
      exact trivial
    | cons c tail =>
      have hopen : ¬ isOpening c := by
        intro hc
        have hcount := h.brackets
        rw [List.countP_cons_of_pos hc] at hcount
        omega
      exact value_complains_of_not_opening h hopen fault hfault
  | succ depth ih =>
    intro fault hfault
    cases cs with
    | nil =>
      obtain rfl := Except.error.inj hfault
      exact trivial
    | cons c tail =>
      by_cases hopen : isOpening c
      · have hitem : ∀ rest, rest <:+ tail → Complains (value depth) rest :=
          fun rest hrest => ih ((h.of_opening hopen).of_suffix hrest)
        have hc : c = .char '[' ∨ c = .char '\x7b' := by simpa [isOpening] using hopen
        rcases hc with rfl | rfl
        · exact array_complains (steady_value depth) hitem fault hfault
        · exact object_complains (steady_value depth) hitem fault hfault
      · exact value_complains_of_not_opening h hopen fault hfault

theorem readPoints_malformed {cs : Points} {fault : Fault} (h : WithinLimits maxDepth cs)
    (hfault : readPoints cs = .error fault) : fault.IsMalformed := by
  unfold readPoints at hfault
  split at hfault
  · obtain rfl := Except.error.inj hfault
    exact trivial
  · rcases except_bind_eq_error.mp hfault with herror | ⟨⟨v, rest⟩, -, hrest⟩
    · exact value_complains (h.of_suffix (skipBlank_suffix _)) fault herror
    · simp only at hrest
      split at hrest
      · cases hrest
      · obtain rfl := Except.error.inj hrest
        exact trivial

end BlueprintPatch.Json
