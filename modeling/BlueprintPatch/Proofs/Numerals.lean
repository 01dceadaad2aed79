import BlueprintPatch.Json.Writer
import BlueprintPatch.Proofs.Decimals
import BlueprintPatch.Proofs.Reading

/-! Written numbers read back. The parts of a numeral are found again whatever follows it, as long
as that does not go on with the number, and the digits of a number make the number. -/
namespace BlueprintPatch.Json

theorem natOfDigits_append (ds es : Points) :
    natOfDigits (ds ++ es) = natOfDigits ds * 10 ^ es.length + natOfDigits es := by
  have hfold : ∀ n, (es.map fun c => c.code - '0'.toNat).foldl (fun n d => n * 10 + d) n =
      n * 10 ^ es.length + natOfDigits es := by
    unfold natOfDigits Text.ofDigits
    induction es with
    | nil => simp
    | cons c es ih =>
      intro n
      rw [List.map_cons, List.foldl_cons, List.foldl_cons, ih, ih (0 * 10 + _), List.length_cons]
      ring
  rw [← hfold, natOfDigits, Text.ofDigits, List.map_append, List.foldl_append]
  rfl

theorem natOfDigits_map_char (ds : List Char) :
    natOfDigits (ds.map .char) = Nat.ofDigitChars 10 ds 0 := by
  have hfold : ∀ n, ((ds.map CodePoint.char).map fun c => c.code - '0'.toNat).foldl
      (fun n d => n * 10 + d) n = Nat.ofDigitChars 10 ds n := by
    induction ds with
    | nil => exact fun _ => rfl
    | cons c ds ih =>
      intro n
      rw [List.map_cons, List.map_cons, List.foldl_cons, ih, Nat.ofDigitChars_cons, Nat.mul_comm]
      rfl
  exact hfold 0

@[simp]
theorem natOfDigits_zeros (n : Nat) : natOfDigits (List.replicate n (.char '0')) = 0 := by
  rw [← List.map_replicate, natOfDigits_map_char]
  simp

theorem natOfDigits_zero : natOfDigits [.char '0'] = 0 := natOfDigits_zeros 1

@[simp]
theorem natOfDigits_toDigits (n : Nat) : natOfDigits ((Nat.toDigits 10 n).map .char) = n := by
  simp [natOfDigits_map_char]

theorem isDigit_toDigits {n : Nat} {c : Char} (h : c ∈ Nat.toDigits 10 n) : c.isDigit = true :=
  Nat.isDigit_of_mem_toDigits (by decide) (by decide) h

theorem isDigit_map_toDigits (n : Nat) :
    ∀ c ∈ (Nat.toDigits 10 n).map CodePoint.char, c.isDigit = true :=
  List.forall_mem_map.mpr fun _ => isDigit_toDigits

theorem head_toDigits_ne {n : Nat} (h : 0 < n) : (Nat.toDigits 10 n).head? ≠ some '0' := by
  induction n using Nat.strongRecOn with
  | ind n ih =>
    rw [Nat.toDigits_eq_if (by decide)]
    split
    · simp; omega
    · rw [List.head?_append_of_ne_nil _ Nat.toDigits_ne_nil]
      exact ih (n / 10) (by omega) (by omega)

/-- The text is over or begins with a character that no number goes on with. -/
def Ends : Points → Prop
  | [] => True
  | c :: _ => continuesNumber c = false

def NoDigit (cs : Points) : Prop := ∀ c ∈ cs.head?, c.isDigit = false

variable {ds es rest : Points}

theorem Ends.noDigit (h : Ends rest) : NoDigit rest := by
  cases rest with
  | nil => simp [NoDigit]
  | cons c rest =>
    simp only [Ends, continuesNumber, Bool.or_eq_false_iff] at h
    simpa [NoDigit] using h.1.1.1

theorem spanDigits_eq (hds : ∀ c ∈ ds, c.isDigit = true) (hrest : NoDigit rest) :
    spanDigits (ds ++ rest) = (ds, rest) := by
  have hnil : rest.takeWhile CodePoint.isDigit = [] ∧ rest.dropWhile CodePoint.isDigit = rest := by
    cases rest with
    | nil => simp
    | cons c rest => simp [hrest c rfl]
  rw [spanDigits, List.takeWhile_append_of_pos hds, List.dropWhile_append_of_pos hds, hnil.1,
    hnil.2, List.append_nil]

/-- Digits that can stand in front of a point: a zero stands alone. -/
structure IsWhole (ds : Points) : Prop where
  ne_nil : ds ≠ []
  digits : ∀ c ∈ ds, c.isDigit = true
  zero : ds.head? = some (.char '0') → ds = [.char '0']

theorem isWhole_zero : IsWhole [.char '0'] := ⟨by simp, by simp, fun _ => rfl⟩

theorem isWhole_of_head (hne : ds ≠ []) (hds : ∀ c ∈ ds, c.isDigit = true)
    (hhead : ds.head? ≠ some (.char '0')) : IsWhole ds :=
  ⟨hne, hds, fun h => absurd h hhead⟩

theorem IsWhole.take (h : IsWhole ds) (hhead : ds.head? ≠ some (.char '0')) {n : Nat} (hn : 0 < n) :
    IsWhole (ds.take n) := by
  refine isWhole_of_head ?_ (fun c hc => h.digits c (List.mem_of_mem_take hc)) ?_
  · simp [h.ne_nil, Nat.ne_of_gt hn]
  · rwa [List.head?_take, if_neg (Nat.ne_of_gt hn)]

theorem isDigit_zeros (n : Nat) : ∀ c ∈ List.replicate n (CodePoint.char '0'), c.isDigit = true := by
  intro c hc
  obtain rfl := List.eq_of_mem_replicate hc
  rfl

theorem head_map_toDigits_ne {n : Nat} (h : 0 < n) :
    ((Nat.toDigits 10 n).map CodePoint.char).head? ≠ some (.char '0') := by
  simpa using head_toDigits_ne h

theorem isWhole_toDigits (n : Nat) : IsWhole ((Nat.toDigits 10 n).map .char) := by
  refine ⟨by simp [Nat.toDigits_ne_nil], isDigit_map_toDigits n, fun h => ?_⟩
  have hn : n = 0 := Nat.eq_zero_of_not_pos fun hpos => head_map_toDigits_ne hpos h
  rw [hn, Nat.toDigits_zero]
  rfl

theorem wholePart_eq (hds : IsWhole ds) (hrest : NoDigit rest) :
    wholePart (ds ++ rest) = (ds, rest) := by
  by_cases hzero : ds.head? = some (.char '0')
  · rw [hds.zero hzero]
    rfl
  · have hspan : wholePart (ds ++ rest) = spanDigits (ds ++ rest) := by
      unfold wholePart
      split
      · next tail h =>
        have hhead := congrArg List.head? h
        rw [List.head?_append_of_ne_nil _ hds.ne_nil] at hhead
        exact absurd hhead hzero
      · rfl
    rw [hspan, spanDigits_eq hds.digits hrest]

theorem fractionPart?_eq (hne : es ≠ []) (hes : ∀ c ∈ es, c.isDigit = true) (hrest : NoDigit rest) :
    fractionPart? (.char '.' :: (es ++ rest)) = some (es, rest) := by
  simp [fractionPart?, spanDigits_eq hes hrest, hne]

theorem fractionPart?_eq_none (h : ∀ c ∈ rest.head?, c ≠ .char '.') : fractionPart? rest = none := by
  unfold fractionPart?
  split
  · exact absurd rfl (h (.char '.') rfl)
  · rfl

theorem exponentPart?_eq (negative : Bool) (hne : es ≠ []) (hes : ∀ c ∈ es, c.isDigit = true)
    (hrest : NoDigit rest) :
    exponentPart? (.char 'e' :: (if negative then .char '-' else .char '+') :: (es ++ rest)) =
      some (if negative then -(natOfDigits es : Int) else natOfDigits es, rest) := by
  cases negative <;> simp [exponentPart?, exponentSign, spanDigits_eq hes hrest, hne]

theorem exponentPart?_eq_none (h : Ends rest) : exponentPart? rest = none := by
  cases rest with
  | nil => rfl
  | cons c rest =>
    simp only [Ends, continuesNumber, Bool.or_eq_false_iff, decide_eq_false_iff_not] at h
    rw [exponentPart?_cons, if_neg]
    simp [h.1.2, h.2]

def signText (negative : Bool) : List Char := if negative then ['-'] else []

theorem minus_eq (negative : Bool) (hds : IsWhole ds) :
    minus ((signText negative).map .char ++ (ds ++ rest)) = (negative, ds ++ rest) := by
  cases negative with
  | true => rfl
  | false =>
    cases ds with
    | nil => exact absurd rfl hds.ne_nil
    | cons c ds =>
      have hc : c ≠ .char '-' := by
        rintro rfl
        have := hds.digits (.char '-') (by simp)
        simp at this
      simp [signText, minus, hc]

theorem number_of_parts (negative : Bool) (hds : IsWhole ds) {after : Points}
    (hafter : NoDigit after) :
    number ((signText negative).map .char ++ (ds ++ after)) =
      (numeral negative ds ((fractionPart? after).map (·.1))
        ((exponentPart? (afterFraction after)).map (·.1))).map
          (·, afterExponent (afterFraction after)) := by
  have hwhole :
      wholePart (minus ((signText negative).map .char ++ (ds ++ after))).2 = (ds, after) := by
    rw [minus_eq negative hds, wholePart_eq hds hafter]
  have hne : ds.isEmpty = false := by simpa using hds.ne_nil
  rw [number_eq, afterWhole, hwhole, minus_eq negative hds, hne]
  rfl

theorem Ends.head_ne (h : Ends rest) : ∀ c ∈ rest.head?, c ≠ .char '.' := by
  cases rest with
  | nil => simp
  | cons c rest =>
    simp only [Ends, continuesNumber, Bool.or_eq_false_iff, decide_eq_false_iff_not] at h
    simpa using h.1.1.2

theorem afterExponent_of_ends (h : Ends rest) : afterExponent rest = rest := by
  rw [afterExponent, exponentPart?_eq_none h]
  rfl

theorem number_of_whole (negative : Bool) (hds : IsWhole ds) (hrest : Ends rest) :
    number ((signText negative).map .char ++ (ds ++ rest)) =
      (numeral negative ds none none).map (·, rest) := by
  have hfraction := fractionPart?_eq_none hrest.head_ne
  have hafter : afterFraction rest = rest := by rw [afterFraction, hfraction]; rfl
  rw [number_of_parts negative hds hrest.noDigit, hafter, hfraction, exponentPart?_eq_none hrest,
    afterExponent_of_ends hrest]
  rfl

theorem number_of_digits (negative : Bool) (hds : IsWhole ds) (hlength : ds.length ≤ maxDigits)
    (hrest : Ends rest) :
    number ((signText negative).map .char ++ (ds ++ rest)) =
      .ok (.int (if negative then -(natOfDigits ds : Int) else natOfDigits ds), rest) := by
  rw [number_of_whole negative hds hrest]
  simp [numeral, Nat.not_lt.mpr hlength, Except.map]

theorem number_of_too_many_digits (negative : Bool) (hds : IsWhole ds)
    (hlength : maxDigits < ds.length) (hrest : Ends rest) :
    number ((signText negative).map .char ++ (ds ++ rest)) =
      .error (.oversizedInteger ds.length) := by
  rw [number_of_whole negative hds hrest]
  simp [numeral, hlength, Except.map]

theorem number_of_point (negative : Bool) (hds : IsWhole ds) (hne : es ≠ [])
    (hes : ∀ c ∈ es, c.isDigit = true) (hrest : Ends rest) :
    number ((signText negative).map .char ++ (ds ++ .char '.' :: (es ++ rest))) =
      .ok (.float (Binary64.ofDecimal negative (natOfDigits (ds ++ es)) (-es.length)), rest) := by
  have hfraction := fractionPart?_eq hne hes hrest.noDigit
  have hafter : afterFraction (.char '.' :: (es ++ rest)) = rest := by
    rw [afterFraction, hfraction]
    rfl
  rw [number_of_parts negative hds (by simp [NoDigit]), hafter, hfraction,
    exponentPart?_eq_none hrest, afterExponent_of_ends hrest]
  simp [numeral, Except.map]

/-- A point and the digits after it, if there are any. -/
def pointed (es : Points) : Points := if es.isEmpty then [] else .char '.' :: es

theorem number_of_exponent (negative below : Bool) (hds : IsWhole ds)
    (hes : ∀ c ∈ es, c.isDigit = true) {ws : Points} (hne : ws ≠ [])
    (hws : ∀ c ∈ ws, c.isDigit = true) (hrest : Ends rest) :
    number ((signText negative).map .char ++
        (ds ++ (pointed es ++
          .char 'e' :: (if below then .char '-' else .char '+') :: (ws ++ rest)))) =
      .ok (.float (Binary64.ofDecimal negative (natOfDigits (ds ++ es))
        ((if below then -(natOfDigits ws : Int) else natOfDigits ws) - es.length)), rest) := by
  have hexponent := exponentPart?_eq below hne hws hrest.noDigit
  generalize htail :
    .char 'e' :: (if below then .char '-' else .char '+') :: (ws ++ rest) = tail at hexponent ⊢
  have hletter : NoDigit tail ∧ ∀ c ∈ tail.head?, c ≠ .char '.' := by simp [← htail, NoDigit]
  have hlast : afterExponent tail = rest := by rw [afterExponent, hexponent]; rfl
  cases es with
  | nil =>
    have hfraction := fractionPart?_eq_none hletter.2
    have hafter : afterFraction tail = tail := by rw [afterFraction, hfraction]; rfl
    simp only [pointed, List.isEmpty_nil, if_true, List.nil_append]
    rw [number_of_parts negative hds hletter.1, hafter, hfraction, hexponent, hlast]
    simp [numeral, Except.map]
  | cons e es =>
    have hfraction := fractionPart?_eq (List.cons_ne_nil e es) hes hletter.1
    have hafter : afterFraction (.char '.' :: ((e :: es) ++ tail)) = tail := by
      rw [afterFraction, hfraction]
      rfl
    simp only [pointed, List.isEmpty_cons, Bool.false_eq_true, if_false, List.cons_append]
      at hfraction hafter ⊢
    rw [number_of_parts negative hds (by simp [NoDigit]), hafter, hfraction, hexponent, hlast]
    simp [numeral, Except.map]

theorem toList_toString (n : Int) :
    (toString n).toList = signText (decide (n < 0)) ++ Nat.toDigits 10 n.natAbs := by
  rw [Int.toString_eq_repr, Int.repr_eq_if]
  by_cases h : 0 ≤ n
  · have habs : n.toNat = n.natAbs := by omega
    simp [h, Int.not_lt.mpr h, signText, habs]
  · have habs : (-n).toNat = n.natAbs := by omega
    simp [h, Int.not_le.mp h, signText, habs]

theorem number_integer {n : Int} (hn : n.natAbs < pow10 maxDigits) (hrest : Ends rest) :
    number ((toString n).toList.map .char ++ rest) = .ok (.int n, rest) := by
  have hlength : ((Nat.toDigits 10 n.natAbs).map CodePoint.char).length ≤ maxDigits := by
    rw [List.length_map]
    exact (Nat.length_toDigits_le_iff (by decide) (by decide)).mpr (pow10_eq maxDigits ▸ hn)
  have hsign : (if decide (n < 0) then -(n.natAbs : Int) else n.natAbs) = n := by
    simp only [decide_eq_true_eq]
    split <;> omega
  rw [toList_toString, List.map_append, List.append_assoc,
    number_of_digits _ (isWhole_toDigits _) hlength hrest, natOfDigits_toDigits, hsign]

open Shortest

section
variable {d : Decimal} {ws : List Char} (hws : ws.map .char = ds) (hds : IsWhole ds)
  (hhead : ds.head? ≠ some (.char '0')) (hvalue : natOfDigits ds = d.digits) (negative : Bool)
  (hrest : Ends rest)
include hws hds hhead hvalue hrest

/-- Zeros may have been put behind the digits, so the decimal that is read need not be the same. -/
theorem number_positional {place : Int} (hplace : ds.length + d.exponent = place) :
    ∃ d' : Decimal, d'.value = d.value ∧
      number ((signText negative).map .char ++ ((positional ws place).map .char ++ rest)) =
        .ok (.float (Binary64.ofDecimal negative d'.digits d'.exponent), rest) := by
  have hpos := List.length_pos_of_ne_nil hds.ne_nil
  have hlength : ds.length = ws.length := by rw [← hws, List.length_map]
  unfold positional
  split
  · -- All digits stand behind the point.
    have hdigits :
        natOfDigits ([.char '0'] ++ (List.replicate (-place).toNat (.char '0') ++ ds)) =
          d.digits := by
      rw [natOfDigits_append, natOfDigits_append, natOfDigits_zeros, natOfDigits_zero, hvalue]
      simp
    have hexponent :
        -((List.replicate (-place).toNat (CodePoint.char '0') ++ ds).length : Int) = d.exponent := by
      rw [List.length_append, List.length_replicate]
      omega
    have hread := number_of_point negative isWhole_zero
      (List.append_ne_nil_of_right_ne_nil _ hds.ne_nil)
      (List.forall_mem_append.mpr ⟨isDigit_zeros (-place).toNat, hds.digits⟩) hrest
    rw [hdigits, hexponent] at hread
    exact ⟨d, rfl, by simpa [hws] using hread⟩
  · split
    · -- All digits stand in front of it, and zeros fill up the place.
      generalize hcount : place.toNat - ws.length = count
      have hwhole : IsWhole (ds ++ List.replicate count (.char '0')) := by
        refine isWhole_of_head (List.append_ne_nil_of_left_ne_nil hds.ne_nil _)
          (List.forall_mem_append.mpr ⟨hds.digits, isDigit_zeros count⟩) ?_
        rwa [List.head?_append_of_ne_nil _ hds.ne_nil]
      have hread := number_of_point negative hwhole (List.cons_ne_nil (CodePoint.char '0') [])
        (isDigit_zeros 1) hrest
      have hdigits : natOfDigits (ds ++ List.replicate count (.char '0') ++ [.char '0']) =
          d.digits * 10 ^ count * 10 := by
        rw [natOfDigits_append, natOfDigits_append, natOfDigits_zeros, natOfDigits_zero, hvalue]
        simp
      have hexponent : d.exponent = count := by omega
      rw [hdigits] at hread
      refine ⟨⟨_, _⟩, ?_, by simpa [hws] using hread⟩
      rw [Decimal.value, Decimal.value, hexponent, zpow_natCast, zpow_neg_one]
      push_cast
      rw [mul_assoc, mul_inv_cancel₀ (by norm_num), mul_one]
    · -- The point stands between two of them.
      have hdrop : ds.drop place.toNat ≠ [] := by
        rw [Ne, List.drop_eq_nil_iff]
        omega
      have hread := number_of_point negative (hds.take hhead (n := place.toNat) (by omega)) hdrop
        (fun c hc => hds.digits c (List.mem_of_mem_drop hc)) hrest
      have hexponent : -((ds.drop place.toNat).length : Int) = d.exponent := by
        rw [List.length_drop]
        omega
      rw [List.take_append_drop, hvalue, hexponent] at hread
      exact ⟨d, rfl, by simpa [hws] using hread⟩

theorem number_scientific {e : Int} (he : ds.length + d.exponent - 1 = e) :
    number ((signText negative).map .char ++ ((scientific ws e).map .char ++ rest)) =
      .ok (.float (Binary64.ofDecimal negative d.digits d.exponent), rest) := by
  have hpos := List.length_pos_of_ne_nil hds.ne_nil
  have hwidth : ∀ c ∈ List.replicate (2 - (Nat.toDigits 10 e.natAbs).length) (.char '0') ++
      (Nat.toDigits 10 e.natAbs).map CodePoint.char, c.isDigit = true :=
    List.forall_mem_append.mpr ⟨isDigit_zeros _, isDigit_map_toDigits _⟩
  have hread := number_of_exponent negative (e < 0) (hds.take hhead one_pos)
    (fun c hc => hds.digits c (List.mem_of_mem_tail hc))
    (List.append_ne_nil_of_right_ne_nil _ (isWhole_toDigits _).ne_nil) hwidth hrest
  have hdigits : ds.take 1 ++ ds.tail = ds := by rw [← List.drop_one, List.take_append_drop]
  have hexponent : (if decide (e < 0) then -(e.natAbs : Int) else e.natAbs) - ds.tail.length =
      d.exponent := by
    rw [List.length_tail]
    simp only [decide_eq_true_eq]
    split <;> omega
  rw [hdigits, hvalue, natOfDigits_append, natOfDigits_zeros, natOfDigits_toDigits, Nat.zero_mul,
    Nat.zero_add, hexponent] at hread
  have htail : (ws.map CodePoint.char).tail = [] ↔ ws.tail = [] := by
    rw [← List.map_tail, List.map_eq_nil_iff]
  simpa [scientific, pointed, ← hws, htail, apply_ite (List.map CodePoint.char),
    apply_ite CodePoint.char] using hread

end

/-- The layout of a decimal is read as a decimal of the same value. -/
theorem number_layout {d : Decimal} (hd : 0 < d.digits) (negative : Bool) (hrest : Ends rest) :
    ∃ d' : Decimal, d'.value = d.value ∧
      number ((signText negative).map .char ++ ((layout d).map .char ++ rest)) =
        .ok (.float (Binary64.ofDecimal negative d'.digits d'.exponent), rest) := by
  have hwhole := isWhole_toDigits d.digits
  have hvalue := natOfDigits_toDigits d.digits
  have hhead := head_map_toDigits_ne hd
  simp only [layout]
  split
  · exact number_positional rfl hwhole hhead hvalue negative hrest (by rw [List.length_map]; omega)
  · exact ⟨d, rfl,
      number_scientific rfl hwhole hhead hvalue negative hrest (by rw [List.length_map])⟩

theorem text_of_meaning (special : SpecialTexts) {x : Binary64} {negative : Bool}
    {significand : Nat} {exponent : Int} (h : x.meaning = .finite negative significand exponent) :
    (x.text special).toList = signText negative ++
      if significand = 0 then ['0', '.', '0'] else layout (ofFinite significand exponent) := by
  cases significand <;> cases negative <;> simp [Binary64.text, h, signText]

theorem number_text (special : SpecialTexts) {x : Binary64} (hx : x.isFinite = true)
    (hrest : Ends rest) :
    number ((x.text special).toList.map .char ++ rest) = .ok (.float x, rest) := by
  obtain ⟨negative, significand, exponent, h⟩ := Binary64.meaning_of_isFinite hx
  obtain ⟨hmagnitude, hexponent, -⟩ := Binary64.magnitude_of_meaning h
  rw [text_of_meaning special h, List.map_append, List.append_assoc]
  split
  · next hzero =>
    subst hzero
    have hread := number_of_point negative isWhole_zero (List.cons_ne_nil (CodePoint.char '0') [])
      (isDigit_zeros 1) hrest
    have hx : Binary64.ofMagnitude negative 0 = x := by
      obtain rfl : exponent = -1074 := by omega
      rw [← Binary64.ofMagnitude_magnitude x, ← hmagnitude, Binary64.negative_of_meaning h]
      rfl
    have hzero : Binary64.ofDecimal negative (natOfDigits ([.char '0'] ++ [.char '0']))
        (-[CodePoint.char '0'].length) = x := by
      rw [← hx]
      rfl
    rw [hzero] at hread
    simpa using hread
  · next hpos =>
    have hpos := Nat.pos_of_ne_zero hpos
    obtain ⟨d, hd, hread⟩ := number_layout (digits_ofFinite_pos hpos) negative hrest
    rw [hread, Binary64.ofDecimal_of_meaning h hpos hd]

end BlueprintPatch.Json
