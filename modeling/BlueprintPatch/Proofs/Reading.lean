import BlueprintPatch.Json.Reader
import Mathlib.Data.List.Infix
import Mathlib.Data.List.TakeWhile

/-! What a reader from the front depends on. A scan takes a front of the text, and what is added
behind the text stays behind what it leaves, provided that no number gets longer by it. The scan of
an object or an array ends at its last bracket, so there the proviso is not needed. -/
namespace BlueprintPatch.Json

variable {α β : Type}

theorem except_bind_eq_ok {ε : Type} {x : Except ε α} {f : α → Except ε β} {b : β} :
    x.bind f = .ok b ↔ ∃ a, x = .ok a ∧ f a = .ok b := by
  cases x <;> simp [Except.bind]

theorem except_map_eq_ok {ε : Type} {x : Except ε α} {f : α → β} {b : β} :
    x.map f = .ok b ↔ ∃ a, x = .ok a ∧ f a = b := by
  cases x <;> simp [Except.map]

theorem scan_map_eq_ok {x : Scan α} {f : α → β} {b : β} {rest : Points} :
    x.map (fun r => (f r.1, r.2)) = .ok (b, rest) ↔ ∃ a, x = .ok (a, rest) ∧ f a = b := by
  cases x with
  | error e => simp [Except.map]
  | ok r => simp [Except.map, Prod.ext_iff, and_comm]

theorem skipBlank_suffix (cs : Points) : skipBlank cs <:+ cs := List.dropWhile_suffix _

theorem skipBlank_append {cs : Points} (h : skipBlank cs ≠ []) (more : Points) :
    skipBlank (cs ++ more) = skipBlank cs ++ more := by
  induction cs with
  | nil => exact absurd rfl h
  | cons c cs ih =>
    by_cases hc : isBlank c
    · simp only [skipBlank, List.dropWhile_cons, hc, List.cons_append, if_true] at h ih ⊢
      exact ih h
    · simp [skipBlank, hc]

theorem pieces_unit {a b c d : CodePoint} {n : Nat} (h : hexUnit? a b c d = some n) (opening : Nat)
    (e : CodePoint) (rest : Points) :
    pieces opening (.char '\\' :: .char 'u' :: a :: b :: c :: d :: e :: rest) =
      (pieces opening (e :: rest)).map fun r => (.unit n :: r.1, r.2) := by
  rw [pieces.eq_4, h]

theorem pieces_escape {c : CodePoint} {e : Char} (hc : c ≠ .char 'u')
    (he : c.char?.bind simpleEscape? = some e) (opening : Nat) (rest : Points) :
    pieces opening (.char '\\' :: c :: rest) =
      (pieces opening rest).map fun r => (.point (.char e) :: r.1, r.2) := by
  rw [pieces.eq_5 opening c rest fun _ _ _ _ _ _ h => absurd h hc, if_neg hc, he]

theorem pieces_point {c : CodePoint} (hquote : c ≠ .char '"') (hslash : c ≠ .char '\\')
    (hc : ¬ c.code < 0x20) (opening : Nat) (rest : Points) :
    pieces opening (c :: rest) = (pieces opening rest).map fun r => (.point c :: r.1, r.2) := by
  rw [pieces.eq_6 opening c rest hquote (fun h => absurd h hslash)
    (fun _ _ _ _ _ _ h => absurd h hslash) (fun _ _ h => absurd h hslash), if_neg hc]

theorem pieces_suffix {opening : Nat} {cs rest : Points} {ps : List Piece}
    (h : pieces opening cs = .ok (ps, rest)) : rest <:+ cs := by
  fun_induction pieces opening cs generalizing ps rest with
  | case1 | case3 | case4 | case6 | case7 | case9 => cases h
  | case2 tail =>
    obtain ⟨-, rfl⟩ := Prod.mk.inj (Except.ok.inj h)
    exact List.suffix_cons _ _
  | case5 a b c d e tail n hn ih =>
    obtain ⟨r, hr, -⟩ := (scan_map_eq_ok (f := (Piece.unit n :: ·))).mp h
    exact (ih hr).trans ⟨[.char '\\', .char 'u', a, b, c, d], rfl⟩
  | case8 c tail _ _ e he ih =>
    obtain ⟨r, hr, -⟩ := (scan_map_eq_ok (f := (Piece.point (.char e) :: ·))).mp h
    exact (ih hr).trans ⟨[.char '\\', c], rfl⟩
  | case10 c tail _ _ _ _ _ ih =>
    obtain ⟨r, hr, -⟩ := (scan_map_eq_ok (f := (Piece.point c :: ·))).mp h
    exact (ih hr).trans (List.suffix_cons _ _)

/-- Where the string begins matters for complaints only. -/
theorem pieces_append {opening : Nat} {cs rest : Points} {ps : List Piece}
    (h : pieces opening cs = .ok (ps, rest)) (other : Nat) (more : Points) :
    pieces other (cs ++ more) = .ok (ps, rest ++ more) := by
  fun_induction pieces opening cs generalizing ps rest with
  | case1 | case3 | case4 | case6 | case7 | case9 => cases h
  | case2 tail =>
    obtain ⟨rfl, rfl⟩ := Prod.mk.inj (Except.ok.inj h)
    rfl
  | case5 a b c d e tail n hn ih =>
    obtain ⟨r, hr, rfl⟩ := (scan_map_eq_ok (f := (Piece.unit n :: ·))).mp h
    have htail := ih hr
    simp only [List.cons_append] at htail ⊢
    rw [pieces_unit hn, htail]
    rfl
  | case8 c tail _ hc e he ih =>
    obtain ⟨r, hr, rfl⟩ := (scan_map_eq_ok (f := (Piece.point (.char e) :: ·))).mp h
    rw [List.cons_append, List.cons_append, pieces_escape hc he, ih hr]
    rfl
  | case10 c tail hquote hend _ hslash hc ih =>
    obtain ⟨r, hr, rfl⟩ := (scan_map_eq_ok (f := (Piece.point c :: ·))).mp h
    have hne : c ≠ .char '\\' := by
      rintro rfl
      cases tail with
      | nil => exact hend rfl rfl
      | cons d tail => exact hslash d tail rfl rfl
    rw [List.cons_append, pieces_point hquote hne hc, ih hr]
    rfl

theorem stringBody_suffix {cs rest : Points} {s : Points}
    (h : stringBody cs = .ok (s, rest)) : rest <:+ cs := by
  obtain ⟨r, hr, -⟩ := (scan_map_eq_ok (f := join)).mp h
  exact pieces_suffix hr

theorem stringBody_append {cs rest : Points} {s : Points}
    (h : stringBody cs = .ok (s, rest)) (more : Points) :
    stringBody (cs ++ more) = .ok (s, rest ++ more) := by
  obtain ⟨r, hr, rfl⟩ := (scan_map_eq_ok (f := join)).mp h
  rw [stringBody, pieces_append hr]
  rfl

def continuesNumber (c : CodePoint) : Bool :=
  c.isDigit || c = .char '.' || c = .char 'e' || c = .char 'E'

/-- The text begins with a character that no number goes on with. -/
def Cut : Points → Prop
  | [] => False
  | c :: _ => continuesNumber c = false

theorem Cut.ne_nil {cs : Points} (h : Cut cs) : cs ≠ [] := by
  rintro rfl
  exact h

theorem continuesNumber_of_isBlank {c : CodePoint} (h : isBlank c = true) :
    continuesNumber c = false := by
  simp only [isBlank, Bool.or_eq_true, decide_eq_true_eq] at h
  rcases h with ((rfl | rfl) | rfl) | rfl <;> decide

theorem cut_of_skipBlank {cs rest : Points} {c : CodePoint} (h : skipBlank cs = c :: rest)
    (hc : continuesNumber c = false) : Cut cs := by
  cases cs with
  | nil => cases h
  | cons d cs =>
    by_cases hd : isBlank d
    · exact continuesNumber_of_isBlank hd
    · obtain ⟨rfl, -⟩ : d = c ∧ cs = rest := by simpa [skipBlank, hd] using h
      exact hc

theorem spanDigits_suffix (cs : Points) : (spanDigits cs).2 <:+ cs := List.dropWhile_suffix _

theorem spanDigits_append {cs : Points} (h : (spanDigits cs).2 ≠ []) (more : Points) :
    spanDigits (cs ++ more) = ((spanDigits cs).1, (spanDigits cs).2 ++ more) := by
  induction cs with
  | nil => exact absurd rfl h
  | cons c cs ih =>
    by_cases hc : c.isDigit
    · simp only [spanDigits, List.dropWhile_cons, List.takeWhile_cons, hc, if_true,
        List.cons_append, Prod.mk.injEq, List.cons.injEq, true_and] at h ih ⊢
      exact ih h
    · simp [spanDigits, hc]

theorem minus_suffix (cs : Points) : (minus cs).2 <:+ cs := by
  unfold minus
  split
  · exact List.suffix_cons _ _
  · exact List.suffix_refl _

theorem minus_append {cs : Points} (h : cs ≠ []) (more : Points) :
    minus (cs ++ more) = ((minus cs).1, (minus cs).2 ++ more) := by
  cases cs with
  | nil => exact absurd rfl h
  | cons c cs =>
    by_cases hc : c = .char '-'
    · subst hc; rfl
    · simp [minus, hc]

theorem wholePart_suffix (cs : Points) : (wholePart cs).2 <:+ cs := by
  unfold wholePart
  split
  · exact List.suffix_cons _ _
  · exact spanDigits_suffix _

theorem wholePart_append {cs : Points} (h : (wholePart cs).2 ≠ []) (more : Points) :
    wholePart (cs ++ more) = ((wholePart cs).1, (wholePart cs).2 ++ more) := by
  cases cs with
  | nil => exact absurd rfl h
  | cons c cs =>
    by_cases hc : c = .char '0'
    · subst hc; rfl
    · have hspan : ∀ cs, wholePart (c :: cs) = spanDigits (c :: cs) := by simp [wholePart, hc]
      rw [hspan] at h
      rw [List.cons_append, hspan, hspan, ← List.cons_append, spanDigits_append h]

/-- The text behind the fraction in front, if there is one. -/
def afterFraction (cs : Points) : Points := ((fractionPart? cs).map (·.2)).getD cs

theorem afterFraction_suffix (cs : Points) : afterFraction cs <:+ cs := by
  cases cs with
  | nil => exact List.suffix_refl _
  | cons c tail =>
    by_cases hc : c = .char '.'
    · subst hc
      by_cases hds : (spanDigits tail).1.isEmpty
      · simp [afterFraction, fractionPart?, hds]
      · simpa [afterFraction, fractionPart?, hds] using
          (spanDigits_suffix tail).trans (List.suffix_cons _ _)
    · simp [afterFraction, fractionPart?, hc]

theorem fractionPart?_append {cs : Points} (hnil : afterFraction cs ≠ [])
    (hpoint : (afterFraction cs).head? ≠ some (.char '.')) (more : Points) :
    fractionPart? (cs ++ more) = (fractionPart? cs).map fun r => (r.1, r.2 ++ more) := by
  cases cs with
  | nil => exact absurd rfl hnil
  | cons c tail =>
    by_cases hc : c = .char '.'
    · subst hc
      by_cases hds : (spanDigits tail).1.isEmpty
      · exact absurd (by simp [afterFraction, fractionPart?, hds]) hpoint
      · simp only [afterFraction, fractionPart?, hds, if_false, Bool.false_eq_true,
          Option.map_some, Option.getD_some] at hnil
        simp only [List.cons_append, fractionPart?, spanDigits_append hnil, hds, if_false,
          Bool.false_eq_true, Option.map_some]
    · simp [fractionPart?, hc]

theorem afterFraction_append {cs : Points} (hnil : afterFraction cs ≠ [])
    (hpoint : (afterFraction cs).head? ≠ some (.char '.')) (more : Points) :
    afterFraction (cs ++ more) = afterFraction cs ++ more := by
  rw [afterFraction, afterFraction, fractionPart?_append hnil hpoint]
  cases fractionPart? cs <;> rfl

theorem exponentSign_suffix (cs : Points) : (exponentSign cs).2 <:+ cs := by
  unfold exponentSign
  split
  · exact List.suffix_cons _ _
  · exact List.suffix_cons _ _
  · exact List.suffix_refl _

theorem exponentSign_append {cs : Points} (h : cs ≠ []) (more : Points) :
    exponentSign (cs ++ more) = ((exponentSign cs).1, (exponentSign cs).2 ++ more) := by
  cases cs with
  | nil => exact absurd rfl h
  | cons c cs =>
    by_cases hminus : c = .char '-'
    · subst hminus; rfl
    · by_cases hplus : c = .char '+'
      · subst hplus; rfl
      · simp [exponentSign, hminus, hplus]

theorem exponentPart?_cons (c : CodePoint) (cs : Points) :
    exponentPart? (c :: cs) =
      if (c = .char 'e' ∨ c = .char 'E') ∧ ¬ (spanDigits (exponentSign cs).2).1.isEmpty then
        some (if (exponentSign cs).1 then -(natOfDigits (spanDigits (exponentSign cs).2).1 : Int)
          else natOfDigits (spanDigits (exponentSign cs).2).1, (spanDigits (exponentSign cs).2).2)
      else none := rfl

/-- The text behind the exponent in front, if there is one. -/
def afterExponent (cs : Points) : Points := ((exponentPart? cs).map (·.2)).getD cs

theorem afterExponent_suffix (cs : Points) : afterExponent cs <:+ cs := by
  cases cs with
  | nil => exact List.suffix_refl _
  | cons c cs =>
    rw [afterExponent, exponentPart?_cons]
    split
    · exact (spanDigits_suffix _).trans ((exponentSign_suffix cs).trans (List.suffix_cons _ _))
    · exact List.suffix_refl _

theorem exponentPart?_append {cs : Points} (hcut : Cut (afterExponent cs)) (more : Points) :
    exponentPart? (cs ++ more) = (exponentPart? cs).map fun r => (r.1, r.2 ++ more) := by
  cases cs with
  | nil => exact hcut.elim
  | cons c cs =>
    rw [afterExponent, exponentPart?_cons] at hcut
    rw [List.cons_append, exponentPart?_cons, exponentPart?_cons]
    by_cases hc : c = .char 'e' ∨ c = .char 'E'
    · by_cases hds : (spanDigits (exponentSign cs).2).1.isEmpty
      · simp only [hc, hds, not_true, and_false, if_false, Option.map_none, Option.getD_none]
          at hcut
        rcases hc with rfl | rfl <;> cases hcut
      · simp only [hc, hds, true_and, not_false_eq_true, if_true, Option.map_some,
          Option.getD_some, Bool.false_eq_true] at hcut
        have hdigits : (exponentSign cs).2 ≠ [] := by
          intro h
          exact hds (by rw [h]; rfl)
        have hcs : cs ≠ [] := by
          rintro rfl
          exact hdigits rfl
        simp only [exponentSign_append hcs, spanDigits_append hcut.ne_nil, hc, hds, true_and,
          not_false_eq_true, if_true, Option.map_some, Bool.false_eq_true]
    · simp [hc]

theorem afterExponent_append {cs : Points} (hcut : Cut (afterExponent cs)) (more : Points) :
    afterExponent (cs ++ more) = afterExponent cs ++ more := by
  rw [afterExponent, afterExponent, exponentPart?_append hcut]
  cases exponentPart? cs <;> rfl

theorem head_of_cut_afterExponent {cs : Points} (hcut : Cut (afterExponent cs)) :
    cs ≠ [] ∧ cs.head? ≠ some (.char '.') := by
  cases cs with
  | nil => exact hcut.elim
  | cons c cs =>
    refine ⟨List.cons_ne_nil _ _, ?_⟩
    intro hc
    obtain rfl : c = .char '.' := Option.some.inj hc
    simp [afterExponent, exponentPart?_cons, Cut, continuesNumber] at hcut

/-- The text behind the whole part of the number in front. -/
def afterWhole (cs : Points) : Points := (wholePart (minus cs).2).2

/-- The number that the parts of a numeral make. -/
def numeral (negative : Bool) (whole : Points) (fraction : Option Points)
    (exponent : Option Int) : Except Fault Json :=
  if fraction.isNone ∧ exponent.isNone then
    if maxDigits < whole.length then .error (.oversizedInteger whole.length)
    else .ok (.int (if negative then -(natOfDigits whole : Int) else natOfDigits whole))
  else
    .ok (.float (Binary64.ofDecimal negative (natOfDigits (whole ++ fraction.getD []))
      (exponent.getD 0 - (fraction.getD []).length)))

theorem number_eq (cs : Points) :
    number cs =
      if (wholePart (minus cs).2).1.isEmpty then .error (.malformed .expectingValue cs.length)
      else
        (numeral (minus cs).1 (wholePart (minus cs).2).1
          ((fractionPart? (afterWhole cs)).map (·.1))
          ((exponentPart? (afterFraction (afterWhole cs))).map (·.1))).map
            (·, afterExponent (afterFraction (afterWhole cs))) := by
  simp only [number, afterWhole]
  split
  · rfl
  · generalize hfraction : fractionPart? (wholePart (minus cs).2).2 = fraction
    have hrest : (fraction.map (·.2)).getD (wholePart (minus cs).2).2 =
        afterFraction (wholePart (minus cs).2).2 := by rw [afterFraction, hfraction]
    rw [hrest]
    generalize hexponent : exponentPart? (afterFraction (wholePart (minus cs).2).2) = exponent
    rw [afterExponent, hexponent]
    cases fraction with
    | some r => cases exponent <;> rfl
    | none =>
      cases exponent with
      | some r => rfl
      | none =>
        simp only [numeral, Option.isNone_none, Option.map_none, and_self, if_true]
        split <;> rfl

theorem number_eq_ok {cs rest : Points} {v : Json} (h : number cs = .ok (v, rest)) :
    rest = afterExponent (afterFraction (afterWhole cs)) := by
  rw [number_eq] at h
  split at h
  · cases h
  · obtain ⟨w, -, heq⟩ := except_map_eq_ok.mp h
    exact (Prod.mk.inj heq).2.symm

theorem number_suffix {cs rest : Points} {v : Json} (h : number cs = .ok (v, rest)) :
    rest <:+ cs := by
  rw [number_eq_ok h]
  have hwhole : afterWhole cs <:+ cs := (wholePart_suffix _).trans (minus_suffix cs)
  exact (afterExponent_suffix _).trans ((afterFraction_suffix _).trans hwhole)

theorem number_append {cs rest : Points} {v : Json} (h : number cs = .ok (v, rest))
    (hcut : Cut rest) (more : Points) : number (cs ++ more) = .ok (v, rest ++ more) := by
  have hrest := number_eq_ok h
  subst hrest
  obtain ⟨hfraction, hpoint⟩ := head_of_cut_afterExponent hcut
  have hwhole : afterWhole cs ≠ [] := by
    intro hnil
    exact hfraction (by rw [hnil]; rfl)
  have hminus : cs ≠ [] := by
    rintro rfl
    exact hwhole rfl
  have hafter : afterWhole (cs ++ more) = afterWhole cs ++ more := by
    rw [afterWhole, minus_append hminus, wholePart_append hwhole]
    rfl
  rw [number_eq, minus_append hminus, wholePart_append hwhole, hafter,
    fractionPart?_append hfraction hpoint, afterFraction_append hfraction hpoint,
    exponentPart?_append hcut, afterExponent_append hcut]
  rw [number_eq] at h
  split at h
  · cases h
  · next hdigits =>
    obtain ⟨w, hw, heq⟩ := except_map_eq_ok.mp h
    simp only [Option.map_map, Function.comp_def] at hw ⊢
    rw [if_neg hdigits, hw, ← (Prod.mk.inj heq).1]
    rfl

/-- Entries with commas between them up to the closing bracket. -/
def entries (close : CodePoint) (missing : Complaint) (entry : Points → Scan α) :
    Nat → Points → Scan (List α)
  | 0, cs => .error (.malformed missing cs.length)
  | bound + 1, cs =>
    (entry cs).bind fun r =>
      match skipBlank r.2 with
      | [] => .error (.malformed .expectingComma 0)
      | c :: rest =>
        if c = close then .ok ([r.1], rest)
        else if c = .char ',' then
          (entries close missing entry bound (skipBlank rest)).map fun s => (r.1 :: s.1, s.2)
        else .error (.malformed .expectingComma (rest.length + 1))

/-- What stands between two brackets, the first of which has been passed. -/
def enclosed (close : CodePoint) (missing : Complaint) (entry : Points → Scan α) (cs : Points) :
    Scan (List α) :=
  match skipBlank cs with
  | [] => entries close missing entry 0 []
  | c :: rest =>
    if c = close then .ok ([], rest) else entries close missing entry (rest.length + 1) (c :: rest)

theorem items_eq (item : Points → Scan Json) (bound : Nat) (cs : Points) :
    items item bound cs = entries (.char ']') .expectingValue item bound cs := by
  induction bound generalizing cs with
  | zero => rfl
  | succ bound ih =>
    simp only [items, entries, ih]
    congr 1
    funext r
    split
    · next h => simp [h]
    · next h => simp [h]
    · next hclose hcomma =>
      split
      · next h => simp [h]
      · next c rest h =>
        have hc : c ≠ .char ']' := fun e => hclose rest (e ▸ h)
        have hc' : c ≠ .char ',' := fun e => hcomma rest (e ▸ h)
        simp [h, hc, hc']

theorem array_eq (item : Points → Scan Json) (cs : Points) :
    array item cs =
      (enclosed (.char ']') .expectingValue item cs).map fun r => (.arr r.1, r.2) := by
  unfold array enclosed
  simp only [items_eq]
  cases skipBlank cs with
  | nil => rfl
  | cons c rest =>
    by_cases hc : c = .char ']'
    · subst hc; simp [Except.map]
    · simp [hc]

theorem members_eq (item : Points → Scan Json) (bound : Nat) (cs : Points) :
    members item bound cs = entries (.char '\x7d') .expectingName (member item) bound cs := by
  induction bound generalizing cs with
  | zero => rfl
  | succ bound ih =>
    simp only [members, entries, ih]
    congr 1
    funext r
    split
    · next h => simp [h]
    · next h => simp [h]
    · next hclose hcomma =>
      split
      · next h => simp [h]
      · next c rest h =>
        have hc : c ≠ .char '\x7d' := fun e => hclose rest (e ▸ h)
        have hc' : c ≠ .char ',' := fun e => hcomma rest (e ▸ h)
        simp [h, hc, hc']

theorem object_eq (item : Points → Scan Json) (cs : Points) :
    object item cs =
      (enclosed (.char '\x7d') .expectingName (member item) cs).map fun r =>
        (.obj (Fields.ofAssignments r.1), r.2) := by
  unfold object enclosed
  simp only [members_eq]
  cases skipBlank cs with
  | nil => rfl
  | cons c rest =>
    by_cases hc : c = .char '\x7d'
    · subst hc; simp [Except.map, Fields.ofAssignments]
    · simp [hc]

/-- What is read stays the same when text is added, and the text is added to the rest. -/
structure Steady (scan : Points → Scan α) : Prop where
  suffix : ∀ {cs rest : Points} {a : α}, scan cs = .ok (a, rest) → rest <:+ cs
  append : ∀ {cs rest : Points} {a : α}, scan cs = .ok (a, rest) → Cut rest →
    ∀ more, scan (cs ++ more) = .ok (a, rest ++ more)

section
variable {close : CodePoint} {missing : Complaint} {entry : Points → Scan α}

theorem entries_eq_ok {bound : Nat} {cs rest : Points} {as : List α} :
    entries close missing entry (bound + 1) cs = .ok (as, rest) ↔
      ∃ a left c tail, entry cs = .ok (a, left) ∧ skipBlank left = c :: tail ∧
        (c = close ∧ as = [a] ∧ rest = tail ∨
          c ≠ close ∧ c = .char ',' ∧ ∃ as', as = a :: as' ∧
            entries close missing entry bound (skipBlank tail) = .ok (as', rest)) := by
  simp only [entries, except_bind_eq_ok, Prod.exists]
  refine exists_congr fun a => exists_congr fun left => ?_
  cases hleft : skipBlank left with
  | nil => simp
  | cons c tail =>
    by_cases hclose : c = close
    · simp [hclose, and_left_comm, eq_comm]
    · by_cases hcomma : c = .char ','
      · subst hcomma
        simp only [hclose, if_false, if_true, except_map_eq_ok, Prod.mk.injEq, Prod.exists,
          List.cons.injEq]
        constructor
        · rintro ⟨ha, as', rest', has, rfl, rfl⟩
          exact ⟨.char ',', tail, ha, ⟨rfl, rfl⟩, .inr ⟨hclose, rfl, as', rfl, has⟩⟩
        · rintro ⟨_, _, ha, ⟨rfl, rfl⟩, ⟨h, -⟩ | ⟨-, -, as', rfl, has⟩⟩
          · exact absurd h hclose
          · exact ⟨ha, as', rest, has, rfl, rfl⟩
      · simp [hclose, hcomma]

theorem entries_suffix (hentry : Steady entry) {bound : Nat} {cs rest : Points} {as : List α}
    (h : entries close missing entry bound cs = .ok (as, rest)) : rest <:+ cs := by
  induction bound generalizing cs as with
  | zero => cases h
  | succ bound ih =>
    obtain ⟨a, left, c, tail, ha, hleft, hcase⟩ := entries_eq_ok.mp h
    have htail : tail <:+ cs := by
      have hblank : c :: tail <:+ left := hleft ▸ skipBlank_suffix left
      exact (List.suffix_cons c tail).trans (hblank.trans (hentry.suffix ha))
    rcases hcase with ⟨-, -, rfl⟩ | ⟨-, -, as', -, has⟩
    · exact htail
    · exact (ih has).trans ((skipBlank_suffix tail).trans htail)

theorem entries_nil (hentry : Steady entry) (bound : Nat) (as : List α) (rest : Points) :
    entries close missing entry bound [] ≠ .ok (as, rest) := by
  cases bound with
  | zero => exact nofun
  | succ bound =>
    intro h
    obtain ⟨a, left, c, tail, ha, hleft, -⟩ := entries_eq_ok.mp h
    obtain rfl : left = [] := List.suffix_nil.mp (hentry.suffix ha)
    cases hleft

theorem entries_append (hentry : Steady entry) (hclose : continuesNumber close = false)
    {bound bound' : Nat} {cs rest : Points} {as : List α}
    (h : entries close missing entry bound cs = .ok (as, rest)) (hbound : bound ≤ bound')
    (more : Points) :
    entries close missing entry bound' (cs ++ more) = .ok (as, rest ++ more) := by
  induction bound generalizing cs as bound' with
  | zero => cases h
  | succ bound ih =>
    obtain ⟨bound', rfl⟩ : ∃ n, bound' = n + 1 := ⟨bound' - 1, by omega⟩
    obtain ⟨a, left, c, tail, ha, hleft, hcase⟩ := entries_eq_ok.mp h
    have hcut : Cut left := by
      refine cut_of_skipBlank hleft ?_
      rcases hcase with ⟨rfl, -⟩ | ⟨-, rfl, -⟩
      · exact hclose
      · rfl
    have hleft' : skipBlank (left ++ more) = c :: (tail ++ more) := by
      rw [skipBlank_append (by rw [hleft]; simp), hleft, List.cons_append]
    refine entries_eq_ok.mpr
      ⟨a, left ++ more, c, tail ++ more, hentry.append ha hcut more, hleft', ?_⟩
    rcases hcase with ⟨hc, has, rfl⟩ | ⟨hc, hcomma, as', has, htail⟩
    · exact .inl ⟨hc, has, rfl⟩
    · have hblank : skipBlank tail ≠ [] := by
        intro hnil
        exact entries_nil hentry bound as' rest (hnil ▸ htail)
      refine .inr ⟨hc, hcomma, as', has, ?_⟩
      rw [skipBlank_append hblank]
      exact ih htail (by omega)

theorem enclosed_suffix (hentry : Steady entry) {cs rest : Points} {as : List α}
    (h : enclosed close missing entry cs = .ok (as, rest)) : rest <:+ cs := by
  unfold enclosed at h
  split at h
  · cases h
  · next c tail hblank =>
    have hcs : c :: tail <:+ cs := hblank ▸ skipBlank_suffix cs
    split at h
    · obtain ⟨-, rfl⟩ := Prod.mk.inj (Except.ok.inj h)
      exact (List.suffix_cons c tail).trans hcs
    · exact (entries_suffix hentry h).trans hcs

theorem enclosed_append (hentry : Steady entry) (hclose : continuesNumber close = false)
    {cs rest : Points} {as : List α} (h : enclosed close missing entry cs = .ok (as, rest))
    (more : Points) :
    enclosed close missing entry (cs ++ more) = .ok (as, rest ++ more) := by
  unfold enclosed at h
  split at h
  · cases h
  · next c tail hblank =>
    have hblank' : skipBlank (cs ++ more) = c :: (tail ++ more) := by
      rw [skipBlank_append (by rw [hblank]; simp), hblank, List.cons_append]
    simp only [enclosed, hblank']
    split at h
    · next hc =>
      obtain ⟨rfl, rfl⟩ := Prod.mk.inj (Except.ok.inj h)
      rw [if_pos hc]
    · next hc =>
      rw [if_neg hc]
      exact entries_append hentry hclose h (by simp) more

end

theorem name_suffix {cs rest : Points} {s : String} (h : name cs = .ok (s, rest)) :
    rest <:+ cs := by
  unfold name at h
  split at h
  · next tail =>
    obtain ⟨r, hr, -⟩ := (scan_map_eq_ok (f := Points.spelt)).mp h
    exact (stringBody_suffix hr).trans (List.suffix_cons _ _)
  · cases h

theorem name_append {cs rest : Points} {s : String} (h : name cs = .ok (s, rest))
    (more : Points) : name (cs ++ more) = .ok (s, rest ++ more) := by
  unfold name at h
  split at h
  · next tail =>
    obtain ⟨r, hr, rfl⟩ := (scan_map_eq_ok (f := Points.spelt)).mp h
    rw [List.cons_append, name, stringBody_append hr]
    rfl
  · cases h

theorem colon_eq_ok {cs rest : Points} :
    colon cs = .ok rest ↔ ∃ tail, skipBlank cs = .char ':' :: tail ∧ skipBlank tail = rest := by
  unfold colon
  split
  · next tail h => simp [h]
  · next h => simpa using fun tail htail => absurd htail (h tail)

variable {item : Points → Scan Json}

theorem member_eq_ok {cs rest : Points} {m : String × Json} :
    member item cs = .ok (m, rest) ↔
      ∃ left tail, name cs = .ok (m.1, left) ∧ skipBlank left = .char ':' :: tail ∧
        item (skipBlank tail) = .ok (m.2, rest) := by
  simp only [member, except_bind_eq_ok, except_map_eq_ok, colon_eq_ok, Prod.exists]
  constructor
  · rintro ⟨key, left, hname, _, ⟨tail, hcolon, rfl⟩, v, rest', hitem, heq⟩
    obtain ⟨rfl, rfl⟩ := Prod.mk.inj heq
    exact ⟨left, tail, hname, hcolon, hitem⟩
  · rintro ⟨left, tail, hname, hcolon, hitem⟩
    exact ⟨m.1, left, hname, _, ⟨tail, hcolon, rfl⟩, m.2, rest, hitem, rfl⟩

theorem steady_member (hitem : Steady item) : Steady (member item) where
  suffix h := by
    obtain ⟨left, tail, hname, hcolon, hv⟩ := member_eq_ok.mp h
    have hleft : .char ':' :: tail <:+ left := hcolon ▸ skipBlank_suffix left
    have htail := (skipBlank_suffix tail).trans (List.suffix_cons (.char ':') tail)
    exact (hitem.suffix hv).trans (htail.trans (hleft.trans (name_suffix hname)))
  append h hcut more := by
    obtain ⟨left, tail, hname, hcolon, hv⟩ := member_eq_ok.mp h
    have htail : skipBlank tail ≠ [] := by
      intro hnil
      have hrest := hitem.suffix hv
      rw [hnil, List.suffix_nil] at hrest
      exact hcut.ne_nil hrest
    refine member_eq_ok.mpr ⟨left ++ more, tail ++ more, name_append hname more, ?_, ?_⟩
    · rw [skipBlank_append (by rw [hcolon]; simp), hcolon, List.cons_append]
    · rw [skipBlank_append htail]
      exact hitem.append hv hcut more

theorem array_suffix (hitem : Steady item) {cs rest : Points} {v : Json}
    (h : array item cs = .ok (v, rest)) : rest <:+ cs := by
  obtain ⟨r, hr, -⟩ := (scan_map_eq_ok (f := arr)).mp (array_eq item cs ▸ h)
  exact enclosed_suffix hitem hr

theorem array_append (hitem : Steady item) {cs rest : Points} {v : Json}
    (h : array item cs = .ok (v, rest)) (more : Points) :
    array item (cs ++ more) = .ok (v, rest ++ more) := by
  obtain ⟨r, hr, rfl⟩ := (scan_map_eq_ok (f := arr)).mp (array_eq item cs ▸ h)
  rw [array_eq, enclosed_append hitem rfl hr]
  rfl

theorem object_suffix (hitem : Steady item) {cs rest : Points} {v : Json}
    (h : object item cs = .ok (v, rest)) : rest <:+ cs := by
  obtain ⟨r, hr, -⟩ :=
    (scan_map_eq_ok (f := fun r => obj (Fields.ofAssignments r))).mp (object_eq item cs ▸ h)
  exact enclosed_suffix (steady_member hitem) hr

theorem object_append (hitem : Steady item) {cs rest : Points} {v : Json}
    (h : object item cs = .ok (v, rest)) (more : Points) :
    object item (cs ++ more) = .ok (v, rest ++ more) := by
  obtain ⟨r, hr, rfl⟩ :=
    (scan_map_eq_ok (f := fun r => obj (Fields.ofAssignments r))).mp (object_eq item cs ▸ h)
  rw [object_eq, enclosed_append (steady_member hitem) rfl hr]
  rfl

theorem mem_namedValues {p : String × Json} :
    p ∈ namedValues ↔ p = ("null", .null) ∨ p = ("true", .bool true) ∨ p = ("false", .bool false) ∨
      p = ("NaN", .float .nan) ∨ p = ("Infinity", .float (.infinity false)) ∨
      p = ("-Infinity", .float (.infinity true)) := by
  simp [namedValues]

theorem named?_eq_some {cs rest : Points} {v : Json} :
    named? cs = some (v, rest) ↔ ∃ p ∈ namedValues, p.2 = v ∧ cs = .ofString p.1 ++ rest := by
  constructor
  · intro h
    obtain ⟨p, hp, heq⟩ := List.exists_of_findSome?_eq_some h
    split at heq
    · next hpre =>
      obtain ⟨rfl, rfl⟩ := Prod.mk.inj (Option.some.inj heq)
      exact ⟨p, hp, rfl, (List.prefix_iff_eq_append.mp (List.isPrefixOf_iff_prefix.mp hpre)).symm⟩
    · cases heq
  · rintro ⟨p, hp, rfl, rfl⟩
    rcases mem_namedValues.mp hp with rfl | rfl | rfl | rfl | rfl | rfl <;> rfl

theorem named?_append {cs rest : Points} {v : Json} (h : named? cs = some (v, rest))
    (more : Points) : named? (cs ++ more) = some (v, rest ++ more) := by
  obtain ⟨p, hp, hv, rfl⟩ := named?_eq_some.mp h
  exact named?_eq_some.mpr ⟨p, hp, hv, List.append_assoc _ _ _⟩

theorem isDigit_of_number {cs rest : Points} {v : Json} (h : number cs = .ok (v, rest)) :
    ∃ c tail, c.isDigit ∧ (cs = c :: tail ∨ cs = .char '-' :: c :: tail) := by
  have hwhole : ∀ cs, (wholePart cs).1.isEmpty = false → ∃ c tail, c.isDigit ∧ cs = c :: tail := by
    intro cs h
    unfold wholePart at h
    split at h
    · next tail => exact ⟨.char '0', tail, rfl, rfl⟩
    · cases cs with
      | nil => cases h
      | cons c tail =>
        by_cases hc : c.isDigit
        · exact ⟨c, tail, hc, rfl⟩
        · simp [spanDigits, hc] at h
  rw [number_eq] at h
  split at h
  · cases h
  · next hne =>
    obtain ⟨c, tail, hc, htail⟩ := hwhole (minus cs).2 (by simpa using hne)
    refine ⟨c, tail, hc, ?_⟩
    unfold minus at htail
    split at htail
    · exact .inr (congrArg _ htail)
    · exact .inl htail

theorem named?_eq_none_of_number {cs rest : Points} {v : Json}
    (h : number cs = .ok (v, rest)) (more : Points) : named? (cs ++ more) = none := by
  obtain ⟨c, tail, hc, hcs⟩ := isDigit_of_number h
  refine Option.eq_none_iff_forall_not_mem.mpr fun ⟨w, left⟩ hw => ?_
  obtain ⟨p, hp, -, heq⟩ := named?_eq_some.mp hw
  have hhead : ∀ {cs : Points}, Points.ofString p.1 ++ left = c :: cs → False := by
    intro cs h
    rcases mem_namedValues.mp hp with rfl | rfl | rfl | rfl | rfl | rfl <;>
      simp [Points.ofString] at h <;> simp [← h.1] at hc
  have hminus : ∀ {cs : Points}, Points.ofString p.1 ++ left = .char '-' :: c :: cs → False := by
    intro cs h
    rcases mem_namedValues.mp hp with rfl | rfl | rfl | rfl | rfl | rfl <;>
      simp [Points.ofString] at h
    simp [← h.1] at hc
  rcases hcs with rfl | rfl
  · exact hhead heq.symm
  · exact hminus heq.symm

theorem value_quote (depth : Nat) (cs : Points) :
    value depth (.char '"' :: cs) =
      (stringBody cs).map fun r => (ofPoints r.1, r.2) := by
  cases depth <;> rfl

theorem value_of_head_ne {c : CodePoint} (hquote : c ≠ .char '"') (hbracket : c ≠ .char '[')
    (hbrace : c ≠ .char '\x7b')
    (depth : Nat) (cs : Points) :
    value depth (c :: cs) = ((named? (c :: cs)).map .ok).getD (number (c :: cs)) := by
  unfold value
  split
  · next h => exact absurd (List.cons.inj h).1 hquote
  · next h => exact absurd (List.cons.inj h).1 hbracket
  · next h => exact absurd (List.cons.inj h).1 hbrace
  · next h => exact absurd (List.cons.inj h).1 hbracket
  · next h => exact absurd (List.cons.inj h).1 hbrace
  · cases named? (c :: cs) <;> rfl

theorem value_nil (depth : Nat) : value depth [] = .error (.malformed .expectingValue 0) := by
  cases depth <;> rfl

theorem value_eq_ok {depth : Nat} {cs rest : Points} {v : Json}
    (h : value depth cs = .ok (v, rest)) :
    (∃ tail s, cs = .char '"' :: tail ∧ stringBody tail = .ok (s, rest) ∧
        v = ofPoints s) ∨
      (∃ d tail, depth = d + 1 ∧ cs = .char '[' :: tail ∧ array (value d) tail = .ok (v, rest)) ∨
      (∃ d tail, depth = d + 1 ∧ cs = .char '\x7b' :: tail ∧ object (value d) tail = .ok (v, rest)) ∨
      ∃ c tail, cs = c :: tail ∧ (c ≠ .char '"' ∧ c ≠ .char '[' ∧ c ≠ .char '\x7b') ∧
        (named? cs = some (v, rest) ∨ number cs = .ok (v, rest)) := by
  cases cs with
  | nil => simp [value_nil] at h
  | cons c tail =>
    by_cases hquote : c = .char '"'
    · subst hquote
      obtain ⟨s, hs, rfl⟩ := (scan_map_eq_ok (f := ofPoints)).mp (value_quote depth tail ▸ h)
      exact .inl ⟨tail, s, rfl, hs, rfl⟩
    · by_cases hbracket : c = .char '['
      · subst hbracket
        cases depth with
        | zero => cases h
        | succ d => exact .inr (.inl ⟨d, tail, rfl, rfl, h⟩)
      · by_cases hbrace : c = .char '\x7b'
        · subst hbrace
          cases depth with
          | zero => cases h
          | succ d => exact .inr (.inr (.inl ⟨d, tail, rfl, rfl, h⟩))
        · refine .inr (.inr (.inr ⟨c, tail, rfl, ⟨hquote, hbracket, hbrace⟩, ?_⟩))
          rw [value_of_head_ne hquote hbracket hbrace] at h
          cases hnamed : named? (c :: tail) with
          | some r =>
            rw [hnamed] at h
            exact .inl (congrArg some (Except.ok.inj h))
          | none =>
            rw [hnamed] at h
            exact .inr h

theorem steady_value_of {depth : Nat} (hitem : ∀ d, depth = d + 1 → Steady (value d)) :
    Steady (value depth) where
  suffix {cs rest v} h := by
    rcases value_eq_ok h with ⟨tail, s, rfl, hs, -⟩ | ⟨d, tail, hd, rfl, hv⟩ |
      ⟨d, tail, hd, rfl, hv⟩ | ⟨-, -, -, -, hv | hv⟩
    · exact (stringBody_suffix hs).trans (List.suffix_cons _ _)
    · exact (array_suffix (hitem d hd) hv).trans (List.suffix_cons _ _)
    · exact (object_suffix (hitem d hd) hv).trans (List.suffix_cons _ _)
    · obtain ⟨p, -, -, rfl⟩ := named?_eq_some.mp hv
      exact List.suffix_append _ _
    · exact number_suffix hv
  append {cs rest v} h hcut more := by
    rcases value_eq_ok h with ⟨tail, s, rfl, hs, rfl⟩ | ⟨d, tail, rfl, rfl, hv⟩ |
      ⟨d, tail, rfl, rfl, hv⟩ | ⟨c, tail, rfl, ⟨hquote, hbracket, hbrace⟩, hv⟩
    · rw [List.cons_append, value_quote, stringBody_append hs]
      rfl
    · exact array_append (hitem d rfl) hv more
    · exact object_append (hitem d rfl) hv more
    · rw [List.cons_append, value_of_head_ne hquote hbracket hbrace, ← List.cons_append]
      rcases hv with hv | hv
      · rw [named?_append hv]
        rfl
      · rw [named?_eq_none_of_number hv]
        exact number_append hv hcut more

theorem steady_value (depth : Nat) : Steady (value depth) := by
  induction depth with
  | zero => exact steady_value_of nofun
  | succ depth ih =>
    refine steady_value_of fun d hd => ?_
    obtain rfl : depth = d := by omega
    exact ih

theorem readFront_brace (cs : Points) :
    readFront (.char '\x7b' :: cs) = object (value (maxDepth - 1)) cs := rfl

/-- An object is over with its last brace, whatever follows. -/
theorem readFront_brace_append {cs rest : Points} {v : Json}
    (h : readFront (.char '\x7b' :: cs) = .ok (v, rest)) (more : Points) :
    readFront (.char '\x7b' :: (cs ++ more)) = .ok (v, rest ++ more) := by
  rw [readFront_brace] at h ⊢
  exact object_append (steady_value _) h more

theorem readFront_brace_suffix {cs rest : Points} {v : Json}
    (h : readFront (.char '\x7b' :: cs) = .ok (v, rest)) : rest <:+ cs := by
  rw [readFront_brace] at h
  exact object_suffix (steady_value _) h

theorem brace_of_value_obj {depth : Nat} {cs rest : Points} {fields : Fields}
    (h : value depth cs = .ok (.obj fields, rest)) : ∃ tail, cs = .char '\x7b' :: tail := by
  rcases value_eq_ok h with ⟨-, s, -, -, hv⟩ | ⟨d, tail, -, -, hv⟩ | ⟨d, tail, -, rfl, -⟩ |
    ⟨c, tail, -, -, hv | hv⟩
  · have hfields := (congrArg fields? hv).trans (fields?_ofPoints s)
    cases hfields
  · obtain ⟨r, -, heq⟩ := except_map_eq_ok.mp (array_eq _ tail ▸ hv)
    cases heq
  · exact ⟨tail, rfl⟩
  · obtain ⟨p, hp, hv, -⟩ := named?_eq_some.mp hv
    rcases mem_namedValues.mp hp with rfl | rfl | rfl | rfl | rfl | rfl <;> cases hv
  · rw [number_eq] at hv
    split at hv
    · cases hv
    · obtain ⟨w, hw, heq⟩ := except_map_eq_ok.mp hv
      obtain ⟨rfl, -⟩ := Prod.mk.inj heq
      unfold numeral at hw
      split at hw
      · split at hw <;> cases hw
      · cases hw

/-- No object ends inside another that begins at the same brace. -/
theorem not_readFront_of_prefix {cut rest left : Points} {v w : Json}
    (hwhole : readFront (.char '\x7b' :: (cut ++ rest)) = .ok (v, [])) (hrest : rest ≠ []) :
    readFront (.char '\x7b' :: cut) ≠ .ok (w, left) := by
  intro h
  have hboth := (readFront_brace_append h rest).symm.trans hwhole
  have hnil : left ++ rest = [] := (Prod.mk.inj (Except.ok.inj hboth)).2
  exact hrest (List.append_eq_nil_iff.mp hnil).2

theorem readPoints_eq_ok {cs : Points} {v : Json} (h : readPoints cs = .ok v) :
    ∃ rest, readFront (skipBlank cs) = .ok (v, rest) ∧ skipBlank rest = [] := by
  unfold readPoints at h
  split at h
  · cases h
  · obtain ⟨⟨w, rest⟩, hfront, hblank⟩ := except_bind_eq_ok.mp h
    simp only at hblank
    split at hblank
    · next hnil =>
      obtain rfl := Except.ok.inj hblank
      exact ⟨rest, hfront, hnil⟩
    · cases hblank

theorem readPoints_of_readFront {c : CodePoint} {cs rest : Points} {v : Json}
    (hmark : c ≠ .char '\uFEFF') (h : readFront (skipBlank (c :: cs)) = .ok (v, rest))
    (hrest : skipBlank rest = []) :
    readPoints (c :: cs) = .ok v := by
  unfold readPoints
  split
  · next heq => exact absurd (List.cons.inj heq).1 hmark
  · rw [h]
    simp only [Except.bind, hrest]

theorem readFront_of_readPoints {cs : Points} {v : Json} {first last : CodePoint}
    (h : readPoints cs = .ok v) (hfirst : cs.head? = some first) (hlast : cs.getLast? = some last)
    (hblank : isBlank first = false ∧ isBlank last = false) : readFront cs = .ok (v, []) := by
  obtain ⟨rest, hfront, hrest⟩ := readPoints_eq_ok h
  have hcs : skipBlank cs = cs := by
    cases cs with
    | nil => cases hfirst
    | cons c cs =>
      obtain rfl : c = first := Option.some.inj hfirst
      simp [skipBlank, hblank.1]
  rw [hcs] at hfront
  have hnil : rest = [] := by
    by_contra hne
    have hsuffix := (steady_value maxDepth).suffix hfront
    obtain ⟨before, rfl⟩ := hsuffix
    have hmem : last ∈ rest := by
      rw [List.getLast?_append_of_ne_nil _ hne] at hlast
      exact List.mem_of_getLast? hlast
    have hall : isBlank last = true := List.dropWhile_eq_nil_iff.mp hrest last hmem
    rw [hblank.2] at hall
    cases hall
  rw [hfront, hnil]

end BlueprintPatch.Json
