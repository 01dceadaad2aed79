import BlueprintPatch.Json.Writer
import BlueprintPatch.Proofs.Reading

/-! Written strings read back. A character is written as itself, as a short escape or as one escape
for each unit of its UTF-16 form, and its pieces are joined to the character again. -/
namespace BlueprintPatch.Json

theorem hexDigit?_digitChar : ∀ n < 16, Text.hexDigit? (Nat.digitChar n) = some n := by decide

theorem hex_one {n : Nat} (h : n < 16) : Text.hex 1 n = [Nat.digitChar n] := by
  simp [Text.hex, Nat.toDigits_of_lt_base h]

theorem hex_succ (k n : Nat) :
    Text.hex (k + 2) n = Text.hex (k + 1) (n / 16) ++ [Nat.digitChar (n % 16)] := by
  by_cases h : n < 16
  · have hdiv : n / 16 = 0 := Nat.div_eq_of_lt h
    have hmod : n % 16 = n := Nat.mod_eq_of_lt h
    simp [Text.hex, Nat.toDigits_of_lt_base h, hdiv, hmod, List.replicate_succ']
  · simp [Text.hex, Nat.toDigits_of_base_le (b := 16) (by decide) (Nat.not_lt.mp h)]

theorem hex_four {n : Nat} (h : n < 0x10000) :
    Text.hex 4 n = [Nat.digitChar (n / 4096), Nat.digitChar (n / 256 % 16),
      Nat.digitChar (n / 16 % 16), Nat.digitChar (n % 16)] := by
  have h1 : n / 16 / 16 = n / 256 := Nat.div_div_eq_div_mul n 16 16
  have h2 : n / 256 / 16 = n / 4096 := Nat.div_div_eq_div_mul n 256 16
  rw [hex_succ 2, hex_succ 1, hex_succ 0, h1, h2, hex_one (by omega)]
  rfl

theorem hexUnit?_hex {n : Nat} (h : n < 0x10000) :
    hexUnit? (.char (Nat.digitChar (n / 4096))) (.char (Nat.digitChar (n / 256 % 16)))
      (.char (Nat.digitChar (n / 16 % 16))) (.char (Nat.digitChar (n % 16))) = some n := by
  have hvalue : Text.ofDigits 16 [n / 4096, n / 256 % 16, n / 16 % 16, n % 16] = n := by
    simp only [Text.ofDigits, List.foldl_cons, List.foldl_nil]
    omega
  simp [hexUnit?, CodePoint.char?, hexDigit?_digitChar (n / 4096) (by omega),
    hexDigit?_digitChar (n / 256 % 16) (by omega), hexDigit?_digitChar (n / 16 % 16) (by omega),
    hexDigit?_digitChar (n % 16) (by omega), hvalue]

theorem pieces_unitEscape {n : Nat} (h : n < 0x10000) (opening : Nat) (e : CodePoint)
    (rest : Points) :
    pieces opening ((unitEscape n).map .char ++ e :: rest) =
      (pieces opening (e :: rest)).map fun r => (.unit n :: r.1, r.2) := by
  rw [unitEscape, hex_four h]
  exact pieces_unit (hexUnit?_hex h) opening e rest

theorem pieces_pair {n m : Nat} (hn : n < 0x10000) (hm : m < 0x10000) (opening : Nat)
    (e : CodePoint) (rest : Points) :
    pieces opening ((unitEscape n ++ unitEscape m).map .char ++ e :: rest) =
      (pieces opening (e :: rest)).map fun r => (.unit n :: .unit m :: r.1, r.2) := by
  obtain ⟨tail, htail⟩ :
      ∃ tail, (unitEscape m).map .char ++ e :: rest = .char '\\' :: tail := ⟨_, rfl⟩
  rw [List.map_append, List.append_assoc, htail, pieces_unitEscape hn, ← htail,
    pieces_unitEscape hm]
  cases pieces opening (e :: rest) <;> rfl

/-- A unit that is no surrogate is a character, whatever follows. -/
theorem join_unit {n : Nat} (hn : ¬ (0xD800 ≤ n ∧ n < 0xE000)) (ps : List Piece) :
    join (.unit n :: ps) = .char (Char.ofNat n) :: join ps := by
  have hhigh : isHighSurrogate n = false := by simp [isHighSurrogate]; omega
  have hunit : CodePoint.ofUnit n = .char (Char.ofNat n) := dif_neg hn
  cases ps with
  | nil => rw [join.eq_4 n [] nofun, hunit]
  | cons p ps => cases p <;> simp [join, hhigh, hunit]

theorem join_pair {n m : Nat} (hhigh : isHighSurrogate n = true) (hlow : isLowSurrogate m = true)
    (ps : List Piece) :
    join (.unit n :: .unit m :: ps) =
      .char (Char.ofNat (0x10000 + (n - 0xD800) * 0x400 + (m - 0xDC00))) :: join ps := by
  simp [join, hhigh, hlow]

/-- The text of a character is read as pieces that make the character. An escape needs a code
point after it, so the text is not to end there. -/
theorem exists_pieces_escapeChar (c : Char) :
    ∃ qs : List Piece, (∀ opening e rest, pieces opening ((escapeChar c).map .char ++ e :: rest) =
        (pieces opening (e :: rest)).map fun r => (qs ++ r.1, r.2)) ∧
      ∀ ps, join (qs ++ ps) = .char c :: join ps := by
  have hshort : ∀ d, d ≠ 'u' → simpleEscape? d = some c → ∀ opening e rest,
      pieces opening (['\\', d].map .char ++ e :: rest) =
        (pieces opening (e :: rest)).map fun r => ([.point (.char c)] ++ r.1, r.2) :=
    fun d hd he opening e rest =>
      pieces_escape (c := .char d) (by simpa using hd) he opening (e :: rest)
  unfold escapeChar
  split
  · exact ⟨_, hshort '"' (by decide) rfl, fun _ => rfl⟩
  · exact ⟨_, hshort '\\' (by decide) rfl, fun _ => rfl⟩
  · exact ⟨_, hshort 'n' (by decide) rfl, fun _ => rfl⟩
  · exact ⟨_, hshort 'r' (by decide) rfl, fun _ => rfl⟩
  · exact ⟨_, hshort 't' (by decide) rfl, fun _ => rfl⟩
  · exact ⟨_, hshort 'b' (by decide) rfl, fun _ => rfl⟩
  · exact ⟨_, hshort 'f' (by decide) rfl, fun _ => rfl⟩
  · next hquote hslash _ _ _ _ _ =>
    have hvalid : c.toNat.isValidChar := c.valid
    have hplanes : c.toNat < 0x110000 ∧ ¬ (0xD800 ≤ c.toNat ∧ c.toNat < 0xE000) := by
      unfold Nat.isValidChar at hvalid
      omega
    dsimp only
    split
    · next hprintable =>
      have hprint : ¬ (CodePoint.char c).code < 0x20 := Nat.not_lt.mpr hprintable.1
      exact ⟨[.point (.char c)], fun opening e rest => pieces_point (by simpa using hquote)
        (by simpa using hslash) hprint opening _, fun _ => rfl⟩
    · split
      · next hplane =>
        refine ⟨[.unit c.toNat], pieces_unitEscape hplane, fun ps => ?_⟩
        rw [List.singleton_append, join_unit hplanes.2, Char.ofNat_toNat]
      · next hplane =>
        generalize hfirst : 0xD800 + (c.toNat - 0x10000) / 0x400 = n
        generalize hsecond : 0xDC00 + (c.toNat - 0x10000) % 0x400 = m
        have hhigh : isHighSurrogate n = true := by simp [isHighSurrogate]; omega
        have hlow : isLowSurrogate m = true := by simp [isLowSurrogate]; omega
        have hvalue : 0x10000 + (n - 0xD800) * 0x400 + (m - 0xDC00) = c.toNat := by omega
        refine ⟨[.unit n, .unit m], pieces_pair (by omega) (by omega), fun ps => ?_⟩
        rw [List.cons_append, List.singleton_append, join_pair hhigh hlow, hvalue,
          Char.ofNat_toNat]

theorem exists_pieces_flatMap (cs : List Char) :
    ∃ qs : List Piece, (∀ opening rest,
        pieces opening ((cs.flatMap escapeChar).map .char ++ .char '"' :: rest) =
          .ok (qs, rest)) ∧ join qs = cs.map .char := by
  induction cs with
  | nil => exact ⟨[], fun _ _ => rfl, rfl⟩
  | cons c cs ih =>
    obtain ⟨qs, hqs, hjoin⟩ := ih
    obtain ⟨ps, hps, hjoinc⟩ := exists_pieces_escapeChar c
    refine ⟨ps ++ qs, fun opening rest => ?_, by rw [hjoinc, hjoin]; rfl⟩
    obtain ⟨e, tail, htail⟩ :
        ∃ e tail, (cs.flatMap escapeChar).map .char ++ .char '"' :: rest = e :: tail :=
      List.exists_cons_of_ne_nil (by simp)
    rw [List.flatMap_cons, List.map_append, List.append_assoc, htail, hps, ← htail, hqs]
    rfl

theorem stringBody_flatMap (s : String) (rest : Points) :
    stringBody ((s.toList.flatMap escapeChar).map .char ++ .char '"' :: rest) =
      .ok (.ofString s, rest) := by
  obtain ⟨qs, hqs, hjoin⟩ := exists_pieces_flatMap s.toList
  rw [stringBody, hqs]
  simp only [Except.map, hjoin, Points.ofString]

end BlueprintPatch.Json
