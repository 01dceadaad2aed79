import BlueprintPatch.Disk.Disk
import BlueprintPatch.Proofs.RoundTrip

/-! Written text is plain: it consists of printable ASCII characters and line ends of one kind, so a
file gives it back as it was written. -/
namespace BlueprintPatch.Json

/-- A line end or a printable ASCII character. -/
def isPlainChar (c : Char) : Bool := c = '\n' || (0x20 ≤ c.toNat && c.toNat < 0x7F)

def IsPlain (cs : List Char) : Prop := ∀ c ∈ cs, isPlainChar c = true

instance (cs : List Char) : Decidable (IsPlain cs) :=
  decidable_of_iff (cs.all isPlainChar = true) List.all_eq_true

theorem IsPlain.append {cs ds : List Char} (hcs : IsPlain cs) (hds : IsPlain ds) :
    IsPlain (cs ++ ds) := List.forall_mem_append.mpr ⟨hcs, hds⟩

theorem IsPlain.cons {c : Char} {cs : List Char} (hc : isPlainChar c = true) (hcs : IsPlain cs) :
    IsPlain (c :: cs) := List.forall_mem_cons.mpr ⟨hc, hcs⟩

theorem isPlain_replicate {c : Char} (hc : isPlainChar c = true) (n : Nat) :
    IsPlain (List.replicate n c) := by
  intro d hd
  exact List.eq_of_mem_replicate hd ▸ hc

theorem IsPlain.intercalate {sep : List Char} {texts : List (List Char)} (hsep : IsPlain sep)
    (h : ∀ text ∈ texts, IsPlain text) : IsPlain (List.intercalate sep texts) := by
  induction texts with
  | nil => simp [IsPlain]
  | cons text texts ih =>
    cases texts with
    | nil => simpa using h
    | cons next texts =>
      rw [List.intercalate_cons_cons]
      exact ((h _ List.mem_cons_self).append hsep).append
        (ih fun t ht => h t (List.mem_cons_of_mem _ ht))

theorem isPlain_digits {ds : List Char} (h : ∀ c ∈ ds, c.isDigit = true) : IsPlain ds := by
  intro c hc
  have hdigit := h c hc
  simp only [Char.isDigit, Bool.and_eq_true, decide_eq_true_eq] at hdigit
  simp only [isPlainChar, Bool.or_eq_true, Bool.and_eq_true, decide_eq_true_eq]
  have hlow : 48 ≤ c.toNat := hdigit.1
  have hhigh : c.toNat ≤ 57 := hdigit.2
  exact .inr (by omega)

theorem isPlain_toDigits (n : Nat) : IsPlain (Nat.toDigits 10 n) :=
  isPlain_digits fun _ => isDigit_toDigits

/-- Printable ASCII characters only, all on one line. -/
def IsPrintable (cs : List Char) : Prop := ∀ c ∈ cs, 0x20 ≤ c.toNat ∧ c.toNat < 0x7F

instance (cs : List Char) : Decidable (IsPrintable cs) := List.decidableBAll _ _

theorem IsPrintable.isPlain {cs : List Char} (h : IsPrintable cs) : IsPlain cs :=
  fun c hc => by simp [isPlainChar, h c hc]

theorem IsPrintable.append {cs ds : List Char} (hcs : IsPrintable cs) (hds : IsPrintable ds) :
    IsPrintable (cs ++ ds) := List.forall_mem_append.mpr ⟨hcs, hds⟩

theorem isPrintable_unitEscape {n : Nat} (h : n < 0x10000) : IsPrintable (unitEscape n) := by
  have hdigit : ∀ k < 16, 0x20 ≤ (Nat.digitChar k).toNat ∧ (Nat.digitChar k).toNat < 0x7F := by
    decide
  rw [unitEscape, hex_four h]
  intro c hc
  simp only [List.mem_cons, List.not_mem_nil, or_false] at hc
  rcases hc with rfl | rfl | rfl | rfl | rfl | rfl
  · decide
  · decide
  all_goals exact hdigit _ (by omega)

theorem isPrintable_escapeChar (c : Char) : IsPrintable (escapeChar c) := by
  have hvalid : c.toNat < 0x110000 := by
    have h : c.toNat.isValidChar := c.valid
    unfold Nat.isValidChar at h
    omega
  unfold escapeChar
  split
  · decide
  · decide
  · decide
  · decide
  · decide
  · decide
  · decide
  · dsimp only
    split
    · next hprintable => exact List.forall_mem_singleton.mpr hprintable
    · split
      · next hplane => exact isPrintable_unitEscape hplane
      · exact (isPrintable_unitEscape (by omega)).append (isPrintable_unitEscape (by omega))

theorem isPrintable_escapePoint : ∀ p : CodePoint, IsPrintable (escapePoint p)
  | .char c => isPrintable_escapeChar c
  | .half i => isPrintable_unitEscape (by rw [CodePoint.code]; omega)

theorem isPrintable_writePoints (ps : Points) : IsPrintable (writePoints ps) := by
  have hquote : IsPrintable ['"'] := by decide
  refine .append (.append hquote fun c hc => ?_) hquote
  obtain ⟨p, -, hp⟩ := List.mem_flatMap.mp hc
  exact isPrintable_escapePoint p c hp

theorem isPrintable_writeString (s : String) : IsPrintable (writeString s) :=
  isPrintable_writePoints _

theorem isPlain_writeString (s : String) : IsPlain (writeString s) :=
  (isPrintable_writeString s).isPlain

theorem isPlain_signText (negative : Bool) : IsPlain (signText negative) := by
  cases negative <;> simp [signText, IsPlain, isPlainChar]

open Shortest

theorem isPlain_layout (d : Decimal) : IsPlain (layout d) := by
  have hds := isPlain_toDigits d.digits
  have hzeros := isPlain_replicate (c := '0') rfl
  simp only [layout]
  split
  · unfold positional
    split
    · exact .cons rfl (.cons rfl ((hzeros _).append hds))
    · split
      · exact (hds.append (hzeros _)).append (.cons rfl (.cons rfl (by simp [IsPlain])))
      · refine .append (fun c hc => hds c (List.mem_of_mem_take hc)) (.cons rfl fun c hc => ?_)
        exact hds c (List.mem_of_mem_drop hc)
  · generalize (Nat.toDigits 10 d.digits).length + d.exponent - 1 = e
    have htail : IsPlain (if (Nat.toDigits 10 d.digits).tail.isEmpty then []
        else '.' :: (Nat.toDigits 10 d.digits).tail) := by
      split
      · simp [IsPlain]
      · exact .cons rfl fun c hc => hds c (List.mem_of_mem_tail hc)
    have hsign : IsPlain ['e', if e < 0 then '-' else '+'] := by
      split <;> exact .cons rfl (.cons rfl (by simp [IsPlain]))
    unfold scientific
    refine .append (.append (.append (.append ?_ htail) hsign) (hzeros _)) (isPlain_toDigits _)
    exact fun c hc => hds c (List.mem_of_mem_take hc)

theorem isPlain_text (x : Binary64) : IsPlain (x.text numberNames).toList := by
  simp only [Binary64.text]
  split
  · decide
  · next negative _ => cases negative <;> decide
  · next negative _ _ => cases negative <;> decide
  · next negative _ _ _ _ =>
    rw [String.toList_append, String.toList_ofList]
    refine .append ?_ (isPlain_layout _)
    cases negative <;> decide

theorem isPlain_lineBreak (depth : Nat) : IsPlain (lineBreak depth) :=
  .cons rfl (isPlain_replicate rfl _)

theorem isPlain_bracketed (style : Style) (level : Nat) {opening closing : Char}
    (hopening : isPlainChar opening = true) (hclosing : isPlainChar closing = true)
    {items : List (List Token)} (h : ∀ item ∈ items, IsPlain (charsOf item)) :
    IsPlain (charsOf (bracketed style level opening closing items)) := by
  have hnil : IsPlain [] := by simp [IsPlain]
  have haround : IsPlain (lead style level) ∧ IsPlain (gap style level) ∧
      IsPlain (trail style level) := by
    cases style with
    | line => exact ⟨hnil, .cons rfl hnil, hnil⟩
    | spread => exact ⟨isPlain_lineBreak _, isPlain_lineBreak _, isPlain_lineBreak _⟩
  by_cases hne : items = []
  · subst hne
    exact .cons hopening (.cons hclosing hnil)
  · rw [charsOf_bracketed style level _ _ hne]
    refine .cons hopening (haround.1.append (.append (.intercalate (.cons rfl haround.2.1) ?_)
      (haround.2.2.append (.cons hclosing hnil))))
    exact fun text htext => by
      obtain ⟨item, hitem, rfl⟩ := List.mem_map.mp htext
      exact h item hitem

mutual

theorem isPlain_tokens (style : Style) (level : Nat) :
    ∀ v : Json, IsPlain (charsOf (tokens style level v))
  | .null => by rw [tokens, charsOf_text]; decide
  | .bool true => by rw [tokens, charsOf_text]; decide
  | .bool false => by rw [tokens, charsOf_text]; decide
  | .int n => by
    rw [tokens, charsOf_integer, toList_toString]
    exact (isPlain_signText _).append (isPlain_toDigits _)
  | .float x => by
    rw [tokens, charsOf_text]
    exact isPlain_text x
  | .str s => by
    rw [tokens, charsOf_text]
    exact isPlain_writeString s
  | @brokenStr s => by
    rw [tokens, charsOf_text]
    exact (isPrintable_writePoints s.val).isPlain
  | .arr items => isPlain_bracketed style level rfl rfl (isPlain_itemTokens style (level + 1) items)
  | .obj fields =>
    isPlain_bracketed style level rfl rfl (isPlain_fieldTokens style (level + 1) fields)

theorem isPlain_itemTokens (style : Style) (level : Nat) :
    ∀ items : List Json, ∀ item ∈ itemTokens style level items, IsPlain (charsOf item)
  | [] => by simp [itemTokens]
  | v :: rest => by
    rw [itemTokens]
    exact List.forall_mem_cons.mpr
      ⟨isPlain_tokens style level v, isPlain_itemTokens style level rest⟩

theorem isPlain_fieldTokens (style : Style) (level : Nat) :
    ∀ fields : List (String × Json), ∀ item ∈ fieldTokens style level fields,
      IsPlain (charsOf item)
  | [] => by simp [fieldTokens]
  | (k, v) :: rest => by
    have hfield : charsOf (.text (writeString k ++ [':', ' ']) :: tokens style level v) =
        writeString k ++ [':', ' '] ++ charsOf (tokens style level v) := rfl
    have hcolon : IsPlain [':', ' '] := by decide
    rw [fieldTokens]
    refine List.forall_mem_cons.mpr ⟨?_, isPlain_fieldTokens style level rest⟩
    rw [hfield]
    exact ((isPlain_writeString k).append hcolon).append (isPlain_tokens style level v)

end

theorem unifyLineEnds_of_isPlain {cs : List Char} (h : IsPlain cs) : Text.unifyLineEnds cs = cs := by
  induction cs with
  | nil => rfl
  | cons c cs ih =>
    obtain ⟨hc, hcs⟩ := List.forall_mem_cons.mp h
    have hne : c ≠ '\r' := by
      rintro rfl
      cases hc
    rw [Text.unifyLineEnds.eq_3 c cs fun _ h => absurd h hne, if_neg hne, ih hcs]

theorem textOf_write (style : Style) (v : Json) :
    Disk.textOf (.text (v.write style)) = .ok (v.write style) := by
  have hplain : IsPlain (v.write style).toList := toList_write style v ▸ isPlain_tokens style 0 v
  rw [Disk.textOf, unifyLineEnds_of_isPlain hplain, String.ofList_toList]

end BlueprintPatch.Json
