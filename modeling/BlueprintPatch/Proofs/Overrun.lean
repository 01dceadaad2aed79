import BlueprintPatch.Proofs.Numerals
import BlueprintPatch.Proofs.TopLevel

/-! Where the search for a patch does not return. Text that breaks the grammar is passed over, as a
chunk and behind a brace, but at text that breaks a limit of the reader the search is given up. The
same text as a patch document is only reported as undecodable. -/
namespace BlueprintPatch.Reply

/-- Reading ends at a limit of the reader. -/
def Overruns {α : Type} (reading : Except Json.Fault α) (fault : Json.Fault) : Prop :=
  reading = .error fault ∧ ¬ fault.IsMalformed

/-- The text is read, or it breaks the grammar. -/
def Tolerated {α : Type} (reading : Except Json.Fault α) : Prop :=
  ∀ fault, reading = .error fault → fault.IsMalformed

/-- The first chunk that is not tolerated breaks the limit. -/
inductive ChunkOverruns : List Points → Json.Fault → Prop
  | here {chunk : Points} {chunks : List Points} {fault : Json.Fault} :
      Overruns (Json.readPoints chunk) fault → ChunkOverruns (chunk :: chunks) fault
  | later {chunk : Points} {chunks : List Points} {fault : Json.Fault} :
      Tolerated (Json.readPoints chunk) → ChunkOverruns chunks fault →
      ChunkOverruns (chunk :: chunks) fault

/-- A brace that is inside no object and behind no patch. -/
structure Reached (text : Points) (place : Nat) : Prop where
  brace : ∃ tail, text.drop place = .char '\x7b' :: tail
  clear : Clear text place

/-- No limit is broken from such a brace before the place. -/
def Spared (text : Points) (stop : Nat) : Prop :=
  ∀ place, place < stop → Reached text place → Tolerated (Json.readFront (text.drop place))

/-- The limit is broken from the first of these braces from which one is broken. -/
structure BraceOverruns (text : Points) (place : Nat) (fault : Json.Fault) : Prop where
  reached : Reached text place
  overruns : Overruns (Json.readFront (text.drop place)) fault
  spared : Spared text place

theorem Overruns.not_tolerated {α : Type} {reading : Except Json.Fault α} {fault : Json.Fault}
    (h : Overruns reading fault) : ¬ Tolerated reading :=
  fun htolerated => h.2 (htolerated fault h.1)

theorem Overruns.unique {α : Type} {reading : Except Json.Fault α} {fault fault' : Json.Fault}
    (h : Overruns reading fault) (h' : Overruns reading fault') : fault = fault' :=
  Except.error.inj (h.1.symm.trans h'.1)

theorem tolerated_of_ok {α : Type} {reading : Except Json.Fault α} {a : α}
    (h : reading = .ok a) : Tolerated reading :=
  fun _ hfault => absurd (hfault.symm.trans h) (by simp)

variable {chunks : List Points} {text : Points} {place : Nat} {fault : Json.Fault}

theorem joined_eq_error_iff : joined chunks = .error fault ↔ ChunkOverruns chunks fault := by
  induction chunks with
  | nil => exact ⟨nofun, nofun⟩
  | cons chunk chunks ih =>
    rw [joined_cons]
    rcases chunkText_cases chunk with ⟨first, hread, hlimit, htext⟩ | ⟨htolerated, htext⟩
    · have hover : Overruns (Json.readPoints chunk) first := ⟨hread, hlimit⟩
      rw [htext]
      constructor
      · intro h
        obtain rfl := Except.error.inj h
        exact .here hover
      · rintro (hother | ⟨htolerated, -⟩)
        · rw [hother.unique hover]
          rfl
        · exact absurd htolerated hover.not_tolerated
    · rw [htext]
      constructor
      · exact fun h => .later htolerated (ih.mp (Json.except_map_eq_error.mp h))
      · rintro (hover | ⟨-, hrest⟩)
        · exact absurd htolerated hover.not_tolerated
        · exact Json.except_map_eq_error.mpr (ih.mpr hrest)

theorem ChunkOverruns.exists_mem (h : ChunkOverruns chunks fault) :
    ∃ chunk ∈ chunks, Overruns (Json.readPoints chunk) fault := by
  induction h with
  | here hover => exact ⟨_, List.mem_cons_self, hover⟩
  | later _ _ ih =>
    obtain ⟨chunk, hchunk, hover⟩ := ih
    exact ⟨chunk, List.mem_cons_of_mem _ hchunk, hover⟩

theorem joined_eq_ok_iff :
    joined chunks = .ok (fullText chunks) ↔ ∀ fault, ¬ ChunkOverruns chunks fault := by
  simp only [← joined_eq_error_iff]
  cases h : joined chunks with
  | error fault => simp
  | ok cs => simp [joined_eq_ok h]

theorem Spared.next {stop : Nat} (h : Spared text stop) (hbarren : Barren text stop) :
    Spared text (stop + 1) := by
  intro place hlt hreached
  rcases Nat.lt_succ_iff_lt_or_eq.mp hlt with hlt | rfl
  · exact h place hlt hreached
  · obtain ⟨tail, htail⟩ := hreached.brace
    rcases hbarren with hnone | ⟨first, hfirst, hmalformed⟩
    · exact absurd htail (hnone tail)
    · intro fault hfault
      obtain rfl := Except.error.inj (hfirst.symm.trans hfault)
      exact hmalformed

theorem Spared.skip {start stop : Nat} {fields : Fields} (h : Spared text start)
    (hclear : Clear text start) (hobject : ObjectAt text start stop fields) : Spared text stop := by
  intro place hlt hreached
  rcases Nat.lt_trichotomy place start with hbefore | rfl | hinside
  · exact h place hbefore hreached
  · exact tolerated_of_ok hobject.read
  · have hends :=
      (hreached.clear start hinside (topLevel_of_clear hclear hobject) stop fields hobject).1
    exact absurd hlt (Nat.not_lt.mpr hends)

theorem Passes.spared {rest : Points} (h : Passes text rest) :
    ∃ stop, text.drop stop = rest ∧ Clear text stop ∧ Spared text stop := by
  obtain ⟨stop, -, hstop⟩ := h.to_place (P := fun stop => Clear text stop ∧ Spared text stop)
    (fun _ _ hkept hbarren => ⟨hkept.1.next hbarren.not_objectAt, hkept.2.next hbarren⟩)
    (fun _ _ _ hkept hobject hpatch => ⟨hkept.1.skip hobject hpatch, hkept.2.skip hkept.1 hobject⟩)
    ⟨clear_zero text, nofun⟩
  exact ⟨stop, hstop⟩

theorem Passes.braceOverruns {cs : Points} (h : Passes text (.char '\x7b' :: cs))
    (hover : Overruns (Json.readFront (.char '\x7b' :: cs)) fault) :
    ∃ place, BraceOverruns text place fault := by
  obtain ⟨place, hplace, hclear, hspared⟩ := h.spared
  exact ⟨place, ⟨⟨cs, hplace⟩, hclear⟩, hplace ▸ hover, hspared⟩

theorem search_eq_error_iff :
    search text.length text = .error fault ↔ ∃ place, BraceOverruns text place fault := by
  obtain ⟨rest, hpasses, hends⟩ := search_ends text.length text (Nat.le_refl _)
  constructor
  · intro h
    rw [h] at hends
    cases hends with
    | limit hread hlimit => exact hpasses.braceOverruns ⟨hread, hlimit⟩
  · rintro ⟨place, h⟩
    obtain ⟨stop, hrest, hclear, hspared⟩ := hpasses.spared
    have hstop : stop ≤ place := Nat.not_lt.mp fun hlt =>
      h.overruns.not_tolerated (hspared place hlt h.reached)
    -- The search ends no later than at the brace, and neither the end of the text nor a patch or
    -- another overrun stands before it.
    generalize search text.length text = result at hends ⊢
    cases hends with
    | nothing =>
      obtain ⟨tail, htail⟩ := h.reached.brace
      have hend : text.drop place = [] :=
        List.drop_eq_nil_iff.mpr (Nat.le_trans (List.drop_eq_nil_iff.mp hrest) hstop)
      cases htail.symm.trans hend
    | patch hpatch =>
      obtain ⟨behind, fields, -, hobject, hfields⟩ := hpatch.objectAt hrest
      rcases Nat.lt_or_eq_of_le hstop with hlt | rfl
      · have hbefore :=
          h.reached.clear stop hlt (topLevel_of_clear hclear hobject) behind fields hobject
        exact absurd hfields hbefore.2
      · exact absurd (tolerated_of_ok hobject.read) h.overruns.not_tolerated
    | limit hread hlimit =>
      have hover : Overruns (Json.readFront (text.drop stop)) _ := ⟨hrest ▸ hread, hlimit⟩
      rcases Nat.lt_or_eq_of_le hstop with hlt | rfl
      · exact absurd (h.spared stop hlt ⟨⟨_, hrest⟩, hclear⟩) hover.not_tolerated
      · rw [hover.unique h.overruns]

theorem extract_eq_error_iff :
    extract chunks = .error fault ↔ ChunkOverruns chunks fault ∨
      (∀ other, ¬ ChunkOverruns chunks other) ∧
        ∃ place, BraceOverruns (fullText chunks) place fault := by
  rw [extract, Json.except_bind_eq_error, joined_eq_error_iff]
  refine or_congr_right ⟨?_, ?_⟩
  · rintro ⟨cs, hjoined, hsearch⟩
    obtain rfl := joined_eq_ok hjoined
    exact ⟨joined_eq_ok_iff.mp hjoined,
      search_eq_error_iff.mp hsearch⟩
  · rintro ⟨hchunks, hbrace⟩
    exact ⟨_, joined_eq_ok_iff.mpr hchunks, search_eq_error_iff.mpr hbrace⟩

theorem tolerated_of_withinLimits {chunk : Points}
    (h : Json.WithinLimits Json.maxDepth chunk) : Tolerated (Json.readPoints chunk) :=
  fun _ hfault => Json.readPoints_malformed h hfault

/-- The search for a patch is given up exactly at a limit of the reader: at the first chunk that
breaks one, or else at the first brace outside of every object from which one is broken. Within the
limits it returns. A patch document is never given up: text that cannot be decoded, for whatever
fault, is a malformed document. -/
theorem extract_fails_only_at_limits (chunks : List Points) :
    (∀ fault, extract chunks = .error fault ↔ ChunkOverruns chunks fault ∨
      (∀ other, ¬ ChunkOverruns chunks other) ∧
        ∃ place, BraceOverruns (fullText chunks) place fault) ∧
    ((∀ chunk ∈ chunks, Json.WithinLimits Json.maxDepth chunk) →
      Json.WithinLimits Json.maxDepth (fullText chunks) →
      ∃ found, extract chunks = .ok found) ∧
    ∀ text fault, Json.readPoints text = .error fault →
      (Document.ofValue (.ofPoints text)).error.map DocumentError.code = some .malformedJson := by
  refine ⟨fun fault => extract_eq_error_iff, fun hchunks htext => ?_, fun text fault h => ?_⟩
  · cases hfound : extract chunks with
    | ok found => exact ⟨found, rfl⟩
    | error fault =>
      rcases extract_eq_error_iff.mp hfound with hchunk | ⟨-, place, hbrace⟩
      · obtain ⟨chunk, hmem, hover⟩ := hchunk.exists_mem
        exact absurd (tolerated_of_withinLimits (hchunks chunk hmem)) hover.not_tolerated
      · have hplace := htext.of_suffix (List.drop_suffix place _)
        exact absurd (Json.value_complains hplace) hbrace.overruns.not_tolerated
  · rw [Document.ofValue, Json.points?_ofPoints]
    simp only [Document.ofPoints, h]
    rfl

/-- The other digits of a number that has one digit more than an integer may have. -/
def moreOnes : Points := List.replicate Json.maxDigits (.char '1')

theorem isWhole_ones : Json.IsWhole (.char '1' :: moreOnes) := by
  refine Json.isWhole_of_head (List.cons_ne_nil _ _) (fun c hc => ?_) (by simp)
  rcases List.mem_cons.mp hc with rfl | hc
  · rfl
  · obtain rfl := List.eq_of_mem_replicate hc
    rfl

theorem length_ones : (CodePoint.char '1' :: moreOnes).length = 4301 := by
  rw [List.length_cons, moreOnes, List.length_replicate]
  rfl

theorem value_ones (depth : Nat) {rest : Points} (hrest : Json.Ends rest) :
    Json.value depth (.char '1' :: (moreOnes ++ rest)) = .error (.oversizedInteger 4301) := by
  have hnumber := Json.number_of_too_many_digits false isWhole_ones
    (by rw [length_ones]; decide) hrest
  rw [length_ones] at hnumber
  change Json.number (.char '1' :: (moreOnes ++ rest)) = _ at hnumber
  generalize moreOnes ++ rest = digits at hnumber ⊢
  rw [Json.value_of_head_ne (by decide) (by decide) (by decide)]
  exact hnumber

theorem value_moreOnes (depth : Nat) :
    Json.value depth (.char '1' :: moreOnes) = .error (.oversizedInteger 4301) := by
  have hvalue := value_ones depth (show Json.Ends [] from trivial)
  rwa [List.append_nil] at hvalue

/-- A number, an object with the number in a field, and prose before the object. -/
def loneNumber (digits : Points) : Points := .char '1' :: digits

def sizeObject (digits : Points) : Points := .ofString "\x7b\"n\":1" ++ digits

def sizePlan (digits : Points) : Points := .ofString "Plan " ++ sizeObject digits

section
variable {digits : Points} {fault : Json.Fault}

theorem readPoints_loneNumber (h : Json.value Json.maxDepth (.char '1' :: digits) = .error fault) :
    Json.readPoints (loneNumber digits) = .error fault := by
  change (Json.value Json.maxDepth (.char '1' :: digits)).bind _ = _
  rw [h]
  rfl

theorem readFront_sizeObject (h : Json.value 989 (.char '1' :: digits) = .error fault) :
    Json.readFront (sizeObject digits) = .error fault := by
  have hmember : Json.member (Json.value 989) (.ofString "\"n\":1" ++ digits) = .error fault := by
    change (Json.value 989 (.char '1' :: digits)).map _ = _
    rw [h]
    rfl
  change ((Json.member (Json.value 989) (.ofString "\"n\":1" ++ digits)).bind _).map _ = _
  rw [hmember]
  rfl

theorem sizePlan_overruns (h : Overruns (Json.value 989 (.char '1' :: digits)) fault) :
    (∀ other, ¬ ChunkOverruns [sizePlan digits] other) ∧
    ∃ place, BraceOverruns (fullText [sizePlan digits]) place fault := by
  obtain ⟨left, hread⟩ : ∃ left,
      Json.readPoints (sizePlan digits) = .error (.malformed .expectingValue left) := ⟨_, rfl⟩
  constructor
  · intro other hother
    cases hother with
    | here hover =>
      obtain rfl := Except.error.inj (hread.symm.trans hover.1)
      exact hover.2 trivial
    | later _ hrest => cases hrest
  · have htext : fullText [sizePlan digits] = sizePlan digits := by
      simp [fullText, envelope?, hread]
    have hbrace : Passes (sizePlan digits) (sizeObject digits) :=
      .character (by decide) (.character (by decide) (.character (by decide)
        (.character (by decide) (.character (by decide) (.here _)))))
    rw [htext]
    exact hbrace.braceOverruns ⟨readFront_sizeObject h.1, h.2⟩

end

set_option maxRecDepth 8000 in
/-- The number alone, the number in an object, and a reply within the limits. -/
theorem extract_fails_only_at_limits_ones :
    extract [loneNumber moreOnes] = .error (.oversizedInteger 4301) ∧
    extract [sizePlan (moreOnes ++ [.char '\x7d'])] = .error (.oversizedInteger 4301) ∧
    (∃ found, extract planChunks = .ok found) ∧
    (Document.ofValue (.ofPoints (loneNumber moreOnes))).error.map DocumentError.code =
      some .malformedJson := by
  have hends : Json.Ends [.char '\x7d'] :=
    (by decide : Json.continuesNumber (.char '\x7d') = false)
  have hread := readPoints_loneNumber (value_moreOnes Json.maxDepth)
  obtain ⟨hfails, -, hdocument⟩ := extract_fails_only_at_limits [loneNumber moreOnes]
  obtain ⟨hobject, -, -⟩ :=
    extract_fails_only_at_limits [sizePlan (moreOnes ++ [.char '\x7d'])]
  obtain ⟨-, hreturns, -⟩ := extract_fails_only_at_limits planChunks
  refine ⟨(hfails _).mpr (.inl (.here ⟨hread, id⟩)),
    (hobject _).mpr (.inr (sizePlan_overruns ⟨value_ones 989 hends, id⟩)),
    hreturns (fun chunk hchunk => ?_) ?_, hdocument _ _ hread⟩
  · have hshort : ∀ chunk ∈ planChunks, chunk.length ≤ Json.maxDigits ∧
        chunk.countP Json.isOpening ≤ Json.maxDepth := by decide
    exact .of_length (hshort chunk hchunk).1 (hshort chunk hchunk).2
  · exact .of_length (by decide) (by decide)

/-- A reply that is only the number ends the search. -/
theorem not_extract_returns :
    ¬ ∀ chunks : List String, ∃ found, extract (chunks.map .ofString) = .ok found := by
  intro h
  obtain ⟨found, hfound⟩ := h [String.ofList ('1' :: List.replicate Json.maxDigits '1')]
  have hchunk : Points.ofString (String.ofList ('1' :: List.replicate Json.maxDigits '1')) =
      loneNumber moreOnes := by
    rw [Points.ofString_ofList, List.map_cons, List.map_replicate]
    rfl
  rw [List.map_cons, List.map_nil, hchunk] at hfound
  have hread := readPoints_loneNumber (value_moreOnes Json.maxDepth)
  have hfails : extract [loneNumber moreOnes] = .error (.oversizedInteger 4301) :=
    extract_eq_error_iff.mpr (.inl (.here ⟨hread, id⟩))
  cases hfound.symm.trans hfails

end BlueprintPatch.Reply
