import BlueprintPatch.Backend.Reply
import BlueprintPatch.Proofs.Batch
import BlueprintPatch.Proofs.Limits

/-! The search for a patch in a reply, as a way through the text: past characters that are no brace,
past a brace where no object can be read, and past a whole object that is no patch. What the search
returns is the first patch on that way. For a reply that is cut off inside its object the way leads
into the object, so the search may return a whole object out of its inside. -/
namespace BlueprintPatch.Reply

/-- The search comes from the text to the end `rest` of it without a patch on its way. -/
inductive Passes : Points → Points → Prop
  | here (cs : Points) : Passes cs cs
  | character {c : CodePoint} {cs rest : Points} :
      c ≠ .char '\x7b' → Passes cs rest → Passes (c :: cs) rest
  | broken {cs rest : Points} {complaint : Json.Complaint} {place : Nat} :
      Json.readFront (.char '\x7b' :: cs) = .error (.malformed complaint place) →
      Passes cs rest → Passes (.char '\x7b' :: cs) rest
  | other {cs left rest : Points} {v : Json} :
      Json.readFront (.char '\x7b' :: cs) = .ok (v, left) → looksLikePatch v = false →
      Passes left rest → Passes (.char '\x7b' :: cs) rest

theorem Passes.suffix {cs rest : Points} (h : Passes cs rest) : rest <:+ cs := by
  induction h with
  | here cs => exact List.suffix_refl _
  | character _ _ ih => exact ih.trans (List.suffix_cons _ _)
  | broken _ _ ih => exact ih.trans (List.suffix_cons _ _)
  | other hread _ _ ih =>
    exact ih.trans ((Json.readFront_brace_suffix hread).trans (List.suffix_cons _ _))

/-- A whole object that looks like a patch stands in front of `behind`. -/
def PatchBefore (behind patch : Points) : Prop :=
  ∃ v, Json.readFront (patch ++ behind) = .ok (v, behind) ∧ looksLikePatch v = true

theorem PatchBefore.eq_brace {patch behind : Points} (h : PatchBefore behind patch) :
    ∃ tail, patch = .char '\x7b' :: tail := by
  obtain ⟨v, hv, hlooks⟩ := h
  cases v with
  | obj fields =>
    obtain ⟨tail, htail⟩ := Json.brace_of_value_obj hv
    rw [htail] at hv
    have hbehind := (Json.readFront_brace_suffix hv).length_le
    cases patch with
    | nil =>
      have hlength := congrArg List.length htail
      simp at hlength
      omega
    | cons c patch => exact ⟨patch, by rw [(List.cons.inj htail).1]⟩
  | _ => simp [looksLikePatch] at hlooks

theorem search_cons_of_ne {c : CodePoint} (hc : c ≠ .char '\x7b') (bound : Nat) (cs : Points) :
    search (bound + 1) (c :: cs) = search (bound + 1) cs := by
  simp [search, hc]

theorem search_brace (bound : Nat) (cs : Points) :
    search (bound + 1) (.char '\x7b' :: cs) =
      match Json.readFront (.char '\x7b' :: cs) with
      | .error (.malformed _ _) => search bound cs
      | .error fault => .error fault
      | .ok (v, left) =>
        if looksLikePatch v then
          .ok (some ((.char '\x7b' :: cs).take (cs.length + 1 - left.length)))
        else search bound left :=
  rfl

/-- On the way the search goes on as if it began there. -/
theorem search_of_passes {cs rest : Points} (h : Passes cs rest) {bound : Nat}
    (hbound : cs.length ≤ bound) :
    ∃ bound', rest.length ≤ bound' ∧ search bound cs = search bound' rest := by
  induction h generalizing bound with
  | here cs => exact ⟨bound, hbound, rfl⟩
  | character hc _ ih =>
    obtain ⟨bound, rfl⟩ : ∃ n, bound = n + 1 := ⟨bound - 1, by simp at hbound; omega⟩
    rw [search_cons_of_ne hc]
    exact ih (by simp at hbound; omega)
  | broken hread _ ih =>
    obtain ⟨bound, rfl⟩ : ∃ n, bound = n + 1 := ⟨bound - 1, by simp at hbound; omega⟩
    rw [search_brace, hread]
    exact ih (by simp at hbound; omega)
  | other hread hother _ ih =>
    obtain ⟨bound, rfl⟩ : ∃ n, bound = n + 1 := ⟨bound - 1, by simp at hbound; omega⟩
    have hleft := (Json.readFront_brace_suffix hread).length_le
    rw [search_brace, hread]
    simp only [hother, Bool.false_eq_true, if_false]
    exact ih (by simp at hbound; omega)

theorem search_nil (bound : Nat) : search bound [] = .ok none := by
  cases bound <;> rfl

theorem search_of_patchBefore {patch behind : Points} (h : PatchBefore behind patch)
    {bound : Nat} (hbound : (patch ++ behind).length ≤ bound) :
    search bound (patch ++ behind) = .ok (some patch) := by
  obtain ⟨tail, rfl⟩ := h.eq_brace
  obtain ⟨v, hv, hlooks⟩ := h
  obtain ⟨bound, rfl⟩ : ∃ n, bound = n + 1 := ⟨bound - 1, by simp at hbound; omega⟩
  rw [List.cons_append] at hv ⊢
  rw [search_brace, hv]
  have hlength : (tail ++ behind).length + 1 - behind.length = (.char '\x7b' :: tail).length := by
    simp only [List.length_append, List.length_cons]
    omega
  simp only [hlooks, if_true, hlength]
  rw [← List.cons_append, List.take_left]

/-- What the search returns where its way ends: at the end of the text, at a patch, or at a brace
from which the reader breaks a limit. -/
inductive EndsAt : Points → Except Json.Fault (Option Points) → Prop
  | nothing : EndsAt [] (.ok none)
  | patch {patch behind : Points} :
      PatchBefore behind patch → EndsAt (patch ++ behind) (.ok (some patch))
  | limit {cs : Points} {fault : Json.Fault} :
      Json.readFront (.char '\x7b' :: cs) = .error fault → ¬ fault.IsMalformed →
      EndsAt (.char '\x7b' :: cs) (.error fault)

theorem search_ends (bound : Nat) (cs : Points) (hbound : cs.length ≤ bound) :
    ∃ rest, Passes cs rest ∧ EndsAt rest (search bound cs) := by
  induction bound generalizing cs with
  | zero =>
    obtain rfl : cs = [] := List.length_eq_zero_iff.mp (by omega)
    exact ⟨[], .here [], .nothing⟩
  | succ bound ih =>
    induction cs with
    | nil => exact ⟨[], .here [], search_nil _ ▸ .nothing⟩
    | cons c cs ihcs =>
      by_cases hc : c = .char '\x7b'
      · subst hc
        rw [search_brace]
        cases hread : Json.readFront (.char '\x7b' :: cs) with
        | error fault =>
          cases fault with
          | malformed complaint place =>
            obtain ⟨rest, hpasses, hends⟩ := ih cs (by simpa using hbound)
            exact ⟨rest, .broken hread hpasses, hends⟩
          | oversizedInteger digits => exact ⟨_, .here _, .limit hread id⟩
          | tooDeep container => exact ⟨_, .here _, .limit hread id⟩
        | ok r =>
          obtain ⟨v, left⟩ := r
          have hsuffix := Json.readFront_brace_suffix hread
          by_cases hlooks : looksLikePatch v
          · simp only [hlooks, if_true]
            have hwhole :=
              List.suffix_iff_eq_append.mp (hsuffix.trans (List.suffix_cons (.char '\x7b') cs))
            refine ⟨_, .here _, ?_⟩
            nth_rewrite 1 [← hwhole]
            exact .patch ⟨v, by rw [hwhole, hread], hlooks⟩
          · have hother : looksLikePatch v = false := by simpa using hlooks
            have hlength := hsuffix.length_le
            obtain ⟨rest, hpasses, hends⟩ := ih left (by simp at hbound; omega)
            simp only [hother, Bool.false_eq_true, if_false]
            exact ⟨rest, .other hread hother hpasses, hends⟩
      · rw [search_cons_of_ne hc]
        obtain ⟨rest, hpasses, hends⟩ := ihcs (by simp at hbound; omega)
        exact ⟨rest, .character hc hpasses, hends⟩

theorem search_eq_none_iff {bound : Nat} {cs : Points} (hbound : cs.length ≤ bound) :
    search bound cs = .ok none ↔ Passes cs [] := by
  constructor
  · intro h
    obtain ⟨rest, hpasses, hends⟩ := search_ends bound cs hbound
    rw [h] at hends
    cases hends
    exact hpasses
  · intro h
    obtain ⟨bound', -, hsearch⟩ := search_of_passes h hbound
    rw [hsearch, search_nil]

theorem search_eq_some_iff {bound : Nat} {cs patch : Points} (hbound : cs.length ≤ bound) :
    search bound cs = .ok (some patch) ↔
      ∃ behind, Passes cs (patch ++ behind) ∧ PatchBefore behind patch := by
  constructor
  · intro h
    obtain ⟨rest, hpasses, hends⟩ := search_ends bound cs hbound
    rw [h] at hends
    cases hends with
    | patch hpatch => exact ⟨_, hpasses, hpatch⟩
  · rintro ⟨behind, hpasses, hpatch⟩
    obtain ⟨bound', hbound', hsearch⟩ := search_of_passes hpasses hbound
    rw [hsearch, search_of_patchBefore hpatch hbound']

/-- Within the limits of the reader the search returns. -/
theorem search_returns (bound : Nat) {cs : Points} (h : Json.WithinLimits Json.maxDepth cs) :
    ∃ r, search bound cs = .ok r := by
  induction bound generalizing cs with
  | zero => exact ⟨none, rfl⟩
  | succ bound ih =>
    induction cs with
    | nil => exact ⟨none, rfl⟩
    | cons c cs ihcs =>
      have hcs := h.of_suffix (List.suffix_cons c cs)
      by_cases hc : c = .char '\x7b'
      · subst hc
        rw [search_brace]
        cases hread : Json.readFront (.char '\x7b' :: cs) with
        | error fault =>
          have hmalformed := Json.value_complains h fault hread
          cases fault with
          | malformed complaint place => exact ih hcs
          | oversizedInteger digits => exact hmalformed.elim
          | tooDeep container => exact hmalformed.elim
        | ok r =>
          obtain ⟨v, left⟩ := r
          by_cases hlooks : looksLikePatch v
          · simp only [hlooks, if_true]
            exact ⟨_, rfl⟩
          · simp only [hlooks, Bool.false_eq_true, if_false]
            exact ih (hcs.of_suffix (Json.readFront_brace_suffix hread))
      · rw [search_cons_of_ne hc]
        exact ihcs hcs

theorem search_append {prose : Points} (hprose : .char '\x7b' ∉ prose) (bound : Nat)
    (cs : Points) : search bound (prose ++ cs) = search bound cs := by
  cases bound with
  | zero => rfl
  | succ bound =>
    induction prose with
    | nil => rfl
    | cons c prose ih =>
      obtain ⟨hc, hprose⟩ : ¬ .char '\x7b' = c ∧ .char '\x7b' ∉ prose := by simpa using hprose
      rw [List.cons_append, search_cons_of_ne (Ne.symm hc), ih hprose]

/-- Text that is no object stands for itself, unless it breaks a limit of the reader. -/
theorem chunkText_of_not_object {chunk : Points}
    (h : ∀ fields, Json.readPoints chunk ≠ .ok (.obj fields)) :
    chunkText chunk = .ok chunk ∨
      ∃ fault, ¬ fault.IsMalformed ∧ Json.readPoints chunk = .error fault ∧
        chunkText chunk = .error fault := by
  unfold chunkText
  cases hread : Json.readPoints chunk with
  | error fault =>
    cases fault with
    | malformed complaint place => exact .inl rfl
    | oversizedInteger digits => exact .inr ⟨_, id, rfl, rfl⟩
    | tooDeep container => exact .inr ⟨_, id, rfl, rfl⟩
  | ok v =>
    cases v with
    | obj fields => exact absurd hread (h fields)
    | _ => exact .inl rfl

theorem joined_single (chunk : Points) : joined [chunk] = chunkText chunk := by
  simp only [joined, List.mapM_cons, List.mapM_nil]
  cases chunkText chunk <;> simp [bind, Except.bind, Except.map, pure, Except.pure]

theorem skipBlank_eq_brace {prose cs tail : Points} (hprose : .char '\x7b' ∉ prose)
    (h : Json.skipBlank (prose ++ cs) = .char '\x7b' :: tail) :
    Json.skipBlank cs = .char '\x7b' :: tail := by
  induction prose with
  | nil => exact h
  | cons c prose ih =>
    obtain ⟨hc, hprose⟩ : ¬ .char '\x7b' = c ∧ .char '\x7b' ∉ prose := by simpa using hprose
    by_cases hblank : Json.isBlank c
    · exact ih hprose (by simpa [Json.skipBlank, hblank] using h)
    · rw [List.cons_append, Json.skipBlank, List.dropWhile_cons_of_neg hblank] at h
      exact absurd (List.cons.inj h).1.symm hc

theorem readPoints_cut_ne_object {prose cut rest : Points} {v : Json}
    (hwhole : Json.readFront (cut ++ rest) = .ok (v, [])) (hrest : rest ≠ [])
    (hbrace : (cut ++ rest).head? = some (.char '\x7b')) (hprose : .char '\x7b' ∉ prose)
    (fields : Fields) :
    Json.readPoints (prose ++ cut) ≠ .ok (.obj fields) := by
  intro h
  obtain ⟨left, hfront, -⟩ := Json.readPoints_eq_ok h
  obtain ⟨tail, htail⟩ := Json.brace_of_value_obj hfront
  have hcut := skipBlank_eq_brace hprose htail
  cases cut with
  | nil => cases hcut
  | cons c cut =>
    obtain rfl : c = .char '\x7b' := Option.some.inj hbrace
    obtain rfl : cut = tail := (List.cons.inj hcut).2
    rw [htail] at hfront
    exact Json.not_readFront_of_prefix hwhole hrest hfront

theorem Passes.of_cut {cut rest left : Points} {v : Json}
    (hwhole : Json.readFront (.char '\x7b' :: (cut ++ rest)) = .ok (v, [])) (hrest : rest ≠ [])
    (h : Passes (.char '\x7b' :: cut) left) : left = .char '\x7b' :: cut ∨ Passes cut left := by
  cases h with
  | here => exact .inl rfl
  | character hc _ => exact absurd rfl hc
  | broken _ h => exact .inr h
  | other hread _ _ => exact absurd hread (Json.not_readFront_of_prefix hwhole hrest)

/-- A patch on the way through an object that is cut off stands inside the object. -/
theorem inside_of_passes {cut rest patch behind : Points} {v : Json}
    (hwhole : Json.readFront (cut ++ rest) = .ok (v, [])) (hrest : rest ≠ [])
    (hbrace : (cut ++ rest).head? = some (.char '\x7b')) (hpasses : Passes cut (patch ++ behind))
    (hpatch : PatchBefore behind patch) :
    ∃ before, ∃ behind, cut = .char '\x7b' :: (before ++ (patch ++ behind)) ∧
      Passes (before ++ (patch ++ behind)) (patch ++ behind) ∧ PatchBefore behind patch := by
  cases cut with
  | nil =>
    obtain ⟨tail, rfl⟩ := hpatch.eq_brace
    cases List.suffix_nil.mp hpasses.suffix
  | cons c cut =>
    obtain rfl : c = .char '\x7b' := Option.some.inj hbrace
    rcases hpasses.of_cut hwhole hrest with hhere | hinside
    · obtain ⟨w, hw, -⟩ := hpatch
      rw [hhere] at hw
      exact absurd hw (Json.not_readFront_of_prefix hwhole hrest)
    · obtain ⟨before, rfl⟩ := hinside.suffix
      exact ⟨before, behind, rfl, hinside, hpatch⟩

theorem extract_eq {prose cut : Points} (hprose : .char '\x7b' ∉ prose)
    (h : chunkText (prose ++ cut) = .ok (prose ++ cut)) :
    extract [prose ++ cut] = search (prose ++ cut).length cut := by
  rw [extract, joined_single, h]
  exact search_append hprose _ cut

/-- What a reply gives whose object is cut off: the first patch on the way through the inside of
the object, and nothing if the way leads to the end. -/
theorem extract_cut {prose whole cut rest : Points} {fields : Fields}
    (hread : Json.readPoints whole = .ok (.obj fields))
    (hfirst : whole.head? = some (.char '\x7b')) (hlast : whole.getLast? = some (.char '\x7d'))
    (hprose : .char '\x7b' ∉ prose) (hcut : whole = cut ++ rest) (hrest : rest ≠ []) :
    (∀ patch, extract [prose ++ cut] = .ok (some patch) → ∃ before behind,
      cut = .char '\x7b' :: (before ++ (patch ++ behind)) ∧
      Passes (before ++ (patch ++ behind)) (patch ++ behind) ∧ PatchBefore behind patch) ∧
    (∀ found, extract [prose ++ cut] = .ok found → (found = none ↔ Passes cut [])) ∧
    (Json.WithinLimits Json.maxDepth (prose ++ cut) →
      ∃ found, extract [prose ++ cut] = .ok found) := by
  subst hcut
  have hwhole : Json.readFront (cut ++ rest) = .ok (.obj fields, []) :=
    Json.readFront_of_readPoints hread hfirst hlast ⟨rfl, rfl⟩
  have hobject : ∀ found, Json.readPoints (prose ++ cut) ≠ .ok (.obj found) :=
    readPoints_cut_ne_object hwhole hrest hfirst hprose
  have hlength : cut.length ≤ (prose ++ cut).length := by
    rw [List.length_append]
    omega
  have hreturns : ∀ found, extract [prose ++ cut] = .ok found →
      chunkText (prose ++ cut) = .ok (prose ++ cut) := by
    intro found h
    rcases chunkText_of_not_object hobject with htext | ⟨fault, -, -, hfault⟩
    · exact htext
    · rw [extract, joined_single, hfault] at h
      cases h
  refine ⟨fun patch h => ?_, fun found h => ?_, fun h => ?_⟩
  · rw [extract_eq hprose (hreturns _ h)] at h
    obtain ⟨behind, hpasses, hpatch⟩ := (search_eq_some_iff hlength).mp h
    exact inside_of_passes hwhole hrest hfirst hpasses hpatch
  · rw [extract_eq hprose (hreturns _ h)] at h
    rw [← search_eq_none_iff hlength, h, Except.ok.injEq]
  · have htext : chunkText (prose ++ cut) = .ok (prose ++ cut) := by
      rcases chunkText_of_not_object hobject with htext | ⟨fault, hfault, hchunk, -⟩
      · exact htext
      · exact absurd (Json.readPoints_malformed h hchunk) hfault
    rw [extract_eq hprose htext]
    exact search_returns _ (h.of_suffix (List.suffix_append prose cut))

def twoDeletions : String :=
  braced ("\"operations\":[" ++ deletionOfN ++ "," ++ deletionOfN ++ "]")

def firstDeletion : String := "\x7b\"operations\":[" ++ deletionOfN ++ ","

def secondDeletion : String := deletionOfN ++ "]\x7d"

set_option maxRecDepth 8000 in
theorem read_twoDeletions :
    Json.read twoDeletions =
      .ok (.obj [("operations", .arr [.obj (deleteN 0).fields, .obj (deleteN 1).fields])]) := by
  rfl

set_option maxRecDepth 8000 in
theorem ends_twoDeletions :
    twoDeletions.toList.head? = some '\x7b' ∧ twoDeletions.toList.getLast? = some '\x7d' ∧
      twoDeletions = firstDeletion ++ secondDeletion := by
  exact ⟨rfl, by decide, rfl⟩

set_option maxRecDepth 8000 in
theorem extract_firstDeletion :
    extract [.ofString ("The patch: " ++ firstDeletion)] = .ok (some (.ofString deletionOfN)) := by
  rfl

/-- The first deletion comes back, out of the inside of what is left of the patch. -/
theorem extract_cut_firstDeletion :
    Json.read twoDeletions =
      .ok (.obj [("operations", .arr [.obj (deleteN 0).fields, .obj (deleteN 1).fields])]) ∧
    CodePoint.char '\x7b' ∉ Points.ofString "The patch: " ∧ Points.ofString secondDeletion ≠ [] ∧
    ∃ before behind,
      Points.ofString firstDeletion =
        .char '\x7b' :: (before ++ (Points.ofString deletionOfN ++ behind)) ∧
      PatchBefore behind (.ofString deletionOfN) ∧ ¬ Passes (.ofString firstDeletion) [] := by
  obtain ⟨hfirst, hlast, hcut⟩ := ends_twoDeletions
  have hprose : CodePoint.char '\x7b' ∉ Points.ofString "The patch: " := by decide
  have hrest : Points.ofString secondDeletion ≠ [] := by decide
  obtain ⟨hsome, hnone, -⟩ := extract_cut read_twoDeletions
    (Points.head?_ofString hfirst) (Points.getLast?_ofString hlast) hprose
    (by rw [hcut, Points.ofString_append]) hrest
  rw [← Points.ofString_append] at hsome hnone
  obtain ⟨before, behind, hinside, -, hpatch⟩ := hsome _ extract_firstDeletion
  have hpasses := (hnone _ extract_firstDeletion).not.mp (by simp)
  exact ⟨read_twoDeletions, hprose, hrest, before, behind, hinside, hpatch, hpasses⟩

/-- One of two operations comes back as if it were the patch. -/
theorem patch_from_cut_object :
    ¬ ∀ (prose whole cut rest : String) (fields : Fields) (operations : List Json),
      Json.read whole = .ok (.obj fields) →
      whole.toList.head? = some '\x7b' → whole.toList.getLast? = some '\x7d' →
      Fields.get? "operations" fields = some (.arr operations) →
      (∀ v ∈ operations, ∃ op : RawOperation, v = .obj op.fields ∧ op.kind?.isSome) →
      '\x7b' ∉ prose.toList → whole = cut ++ rest → rest ≠ "" →
      extract [.ofString (prose ++ cut)] = .ok none := by
  intro h
  obtain ⟨hfirst, hlast, hcut⟩ := ends_twoDeletions
  have hoperations : ∀ v ∈ [Json.obj (deleteN 0).fields, .obj (deleteN 1).fields],
      ∃ op : RawOperation, v = .obj op.fields ∧ op.kind?.isSome := by
    intro v hv
    rcases List.mem_pair.mp hv with rfl | rfl
    · exact ⟨deleteN 0, rfl, rfl⟩
    · exact ⟨deleteN 1, rfl, rfl⟩
  have hnone := h "The patch: " twoDeletions firstDeletion secondDeletion _ _ read_twoDeletions
    hfirst hlast rfl hoperations (by decide) hcut (by decide)
  rw [extract_firstDeletion] at hnone
  cases hnone

end BlueprintPatch.Reply
