import BlueprintPatch.Proofs.Numerals
import BlueprintPatch.Proofs.Strings

/-! Written values read back. A value that is text throughout, whose objects name each field once and
whose integers are not too long, is read as it was written, up to the form of not-a-number. -/
namespace BlueprintPatch

/-- The number, with one form of not-a-number for all. -/
def Binary64.quiet (x : Binary64) : Binary64 := if x.isNaN then nan else x

namespace Json

variable {α : Type}

/-- A character that closes a list of entries. -/
def Closes (c : CodePoint) : Prop := c = .char ']' ∨ c = .char '\x7d'

/-- The entry is read from its text, which begins neither with a blank nor with a closing bracket. -/
structure Reads (entry : Points → Scan α) (text : Points) (a : α) : Prop where
  head : ∃ c tail, text = c :: tail ∧ isBlank c = false ∧ ¬ Closes c
  read : ∀ rest, Ends rest → entry (text ++ rest) = .ok (a, rest)

theorem Closes.plain {c : CodePoint} (h : Closes c) :
    isBlank c = false ∧ c ≠ .char ',' ∧ continuesNumber c = false := by
  rcases h with rfl | rfl <;> decide

theorem skipBlank_of_blank {cs : Points} (h : ∀ c ∈ cs, isBlank c = true) (rest : Points) :
    skipBlank (cs ++ rest) = skipBlank rest := List.dropWhile_append_of_pos h

theorem skipBlank_cons {c : CodePoint} (h : isBlank c = false) (cs : Points) :
    skipBlank (c :: cs) = c :: cs := by simp [skipBlank, h]

theorem ends_of_blank {cs : Points} (h : ∀ c ∈ cs, isBlank c = true) {c : CodePoint}
    (hc : continuesNumber c = false) (rest : Points) : Ends (cs ++ c :: rest) := by
  cases cs with
  | nil => exact hc
  | cons b cs => exact continuesNumber_of_isBlank (h b List.mem_cons_self)

theorem exists_intercalate_eq (sep text : Points) (texts : List Points) :
    ∃ more, List.intercalate sep (text :: texts) = text ++ more := by
  cases texts with
  | nil => exact ⟨[], by simp⟩
  | cons next texts => exact ⟨_, List.intercalate_cons_cons.trans (List.append_assoc _ _ _)⟩

section
variable {entry : Points → Scan α} {close : CodePoint} {gap trail : Points}
  {texts : List Points} {as : List α}

theorem length_le_intercalate (h : List.Forall₂ (Reads entry) texts as) (sep : Points) :
    texts.length ≤ (List.intercalate sep texts).length := by
  induction h with
  | nil => simp
  | @cons text a texts as hread h ih =>
    obtain ⟨c, tail, rfl, -⟩ := hread.head
    cases texts with
    | nil => simp
    | cons next texts =>
      rw [List.intercalate_cons_cons]
      simp only [List.length_append, List.length_cons] at ih ⊢
      omega

variable (hclose : Closes close) (hgap : ∀ c ∈ gap, isBlank c = true)
  (htrail : ∀ c ∈ trail, isBlank c = true)
include hclose hgap htrail

theorem entries_intercalate (missing : Complaint) (h : List.Forall₂ (Reads entry) texts as)
    (hne : texts ≠ []) {n : Nat} (hn : texts.length ≤ n) (rest : Points) :
    entries close missing entry n
      (List.intercalate (.char ',' :: gap) texts ++ (trail ++ close :: rest)) = .ok (as, rest) := by
  have hend : skipBlank (trail ++ close :: rest) = close :: rest := by
    rw [skipBlank_of_blank htrail, skipBlank_cons hclose.plain.1]
  induction h generalizing n with
  | nil => exact absurd rfl hne
  | @cons text a texts as hread h ih =>
    obtain ⟨n, rfl⟩ : ∃ k, n = k + 1 := ⟨n - 1, by simp at hn; omega⟩
    cases h with
    | nil =>
      refine entries_eq_ok.mpr ⟨a, _, close, rest, ?_, hend, .inl ⟨rfl, rfl, rfl⟩⟩
      rw [List.intercalate_singleton]
      exact hread.read _ (ends_of_blank htrail hclose.plain.2.2 rest)
    | @cons next b texts as hnext h =>
      have hmore := ih (List.cons_ne_nil _ _) (n := n) (by simpa using hn)
      obtain ⟨more, hfront⟩ := exists_intercalate_eq (.char ',' :: gap) next texts
      obtain ⟨c, tail, rfl, hc, -⟩ := hnext.head
      rw [List.intercalate_cons_cons, List.append_assoc, List.append_assoc, List.cons_append]
      refine entries_eq_ok.mpr ⟨a, _, .char ',', _, hread.read _ rfl, skipBlank_cons rfl _,
        .inr ⟨hclose.plain.2.1.symm, rfl, b :: as, rfl, ?_⟩⟩
      rw [skipBlank_of_blank hgap]
      rw [hfront, List.cons_append, List.cons_append] at hmore ⊢
      rwa [skipBlank_cons hc]

theorem enclosed_intercalate (missing : Complaint) {lead : Points}
    (hlead : ∀ c ∈ lead, isBlank c = true) (h : List.Forall₂ (Reads entry) texts as)
    (hne : texts ≠ []) (rest : Points) :
    enclosed close missing entry
      (lead ++ (List.intercalate (.char ',' :: gap) texts ++ (trail ++ close :: rest))) =
        .ok (as, rest) := by
  cases texts with
  | nil => exact absurd rfl hne
  | cons text texts =>
    obtain ⟨more, hfront⟩ := exists_intercalate_eq (.char ',' :: gap) text texts
    obtain ⟨c, tail, rfl, hc, hopen⟩ :
        ∃ c tail, text = c :: tail ∧ isBlank c = false ∧ ¬ Closes c := by
      cases h with
      | cons hread h => exact hread.head
    have hne' : c ≠ close := by
      rintro rfl
      exact hopen hclose
    have hlength := length_le_intercalate h (.char ',' :: gap)
    have hentries := entries_intercalate hclose hgap htrail missing h hne
      (n := (tail ++ more ++ (trail ++ close :: rest)).length + 1)
      (by rw [hfront] at hlength; simp at hlength ⊢; omega) rest
    rw [hfront, List.cons_append, List.cons_append] at hentries ⊢
    rw [enclosed, skipBlank_of_blank hlead, skipBlank_cons hc]
    simp only [if_neg hne']
    exact hentries

end

/-- The text of tokens. -/
def charsOf (ts : List Token) : List Char := ts.flatMap Token.chars

@[simp]
theorem charsOf_text (cs : List Char) : charsOf [.text cs] = cs := by simp [charsOf, Token.chars]

@[simp]
theorem charsOf_integer (n : Int) : charsOf [.integer n] = (toString n).toList := by
  simp [charsOf, Token.chars]

theorem charsOf_intercalate (sep : List Token) (items : List (List Token)) :
    charsOf (sep.intercalate items) = (charsOf sep).intercalate (items.map charsOf) := by
  induction items with
  | nil => rfl
  | cons item items ih =>
    cases items with
    | nil => simp
    | cons next items =>
      rw [List.map_cons] at ih
      rw [List.intercalate_cons_cons, List.map_cons, List.map_cons, List.intercalate_cons_cons, ← ih]
      simp [charsOf]

theorem map_intercalate {β : Type} (f : α → β) (sep : List α) (texts : List (List α)) :
    (List.intercalate sep texts).map f = List.intercalate (sep.map f) (texts.map (List.map f)) := by
  induction texts with
  | nil => rfl
  | cons text texts ih =>
    cases texts with
    | nil => simp
    | cons next texts =>
      rw [List.map_cons] at ih
      rw [List.intercalate_cons_cons, List.map_cons, List.map_cons, List.intercalate_cons_cons, ← ih]
      simp

/-- The text of tokens as it is read. -/
def pointsOf (ts : List Token) : Points := (charsOf ts).map .char

@[simp]
theorem pointsOf_text (cs : List Char) : pointsOf [.text cs] = cs.map .char := by simp [pointsOf]

@[simp]
theorem pointsOf_integer (n : Int) : pointsOf [.integer n] = (toString n).toList.map .char := by
  simp [pointsOf]

/-- The blanks behind an opening bracket, behind a comma and in front of a closing bracket. -/
def lead : Style → Nat → List Char
  | .line, _ => []
  | .spread, depth => lineBreak (depth + 1)

def gap : Style → Nat → List Char
  | .line, _ => [' ']
  | .spread, depth => lineBreak (depth + 1)

def trail : Style → Nat → List Char
  | .line, _ => []
  | .spread, depth => lineBreak depth

theorem isBlank_lineBreak (depth : Nat) :
    ∀ c ∈ (lineBreak depth).map CodePoint.char, isBlank c = true := by
  refine List.forall_mem_map.mpr fun c hc => ?_
  rcases List.mem_cons.mp hc with rfl | hc
  · rfl
  · obtain rfl := List.eq_of_mem_replicate hc
    rfl

theorem isBlank_around (style : Style) (depth : Nat) :
    (∀ c ∈ (lead style depth).map CodePoint.char, isBlank c = true) ∧
      (∀ c ∈ (gap style depth).map CodePoint.char, isBlank c = true) ∧
      ∀ c ∈ (trail style depth).map CodePoint.char, isBlank c = true := by
  cases style with
  | line => simp [lead, gap, trail, isBlank]
  | spread => exact ⟨isBlank_lineBreak _, isBlank_lineBreak _, isBlank_lineBreak _⟩

theorem charsOf_bracketed (style : Style) (depth : Nat) (opening closing : Char)
    {items : List (List Token)} (h : items ≠ []) :
    charsOf (bracketed style depth opening closing items) =
      opening :: (lead style depth ++ (List.intercalate (',' :: gap style depth)
        (items.map charsOf) ++ (trail style depth ++ [closing]))) := by
  have hne : items.isEmpty = false := by simpa using h
  cases style with
  | line =>
    have hjoin := charsOf_intercalate [.text [',', ' ']] items
    simp only [charsOf] at hjoin
    simp [bracketed, hne, charsOf, hjoin, lead, gap, trail, Token.chars]
  | spread =>
    have hjoin := charsOf_intercalate [.text (',' :: lineBreak (depth + 1))] items
    simp only [charsOf] at hjoin
    simp [bracketed, hne, charsOf, hjoin, lead, gap, trail, Token.chars]

theorem pointsOf_bracketed (style : Style) (depth : Nat) (opening closing : Char)
    {items : List (List Token)} (h : items ≠ []) :
    pointsOf (bracketed style depth opening closing items) =
      .char opening :: ((lead style depth).map .char ++
        (List.intercalate (.char ',' :: (gap style depth).map .char) (items.map pointsOf) ++
          ((trail style depth).map .char ++ [.char closing]))) := by
  rw [pointsOf, charsOf_bracketed style depth opening closing h]
  simp only [List.map_cons, List.map_append, List.map_nil, map_intercalate, List.map_map]
  rfl

/-- A character that a number or a name for a value begins with. -/
def startsBare (c : CodePoint) : Bool :=
  c.isDigit || c ∈ [.char 'n', .char 't', .char 'f', .char 'N', .char 'I', .char '-']

theorem ne_of_startsBare {c d : CodePoint} (hc : startsBare c = true) (hd : startsBare d = false) :
    c ≠ d := by
  rintro rfl
  rw [hc] at hd
  cases hd

theorem head_of_bare {cs rest : Points} {v : Json}
    (h : named? cs = some (v, rest) ∨ number cs = .ok (v, rest)) :
    ∃ c tail, cs = c :: tail ∧ startsBare c = true := by
  rcases h with h | h
  · obtain ⟨p, hp, -, rfl⟩ := named?_eq_some.mp h
    rcases mem_namedValues.mp hp with rfl | rfl | rfl | rfl | rfl | rfl
    · exact ⟨.char 'n', .char 'u' :: .char 'l' :: .char 'l' :: rest, rfl, rfl⟩
    · exact ⟨.char 't', .char 'r' :: .char 'u' :: .char 'e' :: rest, rfl, rfl⟩
    · exact ⟨.char 'f', .char 'a' :: .char 'l' :: .char 's' :: .char 'e' :: rest, rfl, rfl⟩
    · exact ⟨.char 'N', .char 'a' :: .char 'N' :: rest, rfl, rfl⟩
    · exact ⟨.char 'I', Points.ofString "nfinity" ++ rest, rfl, rfl⟩
    · exact ⟨.char '-', Points.ofString "Infinity" ++ rest, rfl, rfl⟩
  · obtain ⟨c, tail, hc, rfl | rfl⟩ := isDigit_of_number h
    · exact ⟨c, tail, rfl, by simp [startsBare, hc]⟩
    · exact ⟨.char '-', c :: tail, rfl, rfl⟩

theorem value_of_bare {cs rest : Points} {v : Json}
    (h : named? cs = some (v, rest) ∨ number cs = .ok (v, rest)) (depth : Nat) :
    value depth cs = .ok (v, rest) := by
  obtain ⟨c, tail, rfl, hc⟩ := head_of_bare h
  rw [value_of_head_ne (ne_of_startsBare hc rfl) (ne_of_startsBare hc rfl)
    (ne_of_startsBare hc rfl)]
  rcases h with h | h
  · rw [h]
    rfl
  · have hnone := named?_eq_none_of_number h []
    rw [List.append_nil] at hnone
    rw [hnone, h]
    rfl

theorem head_of_value {depth : Nat} {cs rest : Points} {v : Json}
    (h : value depth cs = .ok (v, rest)) :
    ∃ c tail, cs = c :: tail ∧ isBlank c = false ∧ ¬ Closes c ∧ c ≠ .char '\uFEFF' := by
  rcases value_eq_ok h with ⟨tail, -, rfl, -⟩ | ⟨-, tail, -, rfl, -⟩ | ⟨-, tail, -, rfl, -⟩ |
    ⟨-, -, -, -, hv⟩
  · exact ⟨_, tail, rfl, by decide, by simp [Closes], by decide⟩
  · exact ⟨_, tail, rfl, by decide, by simp [Closes], by decide⟩
  · exact ⟨_, tail, rfl, by decide, by simp [Closes], by decide⟩
  · obtain ⟨c, tail, hcs, hc⟩ := head_of_bare hv
    refine ⟨c, tail, hcs, ?_, ?_, ne_of_startsBare hc rfl⟩
    · simp [isBlank, ne_of_startsBare hc (d := .char ' ') rfl,
        ne_of_startsBare hc (d := .char '\t') rfl, ne_of_startsBare hc (d := .char '\n') rfl,
        ne_of_startsBare hc (d := .char '\r') rfl]
    · simp [Closes, ne_of_startsBare hc (d := .char ']') rfl,
        ne_of_startsBare hc (d := .char '\x7d') rfl]

theorem reads_value {depth : Nat} {text : Points} {v : Json}
    (h : ∀ rest, Ends rest → value depth (text ++ rest) = .ok (v, rest)) :
    Reads (value depth) text v := by
  obtain ⟨c, tail, hc, hblank, hopen, -⟩ := head_of_value (h [] trivial)
  exact ⟨⟨c, tail, by simpa using hc, hblank, hopen⟩, h⟩

theorem map_writeString (s : String) (rest : Points) :
    (writeString s).map .char ++ rest =
      .char '"' :: ((s.toList.flatMap escapeChar).map .char ++ .char '"' :: rest) := by
  simp [writeString_eq]

theorem name_writeString (s : String) (rest : Points) :
    name ((writeString s).map .char ++ rest) = .ok (s, rest) := by
  rw [map_writeString, name, stringBody_flatMap]
  simp [Except.map]

theorem reads_member {depth : Nat} {text : Points} {v : Json} (name : String)
    (h : Reads (value depth) text v) :
    Reads (member (value depth)) ((writeString name).map .char ++ (.char ':' :: .char ' ' :: text))
      (name, v) := by
  refine ⟨⟨.char '"', _, rfl, rfl, by simp [Closes]⟩, fun rest hrest => ?_⟩
  obtain ⟨c, tail, rfl, hc, -⟩ := h.head
  have hname := name_writeString name (.char ':' :: .char ' ' :: (c :: tail) ++ rest)
  rw [← List.append_assoc] at hname
  refine member_eq_ok.mpr ⟨_, _, hname, skipBlank_cons rfl _, ?_⟩
  have hblank : skipBlank ([.char ' '] ++ (c :: (tail ++ rest))) = c :: (tail ++ rest) := by
    rw [skipBlank_of_blank (by simp [isBlank]), skipBlank_cons hc]
  exact hblank ▸ h.read rest hrest

theorem value_array {depth : Nat} {items : List (List Token)} {vs : List Json}
    (h : List.Forall₂ (Reads (value depth)) (items.map pointsOf) vs) (style : Style) (level : Nat)
    (rest : Points) :
    value (depth + 1) (pointsOf (bracketed style level '[' ']' items) ++ rest) =
      .ok (.arr vs, rest) := by
  obtain ⟨hlead, hgap, htrail⟩ := isBlank_around style level
  by_cases hne : items = []
  · subst hne
    obtain rfl := List.forall₂_nil_left_iff.mp h
    rfl
  · have hread := enclosed_intercalate (.inl rfl) hgap htrail .expectingValue hlead h (by simpa)
      rest
    rw [pointsOf_bracketed style level _ _ hne, List.cons_append]
    have harray : ∀ cs, value (depth + 1) (.char '[' :: cs) = array (value depth) cs := fun _ => rfl
    rw [harray, array_eq]
    simp only [List.append_assoc, List.singleton_append]
    rw [hread]
    rfl

theorem put_of_not_mem {name : String} {fields : Fields} (h : name ∉ fields.map (·.1)) (v : Json) :
    fields.put name v = fields ++ [(name, v)] := by
  induction fields with
  | nil => rfl
  | cons p fields ih =>
    obtain ⟨n, w⟩ := p
    simp only [List.map_cons, List.mem_cons, not_or] at h
    rw [Fields.put, if_neg (Ne.symm h.1), ih h.2, List.cons_append]

theorem ofAssignments_of_nodup {fields : Fields} (h : (fields.map (·.1)).Nodup) :
    Fields.ofAssignments fields = fields := by
  have hfold : ∀ before : Fields, ((before ++ fields).map (·.1)).Nodup →
      fields.foldl (fun fields p => fields.put p.1 p.2) before = before ++ fields := by
    clear h
    induction fields with
    | nil => simp
    | cons p fields ih =>
      intro before h
      have hnew : p.1 ∉ before.map (·.1) := by
        rw [List.map_append, List.nodup_append] at h
        exact fun hmem => h.2.2 _ hmem _ (by simp) rfl
      rw [List.foldl_cons, put_of_not_mem hnew, ih _ (by simpa using h)]
      simp
  exact hfold [] (by simpa using h)

theorem value_object {depth : Nat} {items : List (List Token)} {fields : Fields}
    (h : List.Forall₂ (Reads (member (value depth))) (items.map pointsOf) fields)
    (hnames : (fields.map (·.1)).Nodup) (style : Style) (level : Nat) (rest : Points) :
    value (depth + 1) (pointsOf (bracketed style level '\x7b' '\x7d' items) ++ rest) =
      .ok (.obj fields, rest) := by
  obtain ⟨hlead, hgap, htrail⟩ := isBlank_around style level
  by_cases hne : items = []
  · subst hne
    obtain rfl := List.forall₂_nil_left_iff.mp h
    rfl
  · have hread := enclosed_intercalate (.inr rfl) hgap htrail .expectingName hlead h (by simpa)
      rest
    rw [pointsOf_bracketed style level _ _ hne, List.cons_append]
    have hobject : ∀ cs, value (depth + 1) (.char '\x7b' :: cs) = object (value depth) cs :=
      fun _ => rfl
    rw [hobject, object_eq]
    simp only [List.append_assoc, List.singleton_append]
    rw [hread]
    simp only [Except.map, ofAssignments_of_nodup hnames]

theorem value_name {p : String × Json} (hp : p ∈ namedValues) (depth : Nat) (rest : Points) :
    value depth (.ofString p.1 ++ rest) = .ok (p.2, rest) :=
  value_of_bare (.inl (named?_eq_some.mpr ⟨p, hp, rfl, rfl⟩)) depth

theorem value_float (depth : Nat) (x : Binary64) {rest : Points} (hrest : Ends rest) :
    value depth ((x.text numberNames).toList.map .char ++ rest) = .ok (.float x.quiet, rest) := by
  by_cases hnan : x.isNaN = true
  · have htext : x.text numberNames = "NaN" := by
      simp [Binary64.text, Binary64.meaning, hnan, numberNames]
    rw [htext, Binary64.quiet, if_pos hnan]
    exact value_name (p := ("NaN", _)) (by simp [namedValues]) depth rest
  · rw [Binary64.quiet, if_neg hnan]
    by_cases hinfinite : x.magnitude = Binary64.infinite
    · have hmeaning : x.meaning = .infinite x.negative := by
        simp [Binary64.meaning, hnan, hinfinite]
      have hx : Binary64.infinity x.negative = x := by
        rw [Binary64.infinity, ← hinfinite, Binary64.ofMagnitude_magnitude]
      cases hsign : x.negative <;> rw [hsign] at hx hmeaning
      · have htext : x.text numberNames = "Infinity" := by
          simp [Binary64.text, hmeaning, numberNames]
        rw [htext, ← hx]
        exact value_name (p := ("Infinity", _)) (by simp [namedValues]) depth rest
      · have htext : x.text numberNames = "-Infinity" := by
          simp [Binary64.text, hmeaning, numberNames]
        rw [htext, ← hx]
        exact value_name (p := ("-Infinity", _)) (by simp [namedValues]) depth rest
    · have hle : x.magnitude ≤ Binary64.infinite := by simpa [Binary64.isNaN] using hnan
      have hfinite : x.isFinite = true := by
        simpa [Binary64.isFinite] using Nat.lt_of_le_of_ne hle hinfinite
      exact value_of_bare (.inr (number_text numberNames hfinite hrest)) depth

mutual

/-- The value as it can be read. -/
def quiet : Json → Json
  | .null => .null
  | .bool b => .bool b
  | .int n => .int n
  | .float x => .float x.quiet
  | .str s => .str s
  | @brokenStr s => @brokenStr s
  | .arr items => .arr (quietItems items)
  | .obj fields => .obj (quietFields fields)

def quietItems : List Json → List Json
  | [] => []
  | v :: rest => quiet v :: quietItems rest

def quietFields : List (String × Json) → List (String × Json)
  | [] => []
  | (k, v) :: rest => (k, quiet v) :: quietFields rest

end

mutual

/-- Whether the value has a text that is read as the value: no broken string, no name twice in an
object, no integer with too many digits, and at most `depth` containers around one another. -/
def Plain (depth : Nat) : Json → Prop
  | .brokenStr => False
  | .int n => n.natAbs < pow10 maxDigits
  | .arr items => ∃ d, depth = d + 1 ∧ PlainItems d items
  | .obj fields => ∃ d, depth = d + 1 ∧ (fields.map (·.1)).Nodup ∧ PlainFields d fields
  | _ => True

def PlainItems (depth : Nat) : List Json → Prop
  | [] => True
  | v :: rest => Plain depth v ∧ PlainItems depth rest

def PlainFields (depth : Nat) : List (String × Json) → Prop
  | [] => True
  | (_, v) :: rest => Plain depth v ∧ PlainFields depth rest

end

theorem names_quietFields (fields : Fields) :
    (quietFields fields).map (·.1) = fields.map (·.1) := by
  induction fields with
  | nil => rfl
  | cons p fields ih => simpa [quietFields] using ih

mutual

theorem value_tokens (style : Style) (level : Nat) {depth : Nat} :
    ∀ {v : Json}, Plain depth v → ∀ {rest : Points}, Ends rest →
      value depth (pointsOf (tokens style level v) ++ rest) = .ok (v.quiet, rest)
  | .null, _, rest, _ => by
    rw [tokens, pointsOf_text]
    exact value_name (mem_namedValues.mpr (.inl rfl)) depth rest
  | .bool true, _, rest, _ => by
    rw [tokens, pointsOf_text]
    exact value_name (mem_namedValues.mpr (.inr (.inl rfl))) depth rest
  | .bool false, _, rest, _ => by
    rw [tokens, pointsOf_text]
    exact value_name (mem_namedValues.mpr (.inr (.inr (.inl rfl)))) depth rest
  | .int n, h, rest, hrest => by
    rw [tokens, pointsOf_integer]
    exact value_of_bare (.inr (number_integer h hrest)) depth
  | .float x, _, rest, hrest => by
    rw [tokens, pointsOf_text]
    exact value_float depth x hrest
  | .str s, _, rest, _ => by
    rw [tokens, pointsOf_text, map_writeString, value_quote, stringBody_flatMap]
    simp [Except.map, quiet]
  | .arr items, h, rest, hrest => by
    obtain ⟨d, rfl, hitems⟩ := h
    exact value_array (items_tokens style (level + 1) hitems) style level rest
  | .obj fields, h, rest, hrest => by
    obtain ⟨d, rfl, hnames, hfields⟩ := h
    refine value_object (fields_tokens style (level + 1) hfields) ?_ style level rest
    rwa [names_quietFields]

theorem items_tokens (style : Style) (level : Nat) {depth : Nat} :
    ∀ {items : List Json}, PlainItems depth items →
      List.Forall₂ (Reads (value depth)) ((itemTokens style level items).map pointsOf)
        (quietItems items)
  | [], _ => .nil
  | _ :: _, h =>
    .cons (reads_value fun _ => value_tokens style level h.1) (items_tokens style level h.2)

theorem fields_tokens (style : Style) (level : Nat) {depth : Nat} :
    ∀ {fields : List (String × Json)}, PlainFields depth fields →
      List.Forall₂ (Reads (member (value depth))) ((fieldTokens style level fields).map pointsOf)
        (quietFields fields)
  | [], _ => .nil
  | (k, v) :: rest, h => by
    have hmember := reads_member k (reads_value fun _ => value_tokens style level h.1)
    refine .cons ?_ (fields_tokens style level h.2)
    simpa [pointsOf, charsOf, Token.chars] using hmember

end

theorem toList_write (style : Style) (v : Json) :
    (v.write style).toList = charsOf (tokens style 0 v) := by
  simp [write, ofTokens, charsOf]

/-- A document is read back from its text in either style. -/
theorem read_write {v : Json} (h : Plain maxDepth v) (style : Style) :
    read (v.write style) = .ok v.quiet := by
  have hvalue := value_tokens style 0 h (show Ends [] from trivial)
  rw [List.append_nil] at hvalue
  have htext : Points.ofString (v.write style) = pointsOf (tokens style 0 v) :=
    congrArg _ (toList_write style v)
  obtain ⟨c, tail, hc, hblank, -, hmark⟩ := head_of_value hvalue
  have hfront : readFront (skipBlank (c :: tail)) = .ok (v.quiet, []) := by
    rw [skipBlank_cons hblank, ← hc, readFront, hvalue]
  rw [Json.read, htext, hc]
  exact readPoints_of_readFront hmark hfront rfl

end Json

end BlueprintPatch
