import BlueprintPatch.Proofs.Searching
import BlueprintPatch.Proofs.Trimming

/-! The objects of a text that stand in no other, and the patch among them. The search for a patch
goes from brace to brace, into whatever cannot be read and past whatever can; so it comes to every
object that is inside none before it, and it ends at the first of them that is a patch. The patch
that is found can stand alone: it is a document, and it is found again in its own text. -/
namespace BlueprintPatch.Reply

/-- An object is read from the place `start`, and the text behind it begins at `stop`. -/
structure ObjectAt (text : Points) (start stop : Nat) (fields : Fields) : Prop where
  ends : stop ≤ text.length
  read : Json.readFront (text.drop start) = .ok (.obj fields, text.drop stop)

/-- An object is read from the place, and the place is inside no object of this kind before it. -/
def TopLevel (text : Points) (start : Nat) : Prop :=
  (∃ stop fields, ObjectAt text start stop fields) ∧
    ∀ earlier, earlier < start → TopLevel text earlier →
      ∀ stop fields, ObjectAt text earlier stop fields → stop ≤ start
termination_by start

/-- Whether an object has a field that a patch has. -/
def IsPatch (fields : Fields) : Prop := fields.has "operations" = true ∨ fields.has "type" = true

/-- No object of the top level before the place is a patch or goes on behind the place. -/
def Clear (text : Points) (place : Nat) : Prop :=
  ∀ start, start < place → TopLevel text start → ∀ stop fields, ObjectAt text start stop fields →
    stop ≤ place ∧ ¬ IsPatch fields

/-- The first object of the top level that is a patch. -/
structure FirstPatch (text : Points) (start stop : Nat) : Prop where
  top : TopLevel text start
  patch : ∃ fields, ObjectAt text start stop fields ∧ IsPatch fields
  first : ∀ earlier, earlier < start → TopLevel text earlier →
    ∀ stop fields, ObjectAt text earlier stop fields → ¬ IsPatch fields

theorem looksLikePatch_iff {fields : Fields} :
    looksLikePatch (.obj fields) = true ↔ IsPatch fields := by
  simp [looksLikePatch, IsPatch]

variable {text : Points} {start stop place : Nat} {fields : Fields}

namespace ObjectAt

theorem brace (h : ObjectAt text start stop fields) :
    ∃ tail, text.drop start = .char '\x7b' :: tail :=
  Json.brace_of_value_obj h.read

theorem lt (h : ObjectAt text start stop fields) : start < stop := by
  obtain ⟨tail, htail⟩ := h.brace
  have hread := h.read
  rw [htail] at hread
  have hleft := (Json.readFront_brace_suffix hread).length_le
  have hlength := congrArg List.length htail
  have hends := h.ends
  simp only [List.length_drop, List.length_cons] at hleft hlength
  omega

theorem unique {stop' : Nat} {fields' : Fields} (h : ObjectAt text start stop fields)
    (h' : ObjectAt text start stop' fields') : stop = stop' ∧ fields = fields' := by
  obtain ⟨hobject, hleft⟩ := Prod.mk.inj (Except.ok.inj (h.read.symm.trans h'.read))
  have hlength := congrArg List.length hleft
  have hends := h.ends
  have hends' := h'.ends
  simp only [List.length_drop] at hlength
  exact ⟨by omega, Json.obj.inj hobject⟩

end ObjectAt

theorem objectAt_of_readFront {tail left : Points} {v : Json}
    (hplace : text.drop place = .char '\x7b' :: tail)
    (hread : Json.readFront (.char '\x7b' :: tail) = .ok (v, left)) :
    ∃ stop fields, v = .obj fields ∧ left = text.drop stop ∧ ObjectAt text place stop fields := by
  obtain ⟨members, -, hobject⟩ := Json.except_map_eq_ok.mp
    (Json.object_eq _ tail ▸ Json.readFront_brace tail ▸ hread)
  obtain ⟨rfl, -⟩ := Prod.mk.inj hobject
  have hsuffix : left <:+ text := by
    have hdrop := List.drop_suffix place text
    rw [hplace] at hdrop
    exact (Json.readFront_brace_suffix hread).trans ((List.suffix_cons _ _).trans hdrop)
  have hleft := List.suffix_iff_eq_drop.mp hsuffix
  exact ⟨_, _, rfl, hleft, Nat.sub_le _ _, by rw [hplace, hread, ← hleft]⟩

theorem topLevel_of_clear (h : Clear text place) (hobject : ObjectAt text place stop fields) :
    TopLevel text place := by
  rw [TopLevel]
  exact ⟨⟨stop, fields, hobject⟩, fun earlier hlt htop stop fields hearlier =>
    (h earlier hlt htop stop fields hearlier).1⟩

theorem clear_zero (text : Points) : Clear text 0 :=
  fun start hlt => absurd hlt (Nat.not_lt_zero start)

/-- From a place where no object is read the search goes on at the next one. -/
theorem Clear.next (h : Clear text place)
    (hnone : ∀ stop fields, ¬ ObjectAt text place stop fields) : Clear text (place + 1) := by
  intro start hlt htop stop fields hobject
  rcases Nat.lt_succ_iff_lt_or_eq.mp hlt with hlt | rfl
  · obtain ⟨hstop, hpatch⟩ := h start hlt htop stop fields hobject
    exact ⟨Nat.le_succ_of_le hstop, hpatch⟩
  · exact absurd hobject (hnone stop fields)

/-- From an object that is no patch it goes on behind the object; what is inside is not of the top
level. -/
theorem Clear.skip (h : Clear text place) (hobject : ObjectAt text place stop fields)
    (hpatch : ¬ IsPatch fields) : Clear text stop := by
  intro start hlt htop stop' fields' hstart
  rcases Nat.lt_trichotomy start place with hbefore | rfl | hafter
  · obtain ⟨hstop, hother⟩ := h start hbefore htop stop' fields' hstart
    exact ⟨Nat.le_trans hstop (Nat.le_of_lt hobject.lt), hother⟩
  · obtain ⟨rfl, rfl⟩ := hobject.unique hstart
    exact ⟨Nat.le_refl stop, hpatch⟩
  · rw [TopLevel] at htop
    have hle := htop.2 place hafter (topLevel_of_clear h hobject) stop fields hobject
    exact absurd hlt (Nat.not_lt.mpr hle)

/-- Nothing is read at the place: there is no brace, or what begins there is malformed. -/
def Barren (text : Points) (place : Nat) : Prop :=
  (∀ tail, text.drop place ≠ .char '\x7b' :: tail) ∨
    ∃ fault, Json.readFront (text.drop place) = .error fault ∧ fault.IsMalformed

theorem Barren.not_objectAt (h : Barren text place) (stop : Nat) (fields : Fields) :
    ¬ ObjectAt text place stop fields := by
  intro hobject
  rcases h with hbrace | ⟨fault, hfault, -⟩
  · obtain ⟨tail, htail⟩ := hobject.brace
    exact hbrace tail htail
  · exact absurd (hfault.symm.trans hobject.read) (by simp)

section
variable {P : Nat → Prop}
  (hnext : ∀ place, place < text.length → P place → Barren text place → P (place + 1))
  (hskip : ∀ place stop fields, P place → ObjectAt text place stop fields → ¬ IsPatch fields →
    P stop)
include hnext hskip

theorem Passes.to_place_from {cs rest : Points} (h : Passes cs rest)
    (hcs : text.drop place = cs) (hle : place ≤ text.length) (hP : P place) :
    ∃ stop, stop ≤ text.length ∧ text.drop stop = rest ∧ P stop := by
  have hlt {c : CodePoint} {tail : Points} {place : Nat} (hcs : text.drop place = c :: tail) :
      place < text.length ∧ text.drop (place + 1) = tail := by
    have hlength := congrArg List.length hcs
    simp only [List.length_drop, List.length_cons] at hlength
    refine ⟨by omega, ?_⟩
    rw [← List.drop_drop, hcs]
    rfl
  induction h generalizing place with
  | here cs => exact ⟨place, hle, hcs, hP⟩
  | character hc _ ih =>
    obtain ⟨hplace, htail⟩ := hlt hcs
    refine ih htail hplace (hnext place hplace hP (.inl fun tail heq => ?_))
    exact hc (List.cons.inj (hcs.symm.trans heq)).1
  | broken hread _ ih =>
    obtain ⟨hplace, htail⟩ := hlt hcs
    exact ih htail hplace (hnext place hplace hP (.inr ⟨.malformed _ _, hcs ▸ hread, trivial⟩))
  | other hread hother _ ih =>
    obtain ⟨stop, fields, rfl, hleft, hobject⟩ := objectAt_of_readFront hcs hread
    refine ih hleft.symm hobject.ends (hskip place stop fields hP hobject ?_)
    rw [← looksLikePatch_iff, hother]
    simp

theorem Passes.to_place (hzero : P 0) {rest : Points} (h : Passes text rest) :
    ∃ stop, stop ≤ text.length ∧ text.drop stop = rest ∧ P stop :=
  h.to_place_from hnext hskip rfl (Nat.zero_le _) hzero

end

theorem Passes.clear {rest : Points} (h : Passes text rest) :
    ∃ place, place ≤ text.length ∧ text.drop place = rest ∧ Clear text place :=
  h.to_place (fun _ _ hclear hbarren => hclear.next hbarren.not_objectAt)
    (fun _ _ _ hclear hobject hpatch => hclear.skip hobject hpatch) (clear_zero text)

theorem FirstPatch.unique {start' stop' : Nat} (h : FirstPatch text start stop)
    (h' : FirstPatch text start' stop') : start = start' ∧ stop = stop' := by
  obtain ⟨fields, hobject, hpatch⟩ := h.patch
  obtain ⟨fields', hobject', hpatch'⟩ := h'.patch
  rcases Nat.lt_trichotomy start start' with hlt | rfl | hlt
  · exact absurd hpatch (h'.first start hlt h.top stop fields hobject)
  · exact ⟨rfl, (hobject.unique hobject').1⟩
  · exact absurd hpatch' (h.first start' hlt h'.top stop' fields' hobject')

theorem PatchBefore.objectAt {patch behind : Points} (h : PatchBefore behind patch)
    (hstart : text.drop start = patch ++ behind) :
    ∃ stop fields, behind = text.drop stop ∧ ObjectAt text start stop fields ∧ IsPatch fields := by
  obtain ⟨tail, rfl⟩ := h.eq_brace
  obtain ⟨v, hread, hlooks⟩ := h
  rw [List.cons_append] at hread hstart
  obtain ⟨stop, fields, rfl, hbehind, hobject⟩ := objectAt_of_readFront hstart hread
  exact ⟨stop, fields, hbehind, hobject, looksLikePatch_iff.mp hlooks⟩

/-- The text in a chunk that is an envelope. -/
def envelope? (chunk : Points) : Option Points :=
  match Json.readPoints chunk with
  | .ok v => content? v
  | .error _ => none

/-- The reply, with the content of each envelope in its place. -/
def fullText (chunks : List Points) : Points :=
  chunks.flatMap fun chunk => (envelope? chunk).getD chunk

/-- A chunk stands for the text that it has in the reply, unless it breaks a limit. -/
theorem chunkText_cases (chunk : Points) :
    (∃ fault, Json.readPoints chunk = .error fault ∧ ¬ fault.IsMalformed ∧
      chunkText chunk = .error fault) ∨
    ((∀ fault, Json.readPoints chunk = .error fault → fault.IsMalformed) ∧
      chunkText chunk = .ok ((envelope? chunk).getD chunk)) := by
  unfold chunkText envelope?
  cases hread : Json.readPoints chunk with
  | error fault =>
    cases fault with
    | malformed complaint place =>
      refine .inr ⟨fun fault hfault => ?_, rfl⟩
      obtain rfl := Except.error.inj hfault
      exact trivial
    | oversizedInteger digits => exact .inl ⟨_, rfl, id, rfl⟩
    | tooDeep container => exact .inl ⟨_, rfl, id, rfl⟩
  | ok v => exact .inr ⟨nofun, rfl⟩

theorem joined_cons (chunk : Points) (chunks : List Points) :
    joined (chunk :: chunks) =
      (chunkText chunk).bind fun text => (joined chunks).map (text ++ ·) := by
  simp only [joined, List.mapM_cons]
  cases chunkText chunk <;> cases chunks.mapM chunkText <;> rfl

theorem joined_eq_ok {chunks : List Points} {cs : Points} (h : joined chunks = .ok cs) :
    cs = fullText chunks := by
  induction chunks generalizing cs with
  | nil => exact (Except.ok.inj h).symm
  | cons chunk chunks ih =>
    obtain ⟨text, htext, hmap⟩ := Json.except_bind_eq_ok.mp (joined_cons chunk chunks ▸ h)
    obtain ⟨rest, hrest, rfl⟩ := Json.except_map_eq_ok.mp hmap
    rcases chunkText_cases chunk with ⟨fault, -, -, hfault⟩ | ⟨-, hchunk⟩
    · exact absurd (hfault.symm.trans htext) (by simp)
    · obtain rfl := Except.ok.inj (hchunk.symm.trans htext)
      rw [ih hrest, fullText, fullText, List.flatMap_cons]

/-- The two halves of a pair in two envelopes, a brace in prose, an object with a patch in one of its
strings, a patch, and one more. -/
def planChunks : List Points :=
  ["\x7b\"content\":\"Plan \\ud83d\"\x7d", "\x7b\"content\":\"\\ude00: \x7b \"\x7d",
    "\x7b\"note\":\"\x7b\\\"type\\\":1\x7d\"\x7d, then ", deletionOfN,
    " \x7b\"type\":2\x7d"].map .ofString

end BlueprintPatch.Reply
