import BlueprintPatch.Backend.EventStream
import BlueprintPatch.Proofs.Ascii
import BlueprintPatch.Proofs.Searching

/-! Patches that are streamed. The text of a reply is cut into pieces, each of which is sent as an
event of its own; wherever the cuts are, the patch in the reply arrives as it was. -/
namespace BlueprintPatch.EventStream

open Reply

/-- The payloads of the lines. -/
def carried (cs : List Char) : List (List Char) := (Text.lines cs).filterMap payload?

theorem payload?_blank : payload? [] = none := rfl

theorem lines_cons {c : Char} {rest : List Char} (h : ¬ ∃ more, c = '\r' ∧ rest = '\n' :: more) :
    Text.lines (c :: rest) =
      if Text.endsLine c then [] :: Text.lines rest
      else match Text.lines rest with
        | [] => [[c]]
        | line :: more => (c :: line) :: more := by
  rw [Text.lines.eq_def]
  split
  · next heq => cases heq
  · next heq => cases heq; exact absurd ⟨_, rfl, rfl⟩ h
  · next heq => cases heq; rfl

theorem lines_end {c : Char} (hc : Text.endsLine c = true) (rest : List Char) :
    ∃ more, Text.lines (c :: rest) = [] :: more ∧ more.filterMap payload? = carried rest := by
  by_cases hpair : ∃ more, c = '\r' ∧ rest = '\n' :: more
  · -- both characters of the pair end one line, and the second alone ends one as well
    obtain ⟨more, rfl, rfl⟩ := hpair
    have hsecond : Text.lines ('\n' :: more) = [] :: Text.lines more := rfl
    exact ⟨_, rfl, by rw [carried, hsecond, List.filterMap_cons_none payload?_blank]⟩
  · exact ⟨_, (lines_cons hpair).trans (if_pos hc), rfl⟩

theorem carried_ends {ends : List Char} (h : ∀ c ∈ ends, Text.endsLine c = true)
    (rest : List Char) : carried (ends ++ rest) = carried rest := by
  induction ends with
  | nil => rfl
  | cons c ends ih =>
    obtain ⟨hc, hends⟩ := List.forall_mem_cons.mp h
    obtain ⟨more, hlines, hmore⟩ := lines_end hc (ends ++ rest)
    rw [List.cons_append, carried, hlines, List.filterMap_cons_none payload?_blank, hmore, ih hends]

theorem lines_append {line cs : List Char} (hline : ∀ c ∈ line, Text.endsLine c = false)
    {front : List Char} {more : List (List Char)} (h : Text.lines cs = front :: more) :
    Text.lines (line ++ cs) = (line ++ front) :: more := by
  induction line with
  | nil => exact h
  | cons c line ih =>
    obtain ⟨hc, hline⟩ := List.forall_mem_cons.mp hline
    have hpair : ¬ ∃ more, c = '\r' ∧ line ++ cs = '\n' :: more := by
      rintro ⟨more, rfl, -⟩
      cases hc
    rw [List.cons_append, lines_cons hpair, ih hline, hc]
    rfl

theorem carried_line {line ends : List Char} (hline : ∀ c ∈ line, Text.endsLine c = false)
    (hends : ∀ c ∈ ends, Text.endsLine c = true) (hne : ends ≠ []) (rest : List Char) :
    carried (line ++ (ends ++ rest)) = (payload? line).toList ++ carried rest := by
  cases ends with
  | nil => exact absurd rfl hne
  | cons c ends =>
    obtain ⟨hc, hends⟩ := List.forall_mem_cons.mp hends
    obtain ⟨more, hlines, hmore⟩ := lines_end hc (ends ++ rest)
    have hcarried : carried (line ++ (c :: ends ++ rest)) =
        (line :: more).filterMap payload? := by
      rw [carried, List.cons_append, lines_append hline hlines, List.append_nil]
    rw [hcarried, ← carried_ends hends rest, ← hmore]
    cases hpayload : payload? line with
    | none => rw [List.filterMap_cons_none hpayload]; rfl
    | some data => rw [List.filterMap_cons_some hpayload]; rfl

/-- The text of an object that carries a piece of a reply. -/
def envelope (piece : String) : String := (Json.obj [("content", .str piece)]).write .line

theorem toList_envelope (piece : String) :
    (envelope piece).toList = '\x7b' :: (Json.writeString "content" ++
      ([':', ' '] ++ (Json.writeString piece ++ ['\x7d']))) := by
  simp [envelope, Json.write, Json.ofTokens, Json.tokens, Json.fieldTokens, Json.bracketed,
    Json.Token.chars]

theorem endsLine_of_isPrintable {cs : List Char} (h : Json.IsPrintable cs) :
    ∀ c ∈ cs, Text.endsLine c = false := by
  intro c hc
  have hne : ∀ d : Char, ¬ (0x20 ≤ d.toNat ∧ d.toNat < 0x7F) → c ≠ d := fun d hd heq =>
    hd (heq ▸ h c hc)
  simp only [Text.endsLine, Bool.or_eq_false_iff, decide_eq_false_iff_not, and_assoc]
  exact ⟨hne _ (by decide), hne _ (by decide), hne _ (by decide), hne _ (by decide),
    hne _ (by decide), hne _ (by decide), hne _ (by decide), hne _ (by decide),
    hne _ (by decide), hne _ (by decide)⟩

theorem isPrintable_envelope (piece : String) : Json.IsPrintable (envelope piece).toList := by
  have hopen : Json.IsPrintable ['\x7b'] := by decide
  have hcolon : Json.IsPrintable [':', ' '] := by decide
  have hclose : Json.IsPrintable ['\x7d'] := by decide
  rw [toList_envelope]
  exact hopen.append ((Json.isPrintable_writeString _).append
    (hcolon.append ((Json.isPrintable_writeString _).append hclose)))

theorem chunkText_envelope (piece : String) :
    chunkText (.ofString (envelope piece)) = .ok (.ofString piece) := by
  have hplain : Json.Plain Json.maxDepth (.obj [("content", .str piece)]) :=
    ⟨989, rfl, by simp, trivial, trivial⟩
  have hread : Json.readPoints (.ofString (envelope piece)) = .ok (.obj [("content", .str piece)]) :=
    Json.read_write hplain .line
  rw [chunkText, hread]
  rfl

theorem joined_envelopes (pieces : List String) :
    joined ((pieces.map envelope).map .ofString) = .ok (.ofString (String.join pieces)) := by
  have hchunks : ((pieces.map envelope).map Points.ofString).mapM chunkText =
      .ok (pieces.map .ofString) := by
    induction pieces with
    | nil => rfl
    | cons piece pieces ih =>
      rw [List.map_cons, List.map_cons, List.mapM_cons, chunkText_envelope, ih]
      rfl
  have hjoin : (pieces.map Points.ofString).flatten = Points.ofString (String.join pieces) := by
    rw [Points.ofString, String.toList_join, List.map_flatMap, List.flatMap_def]
    rfl
  rw [joined, hchunks, Except.map, hjoin]

/-- Line ends in a row. -/
abbrev LineEnds := { cs : List Char // ∀ c ∈ cs, c = '\n' ∨ c = '\r' }

theorem endsLine_lineEnds (ends : LineEnds) : ∀ c ∈ ends.val, Text.endsLine c = true := by
  intro c hc
  rcases ends.property c hc with rfl | rfl <;> rfl

/-- A piece of a reply that is sent, with the end of its line and the blank lines after it. -/
structure Event where
  piece : String
  ends : LineEnds
  ended : ends.val ≠ []

namespace Event

def line (e : Event) : List Char := dataMark ++ (envelope e.piece).toList

theorem isPrintable_line (e : Event) : Json.IsPrintable e.line :=
  .append (by decide) (isPrintable_envelope e.piece)

theorem payload?_line (e : Event) : payload? e.line = some (envelope e.piece).toList := by
  have hdrop : e.line.drop dataMark.length = (envelope e.piece).toList := List.drop_left
  have hmark : dataMark.isPrefixOf e.line := List.isPrefixOf_iff_prefix.mpr (List.prefix_append _ _)
  have hnonempty : (envelope e.piece).toList ≠ [] ∧ (envelope e.piece).toList ≠ endMark := by
    rw [toList_envelope]
    exact ⟨List.cons_ne_nil _ _, fun h => absurd (List.cons.inj h).1 (by decide)⟩
  rw [payload?, hdrop, if_neg]
  simpa [hmark] using hnonempty

end Event

/-- The events one after the other, and behind them the mark of the end. -/
def body (events : List Event) (trail : LineEnds) : String :=
  String.ofList (events.flatMap (fun e => e.line ++ e.ends.val) ++ (dataMark ++ endMark ++ trail.val))

theorem carried_endMark (trail : LineEnds) : carried (dataMark ++ endMark ++ trail.val) = [] := by
  by_cases hne : trail.val = []
  · rw [hne]
    rfl
  · have hline : ∀ c ∈ dataMark ++ endMark, Text.endsLine c = false :=
      endsLine_of_isPrintable (by decide)
    have hcarried := carried_line hline (endsLine_lineEnds trail) hne []
    rw [List.append_nil] at hcarried
    rw [hcarried]
    rfl

theorem carried_body (events : List Event) (trail : LineEnds) :
    carried (events.flatMap (fun e => e.line ++ e.ends.val) ++ (dataMark ++ endMark ++ trail.val)) =
      events.map fun e => (envelope e.piece).toList := by
  induction events with
  | nil => exact carried_endMark trail
  | cons e events ih =>
    rw [List.flatMap_cons, List.append_assoc, List.append_assoc,
      carried_line (endsLine_of_isPrintable e.isPrintable_line) (endsLine_lineEnds e.ends) e.ended,
      e.payload?_line, ih]
    rfl

theorem payloads_body (events : List Event) (trail : LineEnds) :
    payloads (body events trail) = (events.map (·.piece)).map envelope := by
  have hcarried := carried_body events trail
  rw [carried] at hcarried
  rw [payloads, body, String.toList_ofList, hcarried, List.map_map, List.map_map]
  simp [Function.comp_def]

theorem search_prose_patch {prose whole after : Points} {fields : Fields}
    (hread : Json.readPoints whole = .ok (.obj fields)) (hfirst : whole.head? = some (.char '\x7b'))
    (hlast : whole.getLast? = some (.char '\x7d')) (hlooks : looksLikePatch (.obj fields) = true)
    (hprose : .char '\x7b' ∉ prose) {bound : Nat} (hbound : (whole ++ after).length ≤ bound) :
    search bound (prose ++ (whole ++ after)) = .ok (some whole) := by
  have hfront : Json.readFront whole = .ok (.obj fields, []) :=
    Json.readFront_of_readPoints hread hfirst hlast ⟨rfl, rfl⟩
  have hpatch : PatchBefore after whole := by
    cases whole with
    | nil => cases hfirst
    | cons c tail =>
      obtain rfl : c = .char '\x7b' := Option.some.inj hfirst
      exact ⟨.obj fields, Json.readFront_brace_append hfront after, hlooks⟩
  rw [search_append hprose, search_of_patchBefore hpatch hbound]

/-- A patch arrives intact. The events carry the pieces of a reply, cut anywhere, in which the patch
stands behind prose without a brace; what is found is the text of the patch, and it is the document
that the patch is. -/
theorem streamed_patch_intact {events : List Event} {trail : LineEnds} {prose whole after : String}
    {fields : Fields} (hread : Json.read whole = .ok (.obj fields))
    (hfirst : whole.toList.head? = some '\x7b') (hlast : whole.toList.getLast? = some '\x7d')
    (hlooks : fields.has "operations" = true ∨ fields.has "type" = true)
    (hprose : '\x7b' ∉ prose.toList)
    (hpieces : String.join (events.map (·.piece)) = prose ++ whole ++ after) :
    extract ((payloads (body events trail)).map .ofString) = .ok (some (.ofString whole)) ∧
    Document.ofValue (.str whole) = Document.ofFields fields := by
  have htext : Points.ofString (prose ++ whole ++ after) =
      Points.ofString prose ++ (Points.ofString whole ++ Points.ofString after) := by
    rw [Points.ofString_append, Points.ofString_append, List.append_assoc]
  have hpatch : looksLikePatch (.obj fields) = true := by simpa [looksLikePatch] using hlooks
  refine ⟨?_, ?_⟩
  · rw [payloads_body, extract, joined_envelopes, hpieces, htext]
    exact search_prose_patch hread (Points.head?_ofString hfirst) (Points.getLast?_ofString hlast)
      hpatch (by simpa [Points.ofString] using hprose) (by simp)
  · rw [Document.ofValue_str, hread]

/-- The pieces as events with a blank line after each. -/
def spaced (pieces : List String) : List Event :=
  pieces.map fun piece => ⟨piece, ⟨['\n', '\n'], by simp⟩, by simp⟩

set_option maxRecDepth 8000 in
/-- The patch is cut inside its fields and a brace follows it. -/
theorem streamed_patch_intact_deletion :
    let pieces := ["Here: \x7b\"type\":\"node", "_delete\",\"blueprint\":\"La", "",
      "mp\",\"node_id\":\"N\"", "\x7d. Done \x7b"]
    let found := extract ((payloads (body (spaced pieces) ⟨['\n'], by simp⟩)).map .ofString)
    Json.read deletionOfN = .ok (.obj (deleteN 0).fields) ∧
    String.join ((spaced pieces).map (·.piece)) = "Here: " ++ deletionOfN ++ ". Done \x7b" ∧
    found = .ok (some (.ofString deletionOfN)) ∧
    Document.ofValue (.str deletionOfN) = Document.ofFields (deleteN 0).fields := by
  intro pieces found
  have hread : Json.read deletionOfN = .ok (.obj (deleteN 0).fields) := by rfl
  have hpieces : String.join ((spaced pieces).map (·.piece)) =
      "Here: " ++ deletionOfN ++ ". Done \x7b" := by rfl
  exact ⟨hread, hpieces, streamed_patch_intact hread (by rfl) (by decide) (.inr (by rfl))
    (by decide) hpieces⟩

end BlueprintPatch.EventStream
