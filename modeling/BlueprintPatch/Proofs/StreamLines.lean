import BlueprintPatch.Proofs.Streaming

/-! Event streams line by line. In the format of event streams only `\r` and `\n` end a line. Here a
line of the body ends at eight other characters as well, so a payload that has one of them is cut
there, and what stands behind one in a comment is taken for a line of its own. All else arrives. -/
namespace BlueprintPatch.EventStream

/-- No character ends a line. -/
def Unbroken (cs : List Char) : Prop := ∀ c ∈ cs, Text.endsLine c = false

instance (cs : List Char) : Decidable (Unbroken cs) := List.decidableBAll _ _

theorem Unbroken.append {cs ds : List Char} (h : Unbroken cs) (h' : Unbroken ds) :
    Unbroken (cs ++ ds) :=
  fun c hc => (List.mem_append.mp hc).elim (h c) (h' c)

theorem text_induction {P : List Char → Prop} (hlast : ∀ line, Unbroken line → P line)
    (hend : ∀ line c rest, Unbroken line → Text.endsLine c = true → P rest →
      P (line ++ ([c] ++ rest))) (cs : List Char) : P cs := by
  -- the induction meets the characters one by one, so it carries the line begun so far
  have hbegun : ∀ line, Unbroken line → P (line ++ cs) := by
    induction cs with
    | nil =>
      intro line hline
      rw [List.append_nil]
      exact hlast line hline
    | cons c cs ih =>
      intro line hline
      cases hc : Text.endsLine c with
      | true => exact hend line c cs hline hc (ih [] (by simp [Unbroken]))
      | false =>
        rw [List.append_cons]
        exact ih (line ++ [c]) (hline.append (by simpa [Unbroken] using hc))
  exact hbegun [] (by simp [Unbroken])

theorem lines_of_unbroken {line : List Char} (hline : Unbroken line) (hne : line ≠ []) :
    Text.lines line = [line] := by
  induction line with
  | nil => exact absurd rfl hne
  | cons c cs ih =>
    obtain ⟨hc, hcs⟩ := List.forall_mem_cons.mp hline
    have hpair : ¬ ∃ more, c = '\r' ∧ cs = '\n' :: more := by
      rintro ⟨more, rfl, -⟩
      cases hc
    rw [lines_cons hpair, hc]
    cases cs with
    | nil => rfl
    | cons d ds => rw [ih hcs (List.cons_ne_nil d ds)]; rfl

theorem carried_of_unbroken {line : List Char} (hline : Unbroken line) :
    carried line = (payload? line).toList := by
  by_cases hne : line = []
  · rw [hne]
    rfl
  · rw [carried, lines_of_unbroken hline hne]
    cases hpayload : payload? line with
    | none => rw [List.filterMap_cons_none hpayload]; rfl
    | some data => rw [List.filterMap_cons_some hpayload]; rfl

/-- What a text carries that ends at a line end does not depend on what follows. -/
theorem carried_append (cs : List Char) {ends : List Char}
    (hends : ∀ c ∈ ends, Text.endsLine c = true) (hne : ends ≠ []) (rest : List Char) :
    carried (cs ++ (ends ++ rest)) = carried cs ++ carried rest := by
  induction cs using text_induction with
  | hlast line hline => rw [carried_line hline hends hne, carried_of_unbroken hline]
  | hend line c more hline hc ih =>
    have hc' : ∀ d ∈ [c], Text.endsLine d = true := by simpa using hc
    rw [List.append_assoc, List.append_assoc, carried_line hline hc' (by simp), ih,
      carried_line hline hc' (by simp), List.append_assoc]

theorem payload?_eq_some_iff {line data : List Char} :
    payload? line = some data ↔ line = dataMark ++ data ∧ data ≠ [] ∧ data ≠ endMark := by
  constructor
  · intro h
    simp only [payload?, Option.ite_none_left_eq_some, not_or, not_not, List.isEmpty_iff,
      List.isPrefixOf_iff_prefix] at h
    obtain ⟨⟨⟨tail, rfl⟩, hdata⟩, heq⟩ := h
    rw [List.drop_left] at hdata heq
    obtain rfl := Option.some.inj heq
    exact ⟨rfl, hdata⟩
  · rintro ⟨rfl, hne, hopen⟩
    have hmark : dataMark.isPrefixOf (dataMark ++ data) :=
      List.isPrefixOf_iff_prefix.mpr (List.prefix_append _ _)
    simp [payload?, hmark, hne, hopen]

theorem unbroken_of_mem_carried {cs data : List Char} (h : data ∈ carried cs) : Unbroken data := by
  have hpayload : ∀ line, Unbroken line → data ∈ (payload? line).toList → Unbroken data := by
    intro line hline hdata
    obtain ⟨rfl, -⟩ := payload?_eq_some_iff.mp (Option.mem_toList.mp hdata)
    exact fun c hc => hline c (List.mem_append_right _ hc)
  induction cs using text_induction with
  | hlast line hline =>
    rw [carried_of_unbroken hline] at h
    exact hpayload line hline h
  | hend line c rest hline hc ih =>
    rw [carried_line hline (by simpa using hc) (by simp)] at h
    rcases List.mem_append.mp h with h | h
    · exact hpayload line hline h
    · exact ih h

/-- The text stands on one line of a stream. -/
def OnOneLine (s : String) : Prop := ∀ c ∈ s.toList, c ≠ '\n' ∧ c ≠ '\r'

instance (s : String) : Decidable (OnOneLine s) := List.decidableBAll _ _

/-- The characters that end a line of a text, but not a line of a stream. -/
def strayEnds : List Char :=
  ['\x0b', '\x0c', '\x1c', '\x1d', '\x1e', '\u0085', '\u2028', '\u2029']

/-- The text has none of them. -/
def Uncut (s : String) : Prop := ∀ c ∈ s.toList, c ∉ strayEnds

instance (s : String) : Decidable (Uncut s) := List.decidableBAll _ _

theorem endsLine_iff (c : Char) :
    Text.endsLine c = true ↔ c = '\n' ∨ c = '\r' ∨ c ∈ strayEnds := by
  simp [Text.endsLine, strayEnds, or_assoc]

theorem unbroken_iff {s : String} (h : OnOneLine s) :
    Unbroken s.toList ↔ Uncut s := by
  refine forall₂_congr fun c hc => ?_
  rw [← Bool.not_eq_true, endsLine_iff]
  simp [h c hc]

/-- A text that is sent as an event. -/
structure Payload where
  text : String
  nonempty : text ≠ ""
  goesOn : text ≠ "[DONE]"
  onOneLine : OnOneLine text

/-- A comment, or the name of an event. -/
structure Aside where
  text : String
  apart : [':'] <+: text.toList ∨ "event:".toList <+: text.toList
  onOneLine : OnOneLine text

inductive Line
  | data (p : Payload)
  | aside (a : Aside)

namespace Line

def text : Line → String
  | data p => "data: " ++ p.text
  | aside a => a.text

/-- The payloads that the line is meant to carry. -/
def meant : Line → List String
  | data p => [p.text]
  | aside _ => []

/-- A payload is not cut, and nothing in a comment is taken for a payload. -/
def Arrives : Line → Prop
  | data p => Uncut p.text
  | aside a => payloads a.text = []

end Line

/-- A line that is sent, with its end and the blank lines after it. -/
structure SentLine where
  line : Line
  ends : LineEnds
  ended : ends.val ≠ []

/-- The lines one after the other, and behind them the mark of the end. -/
def stream (lines : List SentLine) (trail : LineEnds) : String :=
  String.ofList (lines.flatMap (fun l => l.line.text.toList ++ l.ends.val) ++
    (dataMark ++ endMark ++ trail.val))

theorem payloads_eq (body : String) : payloads body = (carried body.toList).map String.ofList := rfl

theorem unbroken_of_mem_payloads {body data : String} (h : data ∈ payloads body) :
    Unbroken data.toList := by
  obtain ⟨cs, hcs, rfl⟩ := List.mem_map.mp h
  rw [String.toList_ofList]
  exact unbroken_of_mem_carried hcs

theorem payloads_stream (lines : List SentLine) (trail : LineEnds) :
    payloads (stream lines trail) = lines.flatMap fun l => payloads l.line.text := by
  have hcarried : carried (lines.flatMap (fun l => l.line.text.toList ++ l.ends.val) ++
      (dataMark ++ endMark ++ trail.val)) = lines.flatMap fun l => carried l.line.text.toList := by
    induction lines with
    | nil => exact carried_endMark trail
    | cons l lines ih =>
      rw [List.flatMap_cons, List.append_assoc, List.append_assoc,
        carried_append _ (endsLine_lineEnds l.ends) l.ended, ih, List.flatMap_cons]
  rw [payloads_eq, stream, String.toList_ofList, hcarried, List.map_flatMap]
  rfl

theorem payloads_of_unbroken {s : String} (h : Unbroken s.toList) :
    payloads s = ((payload? s.toList).map String.ofList).toList := by
  rw [payloads_eq, carried_of_unbroken h]
  cases payload? s.toList <;> rfl

theorem payloads_data {p : Payload} (h : Unbroken p.text.toList) :
    payloads (Line.data p).text = [p.text] := by
  have htext : (Line.data p).text.toList = dataMark ++ p.text.toList := String.toList_append
  have hunbroken : Unbroken (Line.data p).text.toList := by
    rw [htext]
    exact Unbroken.append (by decide) h
  have hpayload : payload? (Line.data p).text.toList = some p.text.toList := by
    rw [htext, payload?_eq_some_iff]
    refine ⟨rfl, fun h => p.nonempty (String.toList_inj.mp h), fun h => p.goesOn ?_⟩
    exact String.toList_inj.mp h
  rw [payloads_of_unbroken hunbroken, hpayload, Option.map_some, String.ofList_toList]
  rfl

theorem payloads_aside {a : Aside} (h : Unbroken a.text.toList) : payloads a.text = [] := by
  have hnone : payload? a.text.toList = none := by
    rw [Option.eq_none_iff_forall_ne_some]
    intro data hdata
    obtain ⟨htext, -⟩ := payload?_eq_some_iff.mp hdata
    have hapart := a.apart
    rw [htext] at hapart
    rcases hapart with hcolon | hevent
    · exact absurd (List.cons_prefix_cons.mp hcolon).1 (by decide)
    · exact absurd (List.cons_prefix_cons.mp hevent).1 (by decide)
  rw [payloads_of_unbroken h, hnone]
  rfl

theorem payloads_of_arrives {l : Line} (h : l.Arrives) : payloads l.text = l.meant := by
  cases l with
  | data p => exact payloads_data ((unbroken_iff p.onOneLine).mpr h)
  | aside a => exact h

theorem arrives_of_uncut {l : Line} (h : Uncut l.text) : l.Arrives := by
  cases l with
  | data p =>
    intro c hc
    exact h c (by rw [Line.text, String.toList_append]; exact List.mem_append_right _ hc)
  | aside a => exact payloads_aside ((unbroken_iff a.onOneLine).mpr h)

/-- Two wholes that are equal have equal parts, if no part of the one is more than that of the other. -/
theorem eq_of_flatMap_eq {α β : Type} {f g : α → List β} {as : List α}
    (hsub : ∀ a ∈ as, (g a).Sublist (f a)) (h : as.flatMap f = as.flatMap g) :
    ∀ a ∈ as, f a = g a := by
  induction as with
  | nil => simp
  | cons a as ih =>
    obtain ⟨ha, has⟩ := List.forall_mem_cons.mp hsub
    rw [List.flatMap_cons, List.flatMap_cons] at h
    have hlength := congrArg List.length h
    rw [List.length_append, List.length_append] at hlength
    have hfirst : (g a).length ≤ (f a).length := ha.length_le
    have hrest : (as.flatMap g).length ≤ (as.flatMap f).length :=
      (List.Sublist.flatMap_right as has).length_le
    obtain ⟨hhead, htail⟩ := List.append_inj h (by omega)
    exact List.forall_mem_cons.mpr ⟨hhead, ih has htail⟩

/-- The payloads of a stream come back one by one, in order, exactly if each line arrives: no payload
has one of the stray ends, and no comment carries a payload behind one. A line without them arrives. -/
theorem payloads_stream_iff (lines : List SentLine) (trail : LineEnds) :
    (payloads (stream lines trail) = lines.flatMap (·.line.meant) ↔
      ∀ l ∈ lines, l.line.Arrives) ∧
    ∀ l : Line, Uncut l.text → l.Arrives := by
  refine ⟨?_, fun l => arrives_of_uncut⟩
  rw [payloads_stream]
  constructor
  · intro h
    have hdata : ∀ l ∈ lines, ∀ p, l.line = .data p → Unbroken p.text.toList := by
      intro l hl p hp
      have hmem : p.text ∈ payloads (stream lines trail) := by
        rw [payloads_stream, h]
        exact List.mem_flatMap.mpr ⟨l, hl, by simp [hp, Line.meant]⟩
      exact unbroken_of_mem_payloads hmem
    have hsub : ∀ l ∈ lines, l.line.meant.Sublist (payloads l.line.text) := by
      intro l hl
      cases hline : l.line with
      | data p =>
        rw [payloads_data (hdata l hl p hline)]
        exact List.Sublist.refl _
      | aside a => exact List.nil_sublist _
    have heach := eq_of_flatMap_eq hsub h
    intro l hl
    cases hline : l.line with
    | data p => exact (unbroken_iff p.onOneLine).mp (hdata l hl p hline)
    | aside a =>
      have hnone := heach l hl
      rwa [hline] at hnone
  · intro h
    exact List.flatMap_congr fun l hl => payloads_of_arrives (h l hl)

def lineFeeds (n : Nat) : LineEnds :=
  ⟨List.replicate n '\n', fun _ hc => .inl (List.eq_of_mem_replicate hc)⟩

/-- A line with a blank line after it. -/
def spacedLine (l : Line) : SentLine := ⟨l, lineFeeds 2, List.cons_ne_nil _ _⟩

def ping : Aside := ⟨"event: ping", by decide, by decide⟩

/-- Two payloads, a comment between them. -/
def twoPayloads : List SentLine :=
  [spacedLine (.data ⟨"data: a", by decide, by decide, by decide⟩),
   spacedLine (.aside ping),
   spacedLine (.data ⟨"[DONE] ", by decide, by decide, by decide⟩)]

theorem payloads_stream_iff_twoPayloads :
    (∀ l ∈ twoPayloads, Uncut l.line.text) ∧
    payloads (stream twoPayloads (lineFeeds 1)) = ["data: a", "[DONE] "] := by
  have huncut : ∀ l ∈ twoPayloads, Uncut l.line.text := by decide
  have h := payloads_stream_iff twoPayloads (lineFeeds 1)
  exact ⟨huncut, h.1.mpr fun l hl => h.2 l.line (huncut l hl)⟩

/-- A payload of one line, with the character that separates lines inside it. -/
def separated : Payload :=
  ⟨"a\u2028b", by decide, by decide, by decide⟩

/-- What stands behind the line separator is lost. -/
theorem payload_cut_at_separator :
    payloads (stream [spacedLine (.data separated)] (lineFeeds 1)) = ["a"] ∧
    ¬ ∀ (lines : List SentLine) (trail : LineEnds),
      payloads (stream lines trail) = lines.flatMap (·.line.meant) := by
  have hcut : payloads (stream [spacedLine (.data separated)] (lineFeeds 1)) = ["a"] := by rfl
  refine ⟨hcut, fun h => ?_⟩
  have hwhole := h [spacedLine (.data separated)] (lineFeeds 1)
  rw [hcut] at hwhole
  exact absurd hwhole (by decide)

end BlueprintPatch.EventStream
