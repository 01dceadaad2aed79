import BlueprintPatch.Json.Reader

/-! The patch in a reply. The reply comes in chunks, of plain text or of envelopes that carry text;
the patch is the first object in the joined text that looks like one. Two chunks may hold one half
of a surrogate pair each, so the texts are taken by their code points. -/
namespace BlueprintPatch.Reply

/-- The text in an envelope. -/
def content? (v : Json) : Option Points :=
  (v.fields?.bind (Fields.get? "content")).bind Json.points?

/-- The text that a chunk stands for: the content of an envelope, any other chunk itself. A chunk
that breaks a limit of the reader is an error. -/
def chunkText (chunk : Points) : Except Json.Fault Points :=
  match Json.readPoints chunk with
  | .error (.malformed _ _) => .ok chunk
  | .error fault => .error fault
  | .ok v => .ok ((content? v).getD chunk)

def joined (chunks : List Points) : Except Json.Fault Points :=
  (chunks.mapM chunkText).map List.flatten

/-- Whether an object has a field that a patch has. -/
def looksLikePatch : Json → Bool
  | .obj fields => Fields.has "operations" fields || Fields.has "type" fields
  | _ => false

/-- Looks for a patch from each opening brace that is not inside an object already read. Each step
takes code points off the text, so a bound of its length is never reached. -/
def search : Nat → Points → Except Json.Fault (Option Points)
  | 0, _ => .ok none
  | bound + 1, cs =>
    match cs.dropWhile (· ≠ .char '\x7b') with
    | [] => .ok none
    | brace :: rest =>
      match Json.readFront (brace :: rest) with
      | .error (.malformed _ _) => search bound rest
      | .error fault => .error fault
      | .ok (v, left) =>
        if looksLikePatch v then .ok (some ((brace :: rest).take (rest.length + 1 - left.length)))
        else search bound left

/-- The text of the patch that the chunks carry. -/
def extract (chunks : List Points) : Except Json.Fault (Option Points) :=
  (joined chunks).bind fun cs => search cs.length cs

/-- The same between strings. -/
def extractPatch (chunks : List String) : Except Json.Fault (Option String) :=
  (extract (chunks.map .ofString)).map (Option.map Points.spelt)

end BlueprintPatch.Reply
