import BlueprintPatch.Text.Lines

/-! Server-sent events: the payloads that the body of a reply carries. -/
namespace BlueprintPatch.EventStream

def dataMark : List Char := "data: ".toList

def endMark : List Char := "[DONE]".toList

/-- The payload of a line, unless it is empty or marks the end. -/
def payload? (line : List Char) : Option (List Char) :=
  let data := line.drop dataMark.length
  if ¬ dataMark.isPrefixOf line ∨ data.isEmpty ∨ data = endMark then none else some data

def payloads (body : String) : List String :=
  ((Text.lines body.toList).filterMap payload?).map String.ofList

end BlueprintPatch.EventStream
