import BlueprintPatch.Text.Blank

/-! Keys: names of directories for blueprints, made from their paths. Different paths may share a
key. -/
namespace BlueprintPatch.Store

/-- The characters that a key may have. -/
def isKeyChar (c : Char) : Bool := c.isAlphanum || c = '_' || c = '.' || c = '-'

/-- The text with each run of other characters made one underscore; `inRun` says that such a run
goes on. -/
def squeeze : Bool → List Char → List Char
  | _, [] => []
  | inRun, c :: rest =>
    if isKeyChar c then c :: squeeze false rest
    else if inRun then squeeze true rest
    else '_' :: squeeze true rest

/-- The key of a name or path, slashes at its ends aside. -/
def key (identifier : String) : String :=
  let cs := squeeze false (Text.trim (· = '/') identifier.toList)
  if cs.isEmpty then "_" else String.ofList cs

theorem isKeyChar_of_mem_squeeze (inRun : Bool) (cs : List Char) :
    ∀ c ∈ squeeze inRun cs, isKeyChar c = true := by
  induction cs generalizing inRun with
  | nil => simp [squeeze]
  | cons c rest ih =>
    intro x hx
    simp only [squeeze] at hx
    split at hx
    · rename_i hc
      rcases List.mem_cons.1 hx with rfl | hx
      · exact hc
      · exact ih _ x hx
    · split at hx
      · exact ih _ x hx
      · rcases List.mem_cons.1 hx with rfl | hx
        · decide
        · exact ih _ x hx

end BlueprintPatch.Store
