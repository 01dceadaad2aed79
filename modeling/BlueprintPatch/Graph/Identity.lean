import BlueprintPatch.Text.DecimalDigit

/-! Identity of the objects of a model. A handle says which object something is, whatever its
content; an id is text that the editor stores in the object. Both are drawn from one supply of
numbers, so a number is drawn for one object only. -/
namespace BlueprintPatch

abbrev Handle := Nat

/-- Where the generated ids begin: ids have 32 digits and share the first ones. -/
def firstId : Nat := 0xB7E15162_8AED2A6A_BF715880_00000000

/-- The generated id of number `n`, in upper-case hexadecimal digits. -/
def generatedId (n : Nat) : String :=
  String.ofList ((Nat.toDigits 16 (firstId + n)).map Char.toUpper)

end BlueprintPatch
