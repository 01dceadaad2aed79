import BlueprintPatch.Number.Binary64

/-! Notifications: what the user is told about a patch, and for how long. -/
namespace BlueprintPatch

inductive Severity
  | info
  | warning
  | error
deriving DecidableEq, Repr

def Severity.name : Severity → String
  | .info => "Info"
  | .warning => "Warning"
  | .error => "Error"

structure Notification where
  message : String
  severity : Severity
  seconds : Binary64
deriving DecidableEq, Repr

/-- What the engine reports at the end of a patch. -/
inductive Report
  | success (operations : Nat)
  | failure (reason : String)
deriving DecidableEq, Repr

namespace Report

def isSuccess : Report → Bool
  | success _ => true
  | failure _ => false

def suggestions : String :=
  "Suggestions:\n" ++ "• Check if the target Blueprint is open\n"
    ++ "• Verify the Blueprint hasn't been modified\n" ++ "• Try exporting fresh context from UE"

/-- A success is told for 5 seconds, a failure for 15 and what may help for 20. -/
def notifications : Report → List Notification
  | success n =>
    [⟨"Successfully applied AI patch with " ++ toString n ++ " operations", .info,
      Binary64.ofDecimal false 5 0⟩]
  | failure reason =>
    [⟨"Failed to apply AI patch: " ++ reason, .error, Binary64.ofDecimal false 15 0⟩,
     ⟨"Patch application failed: " ++ reason ++ "\n\n" ++ suggestions, .warning,
      Binary64.ofDecimal false 20 0⟩]

end Report

end BlueprintPatch
