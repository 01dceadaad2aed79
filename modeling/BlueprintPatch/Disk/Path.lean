/-! Paths: names of files and directories from the working directory on. -/
namespace BlueprintPatch

/-- The names that lead to a place, and the text by which messages call it. -/
structure Path where
  parts : List String
  shown : String
deriving DecidableEq, Repr

namespace Path

/-- The slashes in front of the names. Two of them are kept, more count as one. -/
def root : List Char → List String
  | '/' :: '/' :: '/' :: _ => ["/"]
  | '/' :: '/' :: _ => ["//"]
  | '/' :: _ => ["/"]
  | _ => []

def roots : List String := ["/", "//"]

/-- The texts between slashes, empty ones included. -/
def pieces : List Char → List (List Char)
  | [] => [[]]
  | c :: rest =>
    if c = '/' then [] :: pieces rest
    else match pieces rest with
      | [] => [[c]]
      | first :: others => (c :: first) :: others

/-- The names between slashes, after the root. -/
def split (s : String) : List String :=
  root s.toList ++ ((pieces s.toList).filter (· ≠ [])).map String.ofList

def render (parts : List String) : String :=
  match parts with
  | [] => "."
  | first :: rest =>
    if first ∈ roots then first ++ "/".intercalate rest else "/".intercalate parts

def ofParts (parts : List String) : Path := ⟨parts, render parts⟩

/-- The path of a text, without names that lead nowhere. -/
def ofText (s : String) : Path := ofParts ((split s).filter (· ≠ "."))

/-- The path of a text that messages repeat as it stands. An empty text names nothing, and a
slash at the end wants a directory. -/
def verbatim (s : String) : Path :=
  ⟨if s = "" then [""] else split s ++ (if s.toList.getLast? = some '/' then ["."] else []), s⟩

/-- The place that the text names, seen from the directory `p`. -/
def join (p : Path) (s : String) : Path :=
  if s.toList.head? = some '/' then ofText s else ofParts (p.parts ++ (ofText s).parts)

def parent (p : Path) : Path := ofParts p.parts.dropLast

end Path

end BlueprintPatch
