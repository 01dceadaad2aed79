import BlueprintPatch.Text.CodePoint
import BlueprintPatch.Text.Printable

/-! Text between quotes, with backslash escapes for the quote, the backslash and every character
that has no visible form. -/
namespace BlueprintPatch.Text

/-- Single quotes, unless the text holds one of these and no double quote. -/
def quoteFor (ps : Points) : Char :=
  if .char '\'' ∈ ps ∧ .char '"' ∉ ps then '"' else '\''

def escapeChar (quote c : Char) : List Char :=
  if c = quote ∨ c = '\\' then ['\\', c]
  else if c = '\n' then ['\\', 'n']
  else if c = '\r' then ['\\', 'r']
  else if c = '\t' then ['\\', 't']
  else if isVisible c then [c]
  else if c.toNat < 0x100 then '\\' :: 'x' :: hex 2 c.toNat
  else if c.toNat < 0x10000 then '\\' :: 'u' :: hex 4 c.toNat
  else '\\' :: 'U' :: hex 8 c.toNat

def escapePoint (quote : Char) : CodePoint → List Char
  | .char c => escapeChar quote c
  | p => p.spelling

def quotedPoints (ps : Points) : String :=
  let quote := quoteFor ps
  String.ofList (quote :: ps.flatMap (escapePoint quote) ++ [quote])

def quoted (s : String) : String := quotedPoints (.ofString s)

end BlueprintPatch.Text
