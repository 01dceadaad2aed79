import BlueprintPatch.Text.DecimalDigit

/-! Decoding of bytes as UTF-8, with the place and kind of the first fault, or with a replacement
for each of the faults. -/
namespace BlueprintPatch.Utf8

/-- Lead bytes from `low` to `high`: `more` bytes follow, the first of them between `secondLow`
and `secondHigh`, the others between `0x80` and `0xBF`. The bits of the lead above `base` open
the code point. -/
structure Lead where
  low : Nat
  high : Nat
  base : Nat
  more : Nat
  secondLow : Nat
  secondHigh : Nat

def leads : List Lead :=
  [⟨0xC2, 0xDF, 0xC0, 1, 0x80, 0xBF⟩, ⟨0xE0, 0xE0, 0xE0, 2, 0xA0, 0xBF⟩,
   ⟨0xE1, 0xEC, 0xE0, 2, 0x80, 0xBF⟩, ⟨0xED, 0xED, 0xE0, 2, 0x80, 0x9F⟩,
   ⟨0xEE, 0xEF, 0xE0, 2, 0x80, 0xBF⟩, ⟨0xF0, 0xF0, 0xF0, 3, 0x90, 0xBF⟩,
   ⟨0xF1, 0xF3, 0xF0, 3, 0x80, 0xBF⟩, ⟨0xF4, 0xF4, 0xF0, 3, 0x80, 0x8F⟩]

def leadOf? (byte : Nat) : Option Lead :=
  leads.find? fun l => l.low ≤ byte && byte ≤ l.high

inductive FaultKind
  | invalidStart
  | invalidContinuation
  | unexpectedEnd
deriving DecidableEq, Repr

/-- Bytes `position` to `position + length - 1` cannot be decoded; `first` is the first of them. -/
structure Fault where
  kind : FaultKind
  first : Nat
  position : Nat
  length : Nat
deriving DecidableEq, Repr

def FaultKind.message : FaultKind → String
  | .invalidStart => "invalid start byte"
  | .invalidContinuation => "invalid continuation byte"
  | .unexpectedEnd => "unexpected end of data"

def Fault.message (f : Fault) : String :=
  let place :=
    if f.length = 1 then
      "byte 0x" ++ String.ofList (Text.hex 2 f.first) ++ " in position " ++ toString f.position
    else "bytes in position " ++ toString f.position ++ "-" ++ toString (f.position + f.length - 1)
  "'utf-8' codec can't decode " ++ place ++ ": " ++ f.kind.message

/-- The longest start of `bytes` that can follow the lead, at most `count` bytes. -/
def tailBytes (low high : Nat) : Nat → List Nat → List Nat
  | 0, _ => []
  | _, [] => []
  | n + 1, b :: rest => if low ≤ b ∧ b ≤ high then b :: tailBytes 0x80 0xBF n rest else []

/-- The character with which `b` and the bytes after it begin, and how many of these belong to it.
The place of `b` is `position`. -/
def decodeOne (position b : Nat) (rest : List Nat) : Except Fault (Char × Nat) :=
  if b < 0x80 then .ok (Char.ofNat b, 0)
  else match leadOf? b with
    | none => .error ⟨.invalidStart, b, position, 1⟩
    | some l =>
      let tail := tailBytes l.secondLow l.secondHigh l.more rest
      if tail.length = l.more then
        .ok (Char.ofNat (tail.foldl (fun n t => n * 64 + (t - 0x80)) (b - l.base)), l.more)
      else if tail.length = rest.length then
        .error ⟨.unexpectedEnd, b, position, 1 + tail.length⟩
      else .error ⟨.invalidContinuation, b, position, 1 + tail.length⟩

/-- Decodes the bytes from `position` on; a character takes at least one byte, so a bound of
their number is never reached. -/
def decodeFrom : Nat → Nat → List Nat → Except Fault (List Char)
  | 0, _, _ => .ok []
  | _, _, [] => .ok []
  | bound + 1, position, b :: rest =>
    match decodeOne position b rest with
    | .error fault => .error fault
    | .ok (c, more) => (decodeFrom bound (position + 1 + more) (rest.drop more)).map (c :: ·)

def decode (bytes : List UInt8) : Except Fault (List Char) :=
  decodeFrom bytes.length 0 (bytes.map UInt8.toNat)

/-- As `decodeFrom`, but a replacement character stands for the bytes of each fault. -/
def repairFrom : Nat → List Nat → List Char
  | 0, _ => []
  | _, [] => []
  | bound + 1, b :: rest =>
    match decodeOne 0 b rest with
    | .error fault => '\uFFFD' :: repairFrom bound (rest.drop (fault.length - 1))
    | .ok (c, more) => c :: repairFrom bound (rest.drop more)

def repair (bytes : List UInt8) : List Char := repairFrom bytes.length (bytes.map UInt8.toNat)

end BlueprintPatch.Utf8
