/-! Checks of several fields at once. A failing check says where and in what way each of the
fields is wrong, so checks are combined by an applicative that collects all complaints and not by
a monad that stops at the first. -/
namespace BlueprintPatch

/-- In what way a field is not what its record wants. -/
inductive Flaw
  | missing
  | stringType
  | stringTooShort
  | stringUnicode
  | listType
  | objectType
  | modelType
  | choice
  | intType
  | intParsing
  | intParsingSize
  | intFromFloat
  | finiteNumber
  | floatType
  | floatParsing
  | boolType
  | boolParsing
deriving DecidableEq, Repr

/-- A flaw at the end of a path of field names and places in lists. -/
structure FieldError where
  path : List String
  flaw : Flaw
deriving DecidableEq, Repr

/-- A value, or the errors of all fields in the order in which they were checked. -/
inductive Checked (α : Type)
  | ok (a : α)
  | errors (es : List FieldError)
deriving Repr

namespace Checked

variable {α β : Type}

def fail (flaw : Flaw) : Checked α := errors [⟨[], flaw⟩]

def map (f : α → β) : Checked α → Checked β
  | ok a => ok (f a)
  | errors es => errors es

def seq : Checked (α → β) → Checked α → Checked β
  | ok f, ok a => ok (f a)
  | ok _, errors es => errors es
  | errors es, ok _ => errors es
  | errors es, errors more => errors (es ++ more)

instance : Applicative Checked where
  pure := ok
  map := map
  seq f a := seq f (a ())

/-- The same check with `step` in front of the paths of its errors. -/
def within (step : String) : Checked α → Checked α
  | ok a => ok a
  | errors es => errors (es.map fun e => ⟨step :: e.path, e.flaw⟩)

@[simp] theorem map_ok (f : α → β) (a : α) : f <$> (ok a) = ok (f a) := rfl

@[simp] theorem seq_ok (f : α → β) (a : α) : ok f <*> ok a = ok (f a) := rfl

theorem seq_eq_ok {f : Checked (α → β)} {a : Checked α} {b : β} (h : f <*> a = ok b) :
    ∃ g x, f = ok g ∧ a = ok x ∧ g x = b := by
  cases f with
  | ok g =>
    cases a with
    | ok x => exact ⟨g, x, rfl, rfl, by injection h⟩
    | errors es => simp [Seq.seq, seq] at h
  | errors es => cases a <;> simp [Seq.seq, seq] at h

end Checked

end BlueprintPatch
