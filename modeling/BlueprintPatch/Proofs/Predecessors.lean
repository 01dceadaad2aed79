import BlueprintPatch.Proofs.Adding

/-! Predecessors. Each pin of a rebuilt node has at most one predecessor among the old pins, whose
id, links and default it takes over, and no old pin has two successors. A pin is left without a
predecessor only if none of the old pins that are left over would have done. A second rebuilding
finds every pin its own predecessor. -/
namespace BlueprintPatch

/-- The place of the `i`-th of the elements other than the one at `k`. -/
def otherPlace (k i : Nat) : Nat := if i < k then i else i + 1

section

variable {i j k : Nat}

theorem otherPlace_ne (k i : Nat) : otherPlace k i ≠ k := by
  unfold otherPlace
  split <;> omega

theorem otherPlace_injective (k : Nat) : Function.Injective (otherPlace k) := by
  intro i j h
  unfold otherPlace at h
  split at h <;> split at h <;> omega

theorem exists_otherPlace (h : j ≠ k) : ∃ i, otherPlace k i = j := by
  by_cases hlt : j < k
  · exact ⟨j, if_pos hlt⟩
  · obtain ⟨i, rfl⟩ := Nat.exists_eq_add_one.mpr (show 0 < j by omega)
    exact ⟨i, if_neg (by omega)⟩

theorem getElem?_eraseIdx_eq {α : Type} (as : List α) (k i : Nat) :
    (as.eraseIdx k)[i]? = as[otherPlace k i]? := by
  rw [List.getElem?_eraseIdx, otherPlace]
  split <;> rfl

end

/-- The new pins, made after the specs with the numbers from `n` on, have been carried over from the
old ones. What a new pin takes from an old one is given by `R`; `source` says at which place its
predecessor stands, if it has one. -/
structure CarriedOver (R : Pin → Pin → Prop) (n : Nat) (specs : List PinSpec) (olds news : List Pin)
    (source : Nat → Option Nat) : Prop where
  standard : news.map (·.draft.spec) = specs
  /-- No old pin has two successors. -/
  injective : ∀ i j k, source i = some k → source j = some k → i = j
  taken : ∀ i k, source i = some k → ∃ new old, news[i]? = some new ∧ olds[k]? = some old ∧
    R new old ∧ new.id = old.id ∧ new.linkedTo = old.linkedTo ∧ new.defaultValue = old.defaultValue
  made : ∀ i new, source i = none → news[i]? = some new →
    new.id = generatedId (n + i) ∧ new.linkedTo = [] ∧ new.defaultValue = ""
  /-- A new pin without a predecessor and an old one without a successor do not go together. -/
  maximal : ∀ i k new old, source i = none → (∀ j, source j ≠ some k) → news[i]? = some new →
    olds[k]? = some old → ¬ R new old

/-- The first new pin succeeds the old one at `k`, and those behind it take from the others. -/
def sourcesBehind (k : Nat) (source : Nat → Option Nat) : Nat → Option Nat
  | 0 => some k
  | i + 1 => (source i).map (otherPlace k)

/-- The first new pin succeeds none, and those behind it take from all. -/
def sourcesPast (source : Nat → Option Nat) : Nat → Option Nat
  | 0 => none
  | i + 1 => source i

section

variable {k : Nat} {source : Nat → Option Nat}

theorem sourcesBehind_succ_ne (k : Nat) (source : Nat → Option Nat) (i : Nat) :
    sourcesBehind k source (i + 1) ≠ some k := by
  intro h
  obtain ⟨m, -, hm⟩ := Option.map_eq_some_iff.mp h
  exact otherPlace_ne k m hm

theorem sourcesBehind_injective (h : ∀ i j l, source i = some l → source j = some l → i = j)
    (i j l : Nat) (hi : sourcesBehind k source i = some l)
    (hj : sourcesBehind k source j = some l) : i = j := by
  cases i with
  | zero =>
    obtain rfl : k = l := Option.some.inj hi
    cases j with
    | zero => rfl
    | succ j => exact absurd hj (sourcesBehind_succ_ne k source j)
  | succ i =>
    cases j with
    | zero =>
      obtain rfl : k = l := Option.some.inj hj
      exact absurd hi (sourcesBehind_succ_ne k source i)
    | succ j =>
      obtain ⟨m, hm, rfl⟩ := Option.map_eq_some_iff.mp hi
      obtain ⟨m', hm', heq⟩ := Option.map_eq_some_iff.mp hj
      obtain rfl := otherPlace_injective k heq
      rw [h i j m' hm hm']

end

namespace CarriedOver

variable {R : Pin → Pin → Prop} {n : Nat} {s : PinSpec} {specs : List PinSpec}
  {olds news : List Pin} {source : Nat → Option Nat}

theorem nil (R : Pin → Pin → Prop) (n : Nat) (olds : List Pin) :
    CarriedOver R n [] olds [] fun _ => none where
  standard := rfl
  injective _ _ _ h := nomatch h
  taken _ _ h := nomatch h
  made _ _ _ h := nomatch h
  maximal _ _ _ _ _ _ h := nomatch h

theorem take {old : Pin} {k : Nat}
    (h : CarriedOver R (n + 1) specs (olds.eraseIdx k) news source) (hold : olds[k]? = some old)
    (hR : R ((s.pin n).succeed old) old) :
    CarriedOver R n (s :: specs) olds ((s.pin n).succeed old :: news) (sourcesBehind k source) where
  standard := congrArg (s :: ·) h.standard
  injective := sourcesBehind_injective h.injective
  taken i l hi := by
    cases i with
    | zero =>
      obtain rfl : k = l := Option.some.inj hi
      exact ⟨_, old, rfl, hold, hR, rfl, rfl, rfl⟩
    | succ i =>
      obtain ⟨m, hm, rfl⟩ := Option.map_eq_some_iff.mp hi
      obtain ⟨new, old', hnew, hold', hrest⟩ := h.taken i m hm
      exact ⟨new, old', hnew, (getElem?_eraseIdx_eq olds k m).symm.trans hold', hrest⟩
  made i new hi hnew := by
    cases i with
    | zero => cases hi
    | succ i =>
      rw [Nat.add_comm i, ← Nat.add_assoc]
      exact h.made i new (Option.map_eq_none_iff.mp hi) hnew
  maximal i l new old' hi hl hnew hold' := by
    cases i with
    | zero => cases hi
    | succ i =>
      -- The place is not that of the old pin which the first new one has taken.
      obtain ⟨m, rfl⟩ := exists_otherPlace fun he : l = k => hl 0 (congrArg some he.symm)
      refine h.maximal i m new old' (Option.map_eq_none_iff.mp hi) (fun j hj => ?_) hnew
        ((getElem?_eraseIdx_eq olds k m).trans hold')
      exact hl (j + 1) (congrArg (Option.map (otherPlace k)) hj)

theorem make (h : CarriedOver R (n + 1) specs olds news source)
    (hR : ∀ old ∈ olds, ¬ R (s.pin n) old) :
    CarriedOver R n (s :: specs) olds (s.pin n :: news) (sourcesPast source) where
  standard := congrArg (s :: ·) h.standard
  injective i j k hi hj := by
    cases i with
    | zero => cases hi
    | succ i =>
      cases j with
      | zero => cases hj
      | succ j => rw [h.injective i j k hi hj]
  taken i k hi := by
    cases i with
    | zero => cases hi
    | succ i => exact h.taken i k hi
  made i new hi hnew := by
    cases i with
    | zero =>
      obtain rfl := Option.some.inj hnew
      exact ⟨rfl, rfl, rfl⟩
    | succ i =>
      rw [Nat.add_comm i, ← Nat.add_assoc]
      exact h.made i new hi hnew
  maximal i k new old hi hk hnew hold := by
    cases i with
    | zero =>
      obtain rfl := Option.some.inj hnew
      exact hR old (List.mem_of_getElem? hold)
    | succ i => exact h.maximal i k new old hi (fun j => hk (j + 1)) hnew hold

/-- Ids that were distinct are so afterwards: those of the predecessors whatever the others are, and
all of them if the numbers from `n` on have not been given before. -/
structure KeepsApart (n : Nat) (olds news : List Pin) (source : Nat → Option Nat) : Prop where
  succeeding : ∀ i j new new', (source i).isSome → (source j).isSome → news[i]? = some new →
    news[j]? = some new' → new.id = new'.id → i = j
  all : (∀ p ∈ olds, ¬ IsGeneratedFrom n p.id) → (news.map (·.id)).Nodup

theorem nodup_ids_iff {ps : List Pin} : (ps.map (·.id)).Nodup ↔
    ∀ (k l : Nat) (p q : Pin), ps[k]? = some p → ps[l]? = some q → p.id = q.id → k = l := by
  rw [List.Nodup, List.pairwise_map, List.pairwise_iff_getElem]
  constructor
  · intro h k l p q hp hq hid
    obtain ⟨hk, rfl⟩ := List.getElem?_eq_some_iff.mp hp
    obtain ⟨hl, rfl⟩ := List.getElem?_eq_some_iff.mp hq
    rcases Nat.lt_trichotomy k l with hlt | heq | hgt
    · exact absurd hid (h k l hk hl hlt)
    · exact heq
    · exact absurd hid.symm (h l k hl hk hgt)
  · intro h k l hk hl hlt hid
    have heq := h k l _ _ (List.getElem?_eq_getElem hk) (List.getElem?_eq_getElem hl) hid
    omega

theorem keepsApart (h : CarriedOver R n specs olds news source) (hnodup : (olds.map (·.id)).Nodup) :
    KeepsApart n olds news source := by
  have hsucceeding : ∀ i j new new', (source i).isSome → (source j).isSome → news[i]? = some new →
      news[j]? = some new' → new.id = new'.id → i = j := by
    intro i j new new' hi hj hnew hnew' hid
    obtain ⟨k, hk⟩ := Option.isSome_iff_exists.mp hi
    obtain ⟨l, hl⟩ := Option.isSome_iff_exists.mp hj
    obtain ⟨p, old, hp, hold, -, hpid, -⟩ := h.taken i k hk
    obtain ⟨q, old', hq, hold', -, hqid, -⟩ := h.taken j l hl
    obtain rfl := Option.some.inj (hp.symm.trans hnew)
    obtain rfl := Option.some.inj (hq.symm.trans hnew')
    obtain rfl : k = l := nodup_ids_iff.mp hnodup k l old old' hold hold'
      (hpid.symm.trans (hid.trans hqid))
    exact h.injective i j k hk hl
  refine ⟨hsucceeding, fun hfresh => nodup_ids_iff.mpr fun i j new new' hnew hnew' hid => ?_⟩
  -- The id of a predecessor is none that is generated with a number from `n` on.
  have hmixed : ∀ i j new new', source i ≠ none → source j = none → news[i]? = some new →
      news[j]? = some new' → new.id ≠ new'.id := by
    intro i j new new' hi hj hnew hnew' hid
    obtain ⟨k, hk⟩ := Option.ne_none_iff_exists'.mp hi
    obtain ⟨p, old, hp, hold, -, hpid, -⟩ := h.taken i k hk
    obtain rfl := Option.some.inj (hp.symm.trans hnew)
    refine hfresh old (List.mem_of_getElem? hold) ⟨n + j, Nat.le_add_right n j, ?_⟩
    rw [← hpid, hid, (h.made j new' hj hnew').1]
  by_cases hi : source i = none
  · by_cases hj : source j = none
    · have hij : n + i = n + j := generatedId_inj <| by
        rw [← (h.made i new hi hnew).1, hid, (h.made j new' hj hnew').1]
      omega
    · exact absurd hid.symm (hmixed j i new' new hj hi hnew' hnew)
  · by_cases hj : source j = none
    · exact absurd hid (hmixed i j new new' hi hj hnew hnew')
    · exact hsucceeding i j new new' (Option.isSome_iff_ne_none.mpr hi)
        (Option.isSome_iff_ne_none.mpr hj) hnew hnew' hid

end CarriedOver

namespace Node

/-- The old pin can go before the new one: it points the same way and is for the same, control flow
or a value, and it has the same name or, if the new pin is called like the member, the name that the
member had before. -/
structure Matches (x : Node) (previous : Option String) (new old : Pin) : Prop where
  direction : old.direction = new.direction
  flow : old.isExec = new.isExec
  name : old.name = new.name ∨ x.memberName = some new.name ∧ previous = some old.name

theorem precedes_iff_matches {x : Node} {previous : Option String} {new old : Pin} :
    precedes (formerNames x.memberName previous new.name) new old = true ↔
      x.Matches (previous.filter (· ≠ "")) new old := by
  rw [precedes_iff, mem_formerNames_iff]
  exact ⟨fun ⟨hdirection, hname, hflow⟩ => ⟨hdirection, hflow, hname⟩,
    fun ⟨hdirection, hflow, hname⟩ => ⟨hdirection, hname, hflow⟩⟩

theorem exists_carriedOver {R : Pin → Pin → Prop} {names : String → List String}
    (hR : ∀ new old, precedes (names new.name) new old = true ↔ R new old) (n : Nat)
    (specs : List PinSpec) (olds : List Pin) :
    ∃ source, CarriedOver R n specs olds (carryOver names (newPins n specs) olds) source := by
  induction specs generalizing n olds with
  | nil => exact ⟨_, .nil R n olds⟩
  | cons s specs ih =>
    rw [newPins_cons, carryOver]
    cases htake : takeFirst? (precedes (names (s.pin n).name) (s.pin n)) olds with
    | some r =>
      obtain ⟨hprecedes, k, hold, hleft⟩ := eraseIdx_of_takeFirst? htake
      obtain ⟨source, hrest⟩ := ih (n + 1) r.2
      rw [hleft] at hrest
      -- Taking over changes nothing that decides what goes before the pin.
      have hmatch : R ((s.pin n).succeed r.1) r.1 := (hR _ _).mp hprecedes
      exact ⟨_, hleft ▸ hrest.take hold hmatch⟩
    | none =>
      obtain ⟨source, hrest⟩ := ih (n + 1) olds
      exact ⟨_, hrest.make fun old hmem h =>
        takeFirst?_eq_none_iff.mp htake old hmem ((hR _ _).mpr h)⟩

/-- Rebuilding gives a node the pins of its kind, in order. Each of them succeeds at most one old
pin, which matches it, no old pin has two successors, a pin that succeeds none is as new, and no
such pin matches an old one that is left over. So ids that are distinct stay distinct. An empty
previous name counts as none; a node of the generic kind is left as it is. -/
theorem reconstruct_carries_over (x : Node) (valueType : String) (previous : Option String)
    (n : Nat) :
    (x.kind = .generic → x.reconstruct valueType previous n = x) ∧
    (x.kind ≠ .generic → ∃ specs pins source,
      x.kind.pinSpecs? (x.memberName.getD "") valueType = some specs ∧
      x.reconstruct valueType previous n = { x with pins := pins } ∧
      CarriedOver (x.Matches (previous.filter (· ≠ ""))) n specs x.pins pins source ∧
      ((x.pins.map (·.id)).Nodup → CarriedOver.KeepsApart n x.pins pins source)) := by
  refine ⟨fun hkind => if_pos hkind, fun hkind => ?_⟩
  obtain ⟨specs, hspecs⟩ := NodeKind.exists_pinSpecs hkind (x.memberName.getD "") valueType
  obtain ⟨source, hcarried⟩ : ∃ source,
      CarriedOver (x.Matches (previous.filter (· ≠ ""))) n specs x.pins
        (carryOver (formerNames x.memberName previous) (newPins n specs) x.pins) source :=
    exists_carriedOver (fun _ _ => precedes_iff_matches) n specs x.pins
  exact ⟨specs, _, source, hspecs, reconstruct_of_specs hspecs previous n, hcarried,
    hcarried.keepsApart⟩

def namelessGetter : Node :=
  ⟨0, "Getter", "G", .variableGet, some "Open", .zero, .zero,
    [⟨1, "P", "", .output, "bool", "", ["Q"]⟩]⟩

/-- If the empty text counted as a previous name, the pin would have to be carried over. -/
theorem not_carried_over_from_empty_name :
    namelessGetter.kind ≠ .generic ∧ ¬ ∃ specs source,
      CarriedOver (namelessGetter.Matches (some "")) 2 specs namelessGetter.pins
        (namelessGetter.reconstruct "bool" (some "") 2).pins source := by
  have hpins : (namelessGetter.reconstruct "bool" (some "") 2).pins =
      [⟨2, generatedId 2, "Open", .output, "bool", "", []⟩] := by decide +kernel
  refine ⟨by decide, fun ⟨specs, source, h⟩ => ?_⟩
  rw [hpins] at h
  have hnone : ∀ i, source i = none := by
    intro i
    rw [Option.eq_none_iff_forall_not_mem]
    intro k hk
    obtain ⟨new, old, hnew, hold, -, hid, -⟩ := h.taken i k hk
    have hnew' := List.mem_of_getElem? hnew
    have hold' := List.mem_of_getElem? hold
    rw [List.mem_singleton.mp hnew', List.mem_singleton.mp hold'] at hid
    exact absurd hid (by decide +kernel)
  exact h.maximal 0 0 _ _ (hnone 0) (fun j => by simp [hnone j]) rfl rfl
    ⟨rfl, rfl, .inr ⟨rfl, rfl⟩⟩

/-- A second rebuilding changes nothing, whatever previous name it is given and whatever the names
of the pins are: every pin is the first that is left to go before itself. -/
theorem reconstruct_reconstruct (x : Node) (valueType : String) (previous later : Option String)
    (n k : Nat) :
    ((x.reconstruct valueType previous n).reconstruct valueType later k).draft =
      (x.reconstruct valueType previous n).draft := by
  by_cases hkind : x.kind = .generic
  · have hsame (previous : Option String) (n : Nat) : x.reconstruct valueType previous n = x :=
      if_pos hkind
    rw [hsame previous n, hsame later k]
  · exact draft_reconstruct_of_standard (standard_reconstruct hkind valueType previous n) later k

end Node

end BlueprintPatch
