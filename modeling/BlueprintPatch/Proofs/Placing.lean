import BlueprintPatch.Disk.JsonFile
import Mathlib.Data.List.Infix

/-! What a change of the disk leaves alone. A change below a place keeps every item elsewhere, so
names that do not lead through the place lead where they led before. -/
namespace BlueprintPatch

namespace Disk

variable {d d' d'' : Disk} {q r here place : List String} {names rest : List String}

/-- The disks hold the same outside the place `q` and what is below it. -/
def Within (q : List String) (d d' : Disk) : Prop :=
  d.items.filter (fun i => !q.isPrefixOf i.1) = d'.items.filter (fun i => !q.isPrefixOf i.1)

theorem Within.refl (q : List String) (d : Disk) : Within q d d := rfl

theorem Within.trans (h : Within q d d') (h' : Within q d' d'') : Within q d d'' :=
  Eq.trans h h'

theorem lookup_cons (s : List String) (x : DiskItem) (items : List (List String × DiskItem)) :
    ((s, x) :: items).lookup r = if r = s then some x else items.lookup r := by
  by_cases hr : r = s
  · simp [hr]
  · have hne : (r == s) = false := by simpa using hr
    rw [List.lookup_cons, hne, if_neg hr]

theorem lookup_filter (keep : List String → Bool) (hr : keep r = true)
    (items : List (List String × DiskItem)) :
    (items.filter fun i => keep i.1).lookup r = items.lookup r := by
  induction items with
  | nil => rfl
  | cons i items ih =>
    obtain ⟨s, x⟩ := i
    by_cases hs : keep s = true
    · simp only [List.filter_cons, hs, if_true, lookup_cons, ih]
    · have hne : r ≠ s := fun h => hs (h ▸ hr)
      simp only [List.filter_cons, hs, if_false, lookup_cons, hne, ih, Bool.false_eq_true]

theorem Within.item?_eq (h : Within q d d') (hr : ¬ q <+: r) : d'.item? r = d.item? r := by
  let keep (s : List String) : Bool := !q.isPrefixOf s
  have hkeep : keep r = true := by simpa [keep, ← List.isPrefixOf_iff_prefix] using hr
  have hlookup : d'.items.lookup r = d.items.lookup r := by
    have hfront := lookup_filter keep hkeep d.items
    have hback := lookup_filter keep hkeep d'.items
    rw [← hback, ← hfront, h]
  rw [item?, item?, hlookup]

theorem Within.above (h : Within r d d') (hq : q <+: r) : Within q d d' := by
  have hinside : ∀ items : List (List String × DiskItem),
      items.filter (fun i => !q.isPrefixOf i.1) =
        (items.filter fun i => !r.isPrefixOf i.1).filter fun i => !q.isPrefixOf i.1 := by
    intro items
    rw [List.filter_filter]
    refine List.filter_congr fun i _ => ?_
    have hbelow : r.isPrefixOf i.1 = true → q.isPrefixOf i.1 = true := by
      simpa only [List.isPrefixOf_iff_prefix] using hq.trans
    cases hr : r.isPrefixOf i.1 <;> simp_all
  rw [Within, hinside, h, ← hinside]

theorem lookup_replace (item : DiskItem) (items : List (List String × DiskItem)) :
    (items.map fun p => if p.1 = q then (q, item) else p).lookup r =
      if r = q then (items.lookup q).map fun _ => item else items.lookup r := by
  induction items with
  | nil => simp
  | cons p items ih =>
    obtain ⟨s, x⟩ := p
    rw [List.map_cons, lookup_cons, lookup_cons]
    by_cases hs : s = q
    · rw [if_pos hs, lookup_cons, ih, hs]
      by_cases hr : r = q <;> simp [hr]
    · rw [if_neg hs, lookup_cons, ih]
      by_cases hr : r = q
      · have hne : ¬ q = s := fun h => hs h.symm
        simp [hr, hne]
      · simp [hr]

theorem lookup_put (item : DiskItem) (d : Disk) :
    (d.put q item).items.lookup r = if r = q then some item else d.items.lookup r := by
  by_cases h : (d.items.lookup q).isSome = true
  · obtain ⟨x, hx⟩ := Option.isSome_iff_exists.mp h
    simp [put, lookup_replace, hx]
  · have hnone : d.items.lookup q = none := Option.not_isSome_iff_eq_none.mp h
    rw [put, if_neg h, List.lookup_append, lookup_cons]
    by_cases hr : r = q
    · simp [hr, hnone]
    · simp [hr]

theorem item?_put_self (h : isBase q = false) (item : DiskItem) (d : Disk) :
    (d.put q item).item? q = some item := by simp [item?, h, lookup_put]

theorem item?_put_of_ne (h : r ≠ q) (item : DiskItem) (d : Disk) :
    (d.put q item).item? r = d.item? r := by simp [item?, h, lookup_put]

theorem within_put (h : q <+: r) (item : DiskItem) (d : Disk) : Within q d (d.put r item) := by
  have hdrop : q.isPrefixOf r = true := List.isPrefixOf_iff_prefix.mpr h
  by_cases hr : (d.items.lookup r).isSome = true
  · simp only [Within, put, hr, if_true]
    induction d.items with
    | nil => rfl
    | cons p items ih =>
      by_cases hp : p.1 = r
      · simp [hp, hdrop, ih]
      · simp [hp, List.filter_cons, ih]
  · simp [Within, put, hr, hdrop]

theorem within_remove (q : List String) (d : Disk) :
    Within q d ⟨d.items.filter fun i => !q.isPrefixOf i.1⟩ := by
  simp [Within]

/-- The directories that the names lead through from the directory `here`, and where they lead. -/
def way : List String → List String → List (List String)
  | here, [] => [here]
  | here, name :: rest =>
    here :: match enter here name with
      | .error _ => []
      | .ok place => way place rest

theorem getLast?_way (h : d.follow here names = .ok place) :
    (way here names).getLast? = some place := by
  induction names generalizing here with
  | nil =>
    have hplace : here = place := by simpa [follow] using h
    simp [way, hplace]
  | cons name rest ih =>
    simp only [follow] at h
    split at h
    · simp at h
    · simp at h
    · split at h
      · simp at h
      · rename_i next hnext
        simp [way, hnext, List.getLast?_cons, ih h]

theorem follow_congr (h : ∀ r ∈ way here names, d'.item? r = d.item? r) :
    d'.follow here names = d.follow here names := by
  induction names generalizing here with
  | nil => rfl
  | cons name rest ih =>
    have hhere : d'.item? here = d.item? here := h here (by simp [way])
    simp only [follow, hhere]
    split
    · rfl
    · rfl
    · split
      · rfl
      · rename_i place hplace
        refine ih fun r hr => h r ?_
        simp only [way, hplace]
        exact List.mem_cons_of_mem here hr

theorem follow_append (d : Disk) (here names rest : List String) :
    d.follow here (names ++ rest) =
      (d.follow here names).bind fun place => d.follow place rest := by
  induction names generalizing here with
  | nil => rfl
  | cons name names ih =>
    simp only [List.cons_append, follow]
    split
    · rfl
    · rfl
    · split
      · rfl
      · exact ih _

theorem directory_of_follow (h : d.follow here names = .ok place)
    (hplace : d.item? place = some .directory) : d.item? here = some .directory := by
  cases names with
  | nil =>
    have hhere : here = place := by simpa [follow] using h
    rwa [hhere]
  | cons name rest =>
    simp only [follow] at h
    split at h
    · simp at h
    · simp at h
    · assumption

theorem makeEach_append (h : d.follow here names = .ok place)
    (hplace : d.item? place = some .directory) (way : List String) :
    makeEach way here (names ++ rest) d = makeEach (way ++ names) place rest d := by
  induction names generalizing here way with
  | nil =>
    have hhere : here = place := by simpa [follow] using h
    simp [hhere]
  | cons name names ih =>
    simp only [follow] at h
    split at h
    · simp at h
    · simp at h
    · split at h
      · simp at h
      · rename_i next hnext
        have hdirectory : d.item? next = some .directory := directory_of_follow h hplace
        simp only [List.cons_append, makeEach, hnext, hdirectory, ih h]
        rw [List.append_assoc, List.singleton_append]

theorem isBase_of_item? (h : d.item? r = none) : isBase r = false := by
  by_contra hbase
  have htrue : isBase r = true := by simpa using hbase
  simp [item?, htrue] at h

theorem item?_makeEach {item : DiskItem} (h : d.item? r = some item) (way here names) :
    (makeEach way here names d).1.item? r = some item := by
  induction names generalizing d way here with
  | nil => exact h
  | cons name names ih =>
    simp only [makeEach]
    split
    · exact h
    · rename_i next hnext
      split
      · exact ih h _ _
      · exact h
      · rename_i hnone
        have hne : r ≠ next := by
          rintro rfl
          simp [hnone] at h
        exact ih ((item?_put_of_ne hne .directory d).trans h) _ _

theorem follow_makeEach {way : List String} (hhere : d.item? here = some .directory)
    (h : makeEach way here names d = (d', .ok ())) :
    ∃ place, d'.follow here names = .ok place ∧ d'.item? place = some .directory := by
  induction names generalizing d way here with
  | nil =>
    obtain rfl : d = d' := congrArg Prod.fst h
    exact ⟨here, rfl, hhere⟩
  | cons name names ih =>
    have hkept : d'.item? here = some .directory := by
      have hsame := item?_makeEach hhere way here (name :: names)
      rwa [h] at hsame
    simp only [makeEach] at h
    simp only [follow, hkept]
    split at h
    · simp [failAt] at h
    · split at h
      · rename_i hnext
        exact ih hnext h
      · simp [failAt] at h
      · rename_i hnone
        exact ih (item?_put_self (isBase_of_item? hnone) .directory _) h

end Disk

end BlueprintPatch
