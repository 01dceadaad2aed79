import BlueprintPatch.Proofs.Shelves

/-! What one directory holds. A file that is put there is listed from then on, each name once, and
nothing else changes; a directory that is removed leaves nothing behind. -/
namespace BlueprintPatch.Disk

variable {p : Path} {d d' : Disk} {k f g : String} {q r : List String}

/-- The name that the place has in the directory `q`, if it is in there. -/
def nameIn? (q r : List String) : Option String := if r.dropLast = q then r.getLast? else none

theorem nameIn?_eq_some_iff : nameIn? q r = some f ↔ r = q ++ [f] := by
  unfold nameIn?
  constructor
  · intro h
    split at h
    · next hdirectory => rw [← hdirectory, List.dropLast_append_getLast? f h]
    · cases h
  · rintro rfl
    rw [List.dropLast_concat, if_pos rfl, List.getLast?_concat]

/-- The names in the directory, in the order of the disk. -/
def namesIn (q : List String) (d : Disk) : List String := d.items.filterMap fun i => nameIn? q i.1

theorem lookup_isSome_iff {items : List (List String × DiskItem)} :
    (items.lookup r).isSome = true ↔ ∃ x, (r, x) ∈ items := by
  constructor
  · intro h
    obtain ⟨x, hx⟩ := Option.isSome_iff_exists.mp h
    obtain ⟨front, back, hitems, -⟩ := List.lookup_eq_some_iff.mp hx
    exact ⟨x, by simp [hitems]⟩
  · rintro ⟨x, hx⟩
    by_contra hnone
    have hnone := List.lookup_eq_none_iff.mp (Option.not_isSome_iff_eq_none.mp hnone) _ hx
    simp at hnone

theorem mem_namesIn_iff : f ∈ namesIn q d ↔ (d.items.lookup (q ++ [f])).isSome = true := by
  rw [lookup_isSome_iff, namesIn, List.mem_filterMap]
  constructor
  · rintro ⟨⟨r, x⟩, hmem, hname⟩
    exact ⟨x, nameIn?_eq_some_iff.mp hname ▸ hmem⟩
  · rintro ⟨x, hmem⟩
    exact ⟨_, hmem, nameIn?_eq_some_iff.mpr rfl⟩

theorem namesIn_put (x : DiskItem) (d : Disk) :
    namesIn q (d.put r x) =
      if (d.items.lookup r).isSome then namesIn q d else namesIn q d ++ (nameIn? q r).toList := by
  by_cases hr : (d.items.lookup r).isSome = true
  · rw [if_pos hr, put, if_pos hr, namesIn, List.filterMap_map]
    refine List.filterMap_congr fun i _ => ?_
    by_cases hi : i.1 = r <;> simp [hi]
  · rw [if_neg hr, put, if_neg hr, namesIn, List.filterMap_append]
    cases hname : nameIn? q r <;> simp [namesIn, hname]

theorem mem_namesIn_put (x : DiskItem) (d : Disk) :
    g ∈ namesIn q (d.put (q ++ [f]) x) ↔ g = f ∨ g ∈ namesIn q d := by
  rw [mem_namesIn_iff, mem_namesIn_iff, lookup_put]
  by_cases hg : g = f <;> simp [hg]

theorem nodup_namesIn_put (h : (namesIn q d).Nodup) (x : DiskItem) :
    (namesIn q (d.put (q ++ [f]) x)).Nodup := by
  rw [namesIn_put]
  by_cases hf : (d.items.lookup (q ++ [f])).isSome = true
  · rwa [if_pos hf]
  · rw [if_neg hf, nameIn?_eq_some_iff.mpr rfl]
    refine List.nodup_append.mpr ⟨h, by simp, ?_⟩
    rintro a ha b hb rfl
    obtain rfl := List.mem_singleton.mp hb
    exact hf (mem_namesIn_iff.mp ha)

theorem namesIn_put_self (k : String) (x : DiskItem) (d : Disk) :
    namesIn (q ++ [k]) (d.put (q ++ [k]) x) = namesIn (q ++ [k]) d := by
  have hname : nameIn? (q ++ [k]) (q ++ [k]) = none := by simp [nameIn?]
  rw [namesIn_put, hname]
  simp

theorem namesIn_of_within (h : Within r d d') (hr : ∀ f, ¬ r <+: q ++ [f]) :
    namesIn q d' = namesIn q d := by
  have hkeep : ∀ d : Disk, namesIn q d =
      (d.items.filter fun i => !r.isPrefixOf i.1).filterMap fun i => nameIn? q i.1 := by
    intro d
    rw [List.filterMap_filter]
    refine List.filterMap_congr fun i _ => ?_
    cases hname : nameIn? q i.1 with
    | none => simp
    | some f =>
      have hoff : r.isPrefixOf i.1 = false := by
        rw [nameIn?_eq_some_iff.mp hname, Bool.eq_false_iff]
        exact fun hbelow => hr f (List.isPrefixOf_iff_prefix.mp hbelow)
      simp [hoff]
  rw [hkeep d, hkeep d', h]

theorem namesIn_remove (q : List String) (d : Disk) :
    namesIn q ⟨d.items.filter fun i => !q.isPrefixOf i.1⟩ = [] := by
  rw [namesIn, List.filterMap_eq_nil_iff]
  intro i hi
  cases hname : nameIn? q i.1 with
  | none => rfl
  | some f =>
    have hbelow : q.isPrefixOf i.1 = true := by
      rw [nameIn?_eq_some_iff.mp hname]
      exact List.isPrefixOf_iff_prefix.mpr (List.prefix_append q [f])
    simp [hbelow] at hi

theorem item?_remove (hq : isBase q = false) (d : Disk) :
    (⟨d.items.filter fun i => !q.isPrefixOf i.1⟩ : Disk).item? q = none := by
  simp only [item?, hq, Bool.false_eq_true, if_false]
  rw [List.lookup_eq_none_iff]
  intro i hi
  have hoff : q.isPrefixOf i.1 = false := by simpa using (List.mem_filter.mp hi).2
  have hne : q ≠ i.1 := by
    intro heq
    rw [heq, List.isPrefixOf_iff_prefix.mpr (List.prefix_refl i.1)] at hoff
    cases hoff
  simpa using hne

theorem missing_append {here names place : List String} (h : d.follow here names = .ok place)
    (hplace : d.item? place = some .directory) (rest : List String) :
    d.missing here (names ++ rest) = d.missing place rest := by
  induction names generalizing here with
  | nil =>
    have hhere : here = place := by simpa [follow] using h
    simp [hhere]
  | cons name names ih =>
    simp only [follow] at h
    split at h
    · simp at h
    · simp at h
    · split at h
      · simp at h
      · rename_i next hnext
        have hdirectory : d.item? next = some .directory := directory_of_follow h hplace
        simp [missing, hnext, hdirectory, ih h]

theorem missing_name_le (d : Disk) (here : List String) (k : String) : d.missing here [k] ≤ 1 := by
  simp only [missing]
  split
  · simp
  · split <;> simp

theorem makeAll_eq (hp : Open p d) (hk : IsName k) (hf : IsName f) (hfits : Fits p k f) :
    (d.item? (home p ++ [k]) = some .directory → d.makeAll (p.join k) = (d, .ok ())) ∧
    (d.item? (home p ++ [k]) = none →
      d.makeAll (p.join k) = (d.put (home p ++ [k]) .directory, .ok ())) := by
  have hmissing : ¬ maxMissing < d.missing [] (p.join k).parts := by
    have hle := missing_name_le d (home p) k
    rw [Path.parts_join hk, missing_append hp.follow hp.directory, maxMissing]
    omega
  have hmake : d.makeAll (p.join k) = makeEach p.parts (home p) [k] d := by
    rw [makeAll, hfits.locate hp hk hf]
    simp only [if_neg hmissing]
    rw [Path.parts_join hk, makeEach_append hp.follow hp.directory, List.nil_append]
  rw [hmake]
  constructor
  · intro hdirectory
    simp [makeEach, enter_name hk, hfits.directory, hdirectory]
  · intro hnone
    simp [makeEach, enter_name hk, hfits.directory, hnone]

theorem write_eq (hp : Open p d) (hk : IsName k) (hf : IsName f) (hfits : Fits p k f)
    (hdirectory : d.item? (home p ++ [k]) = some .directory)
    (hfile : d.item? (home p ++ [k, f]) ≠ some .directory) (text : String) :
    d.write ((p.join k).join f) text = .ok (d.put (home p ++ [k, f]) (.file (.text text))) := by
  have hlocate := (locate_file hp hk hf).mpr ⟨hfits, hdirectory, rfl⟩
  simp only [write, hlocate, bind, Except.bind]

theorem has_eq (hp : Open p d) (hk : IsName k) (hf : IsName f) (hfits : Fits p k f)
    (hdirectory : d.item? (home p ++ [k]) = some .directory) :
    d.has ((p.join k).join f) = .ok (d.item? (home p ++ [k, f])).isSome := by
  have hlocate := (locate_file hp hk hf).mpr ⟨hfits, hdirectory, rfl⟩
  simp only [has, lookup, hlocate, Except.map]

theorem has_of_missing (hp : Open p d) (hk : IsName k) (hf : IsName f) (hfits : Fits p k f)
    (hnone : d.item? (home p ++ [k]) = none) : d.has ((p.join k).join f) = .ok false := by
  have hfollow : d.follow [] ((p.join k).join f).parts = .error .notFound := by
    rw [Path.parts_join hf, follow_append, follow_join hp hk, enter_name hk,
      if_neg hfits.directory]
    simp only [Except.bind, follow, hnone]
  have hlocate : d.locate ((p.join k).join f) = failAt ((p.join k).join f) .notFound := by
    rw [locate, if_neg hfits.null, if_neg hfits.path, hfollow]
  simp only [has, lookup, hlocate, failAt, Except.map, Option.isSome_none]

/-- A name that there is no room for is not even looked for. -/
theorem has_of_not_fits (hp : Open p d) (hk : IsName k) (hf : IsName f) (hg : IsName g)
    (hroom : Fits p k g) (hdirectory : d.item? (home p ++ [k]) = some .directory)
    (hnull : '\x00' ∉ f.toList) (hfits : ¬ Fits p k f) :
    ∃ e, d.has ((p.join k).join f) = .error e := by
  have hshown : '\x00' ∉ ((p.join k).join f).shown.toList := by
    have hslash : '\x00' ∉ "/".toList := by decide
    rw [Path.shown_join hk hf, String.toList_append, String.toList_append, List.mem_append,
      List.mem_append, not_or, not_or]
    exact ⟨⟨hroom.null_directory hk hg, hslash⟩, hnull⟩
  have hlocate : d.locate ((p.join k).join f) = failAt ((p.join k).join f) .nameTooLong := by
    rw [locate, if_neg hshown]
    by_cases hpath : maxPathBytes < ((p.join k).join f).shown.utf8ByteSize
    · rw [if_pos hpath]
    · have hname : maxNameBytes < f.utf8ByteSize := by
        by_contra hname
        exact hfits ⟨⟨hshown, hpath, hname⟩, hroom.directory⟩
      have hfollow : d.follow [] ((p.join k).join f).parts = .error .nameTooLong := by
        rw [Path.parts_join hf, follow_append, follow_join hp hk, enter_name hk,
          if_neg hroom.directory]
        simp only [Except.bind, follow, hdirectory, enter_name hf, if_pos hname]
      rw [if_neg hpath, hfollow]
  refine ⟨.refused .nameTooLong (Text.quoted ((p.join k).join f).shown), ?_⟩
  simp only [has, lookup, hlocate, failAt, Except.map]

end BlueprintPatch.Disk
