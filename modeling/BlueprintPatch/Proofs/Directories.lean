import BlueprintPatch.Proofs.Footprint
import BlueprintPatch.Proofs.Listing

/-! Files in a directory that is there, whatever else it holds. A file that is put into it changes
that one place, and what a path in the directory gives depends on its place alone. -/
namespace BlueprintPatch

namespace Disk

variable {p : Path} {d d' : Disk} {f g text : String} {q r : List String} {x : DiskItem}

/-- As on any disk, each item stands once, in a directory, under a name. -/
structure IsTree (d : Disk) : Prop where
  nodup : (d.items.map Prod.fst).Nodup
  directory : ∀ i ∈ d.items, d.item? i.1.dropLast = some .directory
  isName : ∀ i ∈ d.items, ∀ f ∈ i.1.getLast?, IsName f

instance (d : Disk) : Decidable (IsTree d) :=
  decidable_of_iff ((d.items.map Prod.fst).Nodup ∧
      (∀ i ∈ d.items, d.item? i.1.dropLast = some .directory) ∧
      ∀ i ∈ d.items, ∀ f ∈ i.1.getLast?, IsName f)
    ⟨fun h => ⟨h.1, h.2.1, h.2.2⟩, fun h => ⟨h.1, h.2, h.3⟩⟩

theorem IsTree.nodup_namesIn (h : IsTree d) (q : List String) : (namesIn q d).Nodup := by
  have hnames : namesIn q d = (d.items.map Prod.fst).filterMap (nameIn? q) := by
    rw [List.filterMap_map]
    rfl
  rw [hnames]
  refine h.nodup.filterMap fun r s f hr hs => ?_
  rw [nameIn?_eq_some_iff.mp hr, nameIn?_eq_some_iff.mp hs]

theorem IsTree.namesIn_eq_nil (h : IsTree d) (hq : d.item? q ≠ some .directory) :
    namesIn q d = [] := by
  rw [List.eq_nil_iff_forall_not_mem]
  intro f hf
  obtain ⟨x, hx⟩ := lookup_isSome_iff.mp (mem_namesIn_iff.mp hf)
  have hdirectory := h.directory _ hx
  rw [List.dropLast_concat] at hdirectory
  exact hq hdirectory

theorem item?_eq_none_of_not_mem (hf : IsName f) (h : f ∉ namesIn q d) :
    d.item? (q ++ [f]) = none := by
  rw [mem_namesIn_iff, Option.not_isSome_iff_eq_none] at h
  simp [item?, isBase_append hf, h]

theorem mem_namesIn_iff_isSome (hf : IsName f) :
    f ∈ namesIn q d ↔ (d.item? (q ++ [f])).isSome = true := by
  rw [mem_namesIn_iff, item?, isBase_append hf]
  simp

/-- A directory stands at the path. -/
structure Stands (p : Path) (d : Disk) : Prop where
  locate : d.locate p = .ok (home p)
  directory : d.item? (home p) = some .directory

theorem Stands.open (h : Stands p d) : Open p d :=
  ⟨(locate_eq_ok.mp h.locate).2.2, h.directory⟩

theorem home_eq_of_locate (h : d.locate p = .ok q) : home p = q := by
  rw [home, List.getLastD_eq_getLast?, getLast?_way (locate_eq_ok.mp h).2.2, Option.getD_some]

theorem stands_of_locate (h : d.locate p = .ok q) (hq : d.item? q = some .directory) :
    Stands p d := by
  have hhome := home_eq_of_locate h
  exact ⟨hhome ▸ h, hhome ▸ hq⟩

theorem hasDirectory_eq_true_iff : d.hasDirectory p = .ok true ↔ Stands p d := by
  constructor
  · intro h
    simp only [hasDirectory, lookup] at h
    split at h
    · rename_i place hplace
      exact stands_of_locate hplace (by simpa [Except.map] using h)
    · simp [Except.map] at h
    · simp [Except.map] at h
  · intro h
    simp [hasDirectory, lookup, h.locate, h.directory, Except.map]

theorem list_eq_ok_iff {names : List String} :
    d.list p = .ok names ↔ Stands p d ∧ names = namesIn (home p) d := by
  constructor
  · intro h
    cases hlocate : d.locate p with
    | error e => simp [list, hlocate, bind, Except.bind] at h
    | ok place =>
      simp only [list, hlocate, bind, Except.bind, failAt] at h
      split at h
      · simp at h
      · simp at h
      · rename_i hdirectory
        have hstands := stands_of_locate hlocate hdirectory
        obtain rfl := Except.ok.inj (hlocate.symm.trans hstands.locate)
        exact ⟨hstands, (Except.ok.inj h).symm⟩
  · rintro ⟨h, rfl⟩
    simp only [list, h.locate, bind, Except.bind, h.directory]
    rfl

/-- A directory stays as long as all directories do. -/
theorem Stands.of_directories (h : Stands p d)
    (hd : ∀ {r}, d.item? r = some .directory → d'.item? r = some .directory) : Stands p d' :=
  ⟨locate_of_directories hd h.locate, hd h.directory⟩

theorem locate_in_eq_ok_iff (h : Open p d) (hf : IsName f) :
    d.locate (p.join f) = .ok r ↔ Room p f ∧ r = home p ++ [f] := by
  rw [locate_eq_ok, follow_join h hf, enter_name hf]
  constructor
  · rintro ⟨hnull, hpath, hname⟩
    split at hname
    · simp at hname
    · rename_i hshort
      exact ⟨⟨hnull, hpath, hshort⟩, (Except.ok.inj hname).symm⟩
  · rintro ⟨hroom, rfl⟩
    exact ⟨hroom.null, hroom.path, by rw [if_neg hroom.name]⟩

theorem locate_in_congr (h : Open p d) (h' : Open p d') (hf : IsName f) :
    d'.locate (p.join f) = d.locate (p.join f) := by
  rw [locate, locate, follow_join h hf, follow_join h' hf]

theorem lookup_in_congr (h : Open p d) (h' : Open p d') (hf : IsName f)
    (hitem : d'.item? (home p ++ [f]) = d.item? (home p ++ [f])) :
    d'.lookup (p.join f) = d.lookup (p.join f) := by
  rw [lookup, lookup, locate_in_congr h h' hf]
  split
  · rename_i hlocate
    rw [((locate_in_eq_ok_iff h hf).mp hlocate).2, hitem]
  · rfl
  · rfl

theorem lookup_in_of_room (h : Open p d) (hf : IsName f) (hroom : Room p f) :
    d.lookup (p.join f) = .ok (d.item? (home p ++ [f])) := by
  have hlocate := (locate_in_eq_ok_iff h hf).mpr ⟨hroom, rfl⟩
  simp only [lookup, hlocate]

theorem readContent_in (h : Open p d) (hf : IsName f) (hroom : Room p f) {c : Content}
    (hitem : d.item? (home p ++ [f]) = some (.file c)) : d.readContent (p.join f) = .ok c :=
  readContent_eq_ok_iff.mpr ⟨_, (locate_in_eq_ok_iff h hf).mpr ⟨hroom, rfl⟩,
    file?_eq_some_iff.mpr hitem⟩

theorem has_eq_true_iff (h : Open p d) (hf : IsName f) :
    d.has (p.join f) = .ok true ↔ Room p f ∧ f ∈ namesIn (home p) d := by
  rw [mem_namesIn_iff_isSome hf]
  constructor
  · intro hhas
    simp only [has, lookup] at hhas
    split at hhas
    · rename_i hlocate
      obtain ⟨hroom, rfl⟩ := (locate_in_eq_ok_iff h hf).mp hlocate
      exact ⟨hroom, by simpa [Except.map] using hhas⟩
    · simp [Except.map] at hhas
    · simp [Except.map] at hhas
  · rintro ⟨hroom, hitem⟩
    simp [has, lookup_in_of_room h hf hroom, Except.map, hitem]

theorem readContent_congr (h : d'.lookup p = d.lookup p) (hhas : d.has p = .ok true) :
    d'.readContent p = d.readContent p := by
  have hthere : ∀ {d : Disk}, d.has p = .ok true → ∃ r x, d.locate p = .ok r ∧ d.item? r = some x ∧
      d.lookup p = .ok (some x) := by
    intro d hhas
    simp only [has, lookup] at hhas
    split at hhas
    · rename_i r hlocate
      obtain ⟨x, hx⟩ := Option.isSome_iff_exists.mp (Except.ok.inj hhas)
      exact ⟨r, x, hlocate, hx, by simp only [lookup, hlocate, hx]⟩
    · simp [Except.map] at hhas
    · simp [Except.map] at hhas
  obtain ⟨r, x, hr, hx, hlookup⟩ := hthere hhas
  obtain ⟨r', x', hr', hx', hlookup'⟩ := hthere (d := d') (by rw [has, h, ← has, hhas])
  have hsame : x' = x := by simpa [hlookup, hlookup'] using h
  simp only [readContent, hr, hr', bind, Except.bind, hx, hx', hsame]

/-- The disk with files put into the directory `q`, one after the other. -/
def putFiles (q : List String) (files : List (String × String)) (d : Disk) : Disk :=
  files.foldl (fun d x => d.put (q ++ [x.1]) (.file (.text x.2))) d

theorem putFiles_cons (q : List String) (file : String × String) (files : List (String × String))
    (d : Disk) :
    putFiles q (file :: files) d =
      putFiles q files (d.put (q ++ [file.1]) (.file (.text file.2))) := rfl

theorem item?_putFiles_of_ne {files : List (String × String)}
    (h : ∀ f ∈ files.map Prod.fst, r ≠ q ++ [f]) (d : Disk) :
    (putFiles q files d).item? r = d.item? r := by
  induction files generalizing d with
  | nil => rfl
  | cons file files ih =>
    obtain ⟨hne, hrest⟩ := List.forall_mem_cons.mp h
    rw [putFiles_cons, ih hrest, item?_put_of_ne hne]

theorem item?_putFiles_of_not_mem {files : List (String × String)}
    (h : g ∉ files.map Prod.fst) (d : Disk) :
    (putFiles q files d).item? (q ++ [g]) = d.item? (q ++ [g]) := by
  refine item?_putFiles_of_ne (fun f hf hsame => h ?_) d
  rw [List.append_cancel_left_eq, List.singleton_inj] at hsame
  rwa [hsame]

theorem item?_putFiles_of_mem {files : List (String × String)}
    (hnames : ∀ file ∈ files, IsName file.1) (hnodup : (files.map Prod.fst).Nodup)
    (hmem : (f, text) ∈ files) (d : Disk) :
    (putFiles q files d).item? (q ++ [f]) = some (.file (.text text)) := by
  induction files generalizing d with
  | nil => cases hmem
  | cons file files ih =>
    obtain ⟨hname, hrest⟩ := List.forall_mem_cons.mp hnames
    rw [List.map_cons, List.nodup_cons] at hnodup
    rw [putFiles_cons]
    rcases List.mem_cons.mp hmem with rfl | hmem
    · rw [item?_putFiles_of_not_mem hnodup.1, item?_put_self (isBase_append hname q)]
    · exact ih hrest hnodup.2 hmem _

theorem directory_putFiles {files : List (String × String)}
    (hfree : ∀ file ∈ files, d.item? (q ++ [file.1]) ≠ some .directory)
    (hr : d.item? r = some .directory) : (putFiles q files d).item? r = some .directory := by
  rw [item?_putFiles_of_ne _ d, hr]
  rintro f hf rfl
  obtain ⟨file, hmem, rfl⟩ := List.mem_map.mp hf
  exact hfree file hmem hr

theorem Stands.putFiles {files : List (String × String)} (h : Stands p d)
    (hfree : ∀ file ∈ files, d.item? (home p ++ [file.1]) ≠ some .directory) :
    Stands p (putFiles (home p) files d) :=
  h.of_directories (directory_putFiles hfree)

end Disk

end BlueprintPatch
