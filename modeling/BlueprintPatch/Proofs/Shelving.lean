import BlueprintPatch.Proofs.Directories
import BlueprintPatch.Proofs.Keeping

/-! What a run of saves leaves in the directory of a key. Every save that is tried adds a file for a
new version, though the text in it ends early if it cannot be written in full; so the numbers of the
versions are those of the saves that were tried since the last deletion. -/
namespace BlueprintPatch.Store

open Disk

variable {base : Path} {k : String} {d d' : Disk}

/-- The disk with files put into the directory of the key, one after the other. -/
def fileAll (base : Path) (k : String) (files : List (String × String)) (d : Disk) : Disk :=
  files.foldl (fun d x => d.put (home base ++ [k, x.1]) (.file (.text x.2))) d

theorem fileAll_cons (x : String × String) (files : List (String × String)) (d : Disk) :
    fileAll base k (x :: files) d =
      fileAll base k files (d.put (home base ++ [k, x.1]) (.file (.text x.2))) := rfl

theorem place_eq (base : Path) (k f : String) : home base ++ [k, f] = home base ++ [k] ++ [f] := by
  simp

theorem item?_put_file {f g text : String} (hf : IsName f) (d : Disk) :
    (d.put (home base ++ [k, f]) (.file (.text text))).item? (home base ++ [k, g]) =
      if g = f then some (.file (.text text)) else d.item? (home base ++ [k, g]) := by
  by_cases hg : g = f
  · rw [if_pos hg, hg, item?_put_self (isBase_file hf)]
  · have hne : home base ++ [k, g] ≠ home base ++ [k, f] := by simpa using hg
    rw [if_neg hg, item?_put_of_ne hne]

theorem fileAll_eq (files : List (String × String)) (d : Disk) :
    fileAll base k files d = putFiles (home base ++ [k]) files d := by
  simp [fileAll, putFiles]

section
variable {files : List (String × String)}

theorem item?_fileAll_of_not_mem {g : String} (hg : g ∉ files.map Prod.fst) (d : Disk) :
    (fileAll base k files d).item? (home base ++ [k, g]) = d.item? (home base ++ [k, g]) := by
  rw [fileAll_eq, place_eq]
  exact item?_putFiles_of_not_mem hg d

theorem item?_fileAll_of_mem (hnames : ∀ x ∈ files, IsName x.1)
    (hnodup : (files.map Prod.fst).Nodup) {x : String × String} (hx : x ∈ files) (d : Disk) :
    (fileAll base k files d).item? (home base ++ [k, x.1]) = some (.file (.text x.2)) := by
  rw [fileAll_eq, place_eq]
  exact item?_putFiles_of_mem hnames hnodup hx d

theorem not_directory_fileAll (hnames : ∀ x ∈ files, IsName x.1) {g : String}
    (h : d.item? (home base ++ [k, g]) ≠ some .directory) :
    (fileAll base k files d).item? (home base ++ [k, g]) ≠ some .directory := by
  induction files generalizing d with
  | nil => exact h
  | cons x files ih =>
    obtain ⟨hx, hnames⟩ := List.forall_mem_cons.mp hnames
    refine ih hnames ?_
    rw [item?_put_file hx]
    split
    · simp
    · exact h

end

theorem item?_key_fileAll (files : List (String × String)) (d : Disk) :
    (fileAll base k files d).item? (home base ++ [k]) = d.item? (home base ++ [k]) := by
  rw [fileAll_eq]
  exact item?_putFiles_of_ne (fun _ _ => by simp) d

theorem mem_namesIn_fileAll {files : List (String × String)} {g : String} :
    g ∈ namesIn (home base ++ [k]) (fileAll base k files d) ↔
      g ∈ files.map Prod.fst ∨ g ∈ namesIn (home base ++ [k]) d := by
  induction files generalizing d with
  | nil => simp [fileAll]
  | cons x files ih =>
    rw [fileAll_cons, ih, place_eq, mem_namesIn_put, List.map_cons,
      List.mem_cons, or_left_comm, or_assoc]

theorem nodup_namesIn_fileAll (files : List (String × String))
    (h : (namesIn (home base ++ [k]) d).Nodup) :
    (namesIn (home base ++ [k]) (fileAll base k files d)).Nodup := by
  induction files generalizing d with
  | nil => exact h
  | cons x files ih =>
    rw [fileAll_cons, place_eq]
    exact ih (nodup_namesIn_put h _)

/-- The files that are written, with their texts: up to the first value with a number that has too
many digits. -/
def written : List (String × Json) → List (String × String)
  | [] => []
  | (f, v) :: rest =>
    (f, v.writeFront .spread) :: if v.isWritable .spread then written rest else []

theorem written_subset (files : List (String × Json)) :
    (written files).map Prod.fst ⊆ files.map Prod.fst := by
  induction files with
  | nil => simp [written]
  | cons x files ih =>
    obtain ⟨f, v⟩ := x
    simp only [written]
    split
    · simpa using List.subset_cons_of_subset f ih
    · simp

theorem writeAll_eq {files : List (String × Json)} (hk : Apart base k) (hp : Open base d)
    (hdirectory : d.item? (home base ++ [k]) = some .directory)
    (hfiles : ∀ x ∈ files, IsName x.1 ∧ Fits base k x.1 ∧
      d.item? (home base ++ [k, x.1]) ≠ some .directory) :
    writeAll (files.map fun x => ((base.join k).join x.1, x.2)) d =
      (fileAll base k (written files) d,
        if files.all fun x => x.2.isWritable .spread then .ok () else .error .oversizedInteger) := by
  induction files generalizing d with
  | nil => rfl
  | cons x files ih =>
    obtain ⟨f, v⟩ := x
    obtain ⟨⟨hf, hfits, hplace⟩, hrest⟩ := List.forall_mem_cons.mp hfiles
    have hwrite := write_eq hp hk.isName hf hfits hdirectory hplace (v.writeFront .spread)
    simp only [List.map_cons, writeAll, writeJson, hwrite]
    by_cases hv : v.isWritable .spread = true
    · -- the directory is still open after the first file, so the others are written in the same way
      have hbelow : home base ++ [k] <+: home base ++ [k, f] :=
        (List.prefix_append_right_inj (home base)).mpr (by simp)
      have hmore := ih (d := d.put (home base ++ [k, f]) (.file (.text (v.writeFront .spread))))
        (hp.of_within hk (within_put hbelow _ d))
        ((item?_put_of_ne (ne_of_below (home base)) _ d).trans hdirectory)
        fun x hx => ⟨(hrest x hx).1, (hrest x hx).2.1, by
          rw [item?_put_file hf]
          split
          · simp
          · exact (hrest x hx).2.2⟩
      simp only [hv, if_true, hmore, written, List.all_cons, Bool.true_and]
      rfl
    · simp [hv, written, fileAll]

end BlueprintPatch.Store
