import BlueprintPatch.Proofs.Placing

/-! Files two names below a directory that is there. A path that leads through the directory keeps
leading there as long as changes are made below one of its names that the path does not pass. -/
namespace BlueprintPatch

/-- The text is one name in a path, and leads down. -/
structure IsName (s : String) : Prop where
  ne_empty : s ≠ ""
  ne_here : s ≠ "."
  ne_above : s ≠ ".."
  slash : '/' ∉ s.toList

instance (s : String) : Decidable (IsName s) :=
  decidable_of_iff (s ≠ "" ∧ s ≠ "." ∧ s ≠ ".." ∧ '/' ∉ s.toList)
    ⟨fun h => ⟨h.1, h.2.1, h.2.2.1, h.2.2.2⟩, fun h => ⟨h.1, h.2, h.3, h.4⟩⟩

namespace Path

theorem pieces_of_not_mem {cs : List Char} (h : '/' ∉ cs) : pieces cs = [cs] := by
  induction cs with
  | nil => rfl
  | cons c cs ih =>
    have hc : c ≠ '/' := fun hc => h (hc ▸ List.mem_cons_self)
    have hcs := ih fun hmem => h (List.mem_cons_of_mem c hmem)
    simp [pieces, hc, hcs]

theorem root_of_not_mem {cs : List Char} (h : '/' ∉ cs) : root cs = [] := by
  cases cs with
  | nil => rfl
  | cons c cs =>
    have hc : c ≠ '/' := fun hc => h (hc ▸ List.mem_cons_self)
    simp [root, hc]

theorem join_eq {s : String} (h : IsName s) (p : Path) : p.join s = ofParts (p.parts ++ [s]) := by
  have hhead : s.toList.head? ≠ some '/' := fun hhead => h.slash (List.mem_of_head? hhead)
  have hsplit : split s = [s] := by
    simp [split, root_of_not_mem h.slash, pieces_of_not_mem h.slash, h.ne_empty]
  simp [join, hhead, ofText, ofParts, hsplit, h.ne_here]

theorem parts_join {s : String} (h : IsName s) (p : Path) : (p.join s).parts = p.parts ++ [s] := by
  rw [join_eq h, ofParts]

theorem intercalate_concat (sep : String) {names : List String} (h : names ≠ []) (s : String) :
    sep.intercalate (names ++ [s]) = sep.intercalate names ++ sep ++ s := by
  rw [String.intercalate_append_of_ne_nil h (by simp), String.intercalate_singleton]

theorem shown_join {k f : String} (hk : IsName k) (hf : IsName f) (p : Path) :
    ((p.join k).join f).shown = (p.join k).shown ++ "/" ++ f := by
  have hrender : ∀ names, render (names ++ [k] ++ [f]) = render (names ++ [k]) ++ "/" ++ f := by
    intro names
    cases names with
    | nil =>
      have hroot : k ∉ roots := by
        intro hmem
        have hslash : ∀ t ∈ roots, '/' ∈ t.toList := by decide
        exact hk.slash (hslash k hmem)
      simp only [List.nil_append, List.singleton_append, render, if_neg hroot]
      exact intercalate_concat "/" (List.cons_ne_nil k []) f
    | cons first rest =>
      simp only [List.cons_append, render]
      by_cases hroot : first ∈ roots
      · rw [if_pos hroot, if_pos hroot, intercalate_concat "/" (by simp)]
        simp only [String.append_assoc]
      · rw [if_neg hroot, if_neg hroot]
        exact intercalate_concat "/" (List.cons_ne_nil first (rest ++ [k])) f
  rw [join_eq hf, parts_join hk, join_eq hk]
  exact hrender p.parts

end Path

namespace Disk

theorem enter_name {s : String} (h : IsName s) (here : List String) :
    enter here s = if maxNameBytes < s.utf8ByteSize then .error .nameTooLong
      else .ok (here ++ [s]) := by
  simp [enter, h.ne_here, h.ne_above]

theorem isBase_append {s : String} (h : IsName s) (here : List String) :
    isBase (here ++ [s]) = false := by
  have hroot : ∀ t ∈ Path.roots, here ++ [s] ≠ [t] := by
    intro t ht heq
    have hs : s = t := by
      have hlast := congrArg List.getLast? heq
      simpa using hlast
    have hslash : ∀ t ∈ Path.roots, '/' ∈ t.toList := by decide
    exact h.slash (hs ▸ hslash t ht)
  simpa [isBase, h.ne_above, Path.roots] using hroot

variable {p : Path} {d d' d'' : Disk} {k f g : String} {q r : List String} {c : Content}

/-- Where the names of a path lead if nothing on the way is missing. -/
def home (p : Path) : List String := (way [] p.parts).getLastD []

/-- The path leads to a directory that is there. -/
structure Open (p : Path) (d : Disk) : Prop where
  follow : d.follow [] p.parts = .ok (home p)
  directory : d.item? (home p) = some .directory

/-- The text is a name in the directory of the path, below which the path itself does not lead. -/
structure Apart (p : Path) (k : String) : Prop where
  isName : IsName k
  way : ∀ here ∈ way [] p.parts, ¬ home p ++ [k] <+: here

instance (p : Path) (k : String) : Decidable (Apart p k) :=
  decidable_of_iff (IsName k ∧ ∀ here ∈ way [] p.parts, ¬ home p ++ [k] <+: here)
    ⟨fun h => ⟨h.1, h.2⟩, fun h => ⟨h.1, h.2⟩⟩

theorem mem_way (here names : List String) : here ∈ way here names := by
  cases names <;> simp [way]

theorem below_of_enter {here place : List String} (hname : f ≠ "..")
    (h : enter here f = .ok place) : here <+: place := by
  simp only [enter, hname, false_and, if_false] at h
  split at h
  · simp at h
  · split at h
    · obtain rfl := Except.ok.inj h
      exact List.prefix_refl here
    · obtain rfl := Except.ok.inj h
      exact List.prefix_append here [f]

theorem way_below {here names : List String} (h : ".." ∉ names) :
    ∀ r ∈ way here names, r <+: (way here names).getLastD [] := by
  induction names generalizing here with
  | nil => simp [way]
  | cons name rest ih =>
    rw [List.mem_cons, not_or] at h
    intro r hr
    simp only [way] at hr ⊢
    split at hr
    · obtain rfl := List.mem_singleton.mp hr
      simp
    · rename_i place hplace
      have hne : way place rest ≠ [] := List.ne_nil_of_mem (mem_way place rest)
      have hlast : (here :: way place rest).getLastD [] = (way place rest).getLastD [] := by
        simp [List.getLastD_eq_getLast?, List.getLast?_cons, List.getLast?_eq_some_getLast hne]
      rw [hlast]
      rcases List.mem_cons.mp hr with rfl | hr
      · exact (below_of_enter (Ne.symm h.1) hplace).trans (ih h.2 _ (mem_way place rest))
      · exact ih h.2 r hr

theorem apart_of_not_mem (hp : ".." ∉ p.parts) (hk : IsName k) : Apart p k where
  isName := hk
  way here hhere hbelow := by
    have hlength := (hbelow.trans (way_below hp here hhere)).length_le
    rw [List.length_append, home, List.length_singleton] at hlength
    omega

theorem open_of_follow {place : List String} (h : d.follow [] p.parts = .ok place)
    (hplace : d.item? place = some .directory) : Open p d := by
  have hhome : home p = place := by
    rw [home, List.getLastD_eq_getLast?, getLast?_way h, Option.getD_some]
  exact ⟨hhome ▸ h, hhome ▸ hplace⟩

theorem open_of_makeAll (h : d.makeAll p = (d', .ok ())) : Open p d' := by
  have hmake : makeEach [] [] p.parts d = (d', .ok ()) := by
    simp only [makeAll] at h
    split at h
    · split at h
      · simp at h
      · exact h
    · split at h
      · simp at h
      · exact h
    · simp at h
  obtain ⟨place, hfollow, hplace⟩ := follow_makeEach (by rfl) hmake
  exact open_of_follow hfollow hplace

theorem Open.of_within (h : Open p d) (hk : Apart p k) (hd : Within (home p ++ [k]) d d') :
    Open p d' := by
  have hway : ∀ r ∈ way [] p.parts, d'.item? r = d.item? r :=
    fun r hr => hd.item?_eq (hk.way r hr)
  have hmem : home p ∈ way [] p.parts := List.mem_of_getLast? (getLast?_way h.follow)
  exact ⟨(follow_congr hway).trans h.follow, (hway _ hmem).trans h.directory⟩

theorem makeEach_name (here : List String) (hk : IsName k) (way : List String) (d : Disk) :
    Within (here ++ [k]) d (makeEach way here [k] d).1 ∧
      (d.item? (here ++ [k]) = some .directory → (makeEach way here [k] d).1 = d) := by
  simp only [makeEach, enter_name hk]
  by_cases hlong : maxNameBytes < k.utf8ByteSize
  · simp [hlong, Within.refl]
  · rw [if_neg hlong]
    cases hitem : d.item? (here ++ [k]) with
    | none => simpa [hitem] using within_put (List.prefix_refl (here ++ [k])) .directory d
    | some item => cases item <;> simp [hitem, Within.refl]

theorem makeAll_cases (p : Path) (d : Disk) :
    (d.makeAll p).1 = d ∨ (d.makeAll p).1 = (makeEach [] [] p.parts d).1 := by
  simp only [makeAll]
  repeat' split
  all_goals simp

theorem makeAll_join (h : Open p d) (hk : IsName k) :
    Within (home p ++ [k]) d (d.makeAll (p.join k)).1 ∧
      (d.item? (home p ++ [k]) = some .directory → (d.makeAll (p.join k)).1 = d) := by
  have hname := makeEach_name (home p) hk p.parts d
  rcases makeAll_cases (p.join k) d with hsame | heach
  · simp [hsame, Within.refl]
  · rw [Path.parts_join hk, makeEach_append h.follow h.directory] at heach
    rwa [heach]

/-- There is room for the name `f` in the directory. -/
structure Room (p : Path) (f : String) : Prop where
  null : '\x00' ∉ (p.join f).shown.toList
  path : ¬ maxPathBytes < (p.join f).shown.utf8ByteSize
  name : ¬ maxNameBytes < f.utf8ByteSize

instance (p : Path) (f : String) : Decidable (Room p f) :=
  decidable_of_iff ('\x00' ∉ (p.join f).shown.toList ∧
      ¬ maxPathBytes < (p.join f).shown.utf8ByteSize ∧ ¬ maxNameBytes < f.utf8ByteSize)
    ⟨fun h => ⟨h.1, h.2.1, h.2.2⟩, fun h => ⟨h.1, h.2, h.3⟩⟩

/-- There is room for the directory `k`, and in it for the file `f`. -/
structure Fits (p : Path) (k f : String) : Prop extends Room (p.join k) f where
  directory : ¬ maxNameBytes < k.utf8ByteSize

instance (p : Path) (k f : String) : Decidable (Fits p k f) :=
  decidable_of_iff (Room (p.join k) f ∧ ¬ maxNameBytes < k.utf8ByteSize)
    ⟨fun h => ⟨h.1, h.2⟩, fun h => ⟨h.toRoom, h.directory⟩⟩

theorem follow_join (h : Open p d) (hk : IsName k) :
    d.follow [] (p.join k).parts = enter (home p) k := by
  rw [Path.parts_join hk, follow_append, h.follow]
  simp only [Except.bind, follow, h.directory]
  cases enter (home p) k <;> rfl

theorem locate_eq_ok : d.locate p = .ok r ↔
    '\x00' ∉ p.shown.toList ∧ ¬ maxPathBytes < p.shown.utf8ByteSize ∧
      d.follow [] p.parts = .ok r := by
  simp only [locate, failAt]
  repeat' split
  all_goals simp_all

theorem locate_join (h : Open p d) (hk : IsName k) (hr : d.locate (p.join k) = .ok r) :
    r = home p ++ [k] := by
  have hfollow := (locate_eq_ok.mp hr).2.2
  rw [follow_join h hk, enter_name hk] at hfollow
  split at hfollow
  · simp at hfollow
  · exact (Except.ok.inj hfollow).symm

theorem follow_file (h : Open p d) (hk : IsName k) (hf : IsName f) :
    d.follow [] ((p.join k).join f).parts = .ok r ↔
      ¬ maxNameBytes < k.utf8ByteSize ∧ ¬ maxNameBytes < f.utf8ByteSize ∧
        d.item? (home p ++ [k]) = some .directory ∧ r = home p ++ [k, f] := by
  rw [Path.parts_join hf, follow_append, follow_join h hk, enter_name hk]
  by_cases hlong : maxNameBytes < k.utf8ByteSize
  · simp [hlong, Except.bind]
  · rw [if_neg hlong]
    cases hitem : d.item? (home p ++ [k]) with
    | none => simp [Except.bind, follow, hitem]
    | some item =>
      cases item with
      | file => simp [Except.bind, follow, hitem]
      | directory =>
        by_cases hf' : maxNameBytes < f.utf8ByteSize
        · simp [Except.bind, follow, hitem, enter_name hf, hf']
        · simp [Except.bind, follow, hitem, enter_name hf, hf', hlong, eq_comm]

theorem locate_file (h : Open p d) (hk : IsName k) (hf : IsName f) :
    d.locate ((p.join k).join f) = .ok r ↔
      Fits p k f ∧ d.item? (home p ++ [k]) = some .directory ∧ r = home p ++ [k, f] := by
  rw [locate_eq_ok, follow_file h hk hf]
  constructor
  · rintro ⟨hnull, hpath, hdirectory, hfile, hitem, hr⟩
    exact ⟨⟨⟨hnull, hpath, hfile⟩, hdirectory⟩, hitem, hr⟩
  · rintro ⟨hfits, hitem, hr⟩
    exact ⟨hfits.null, hfits.path, hfits.directory, hfits.name, hitem, hr⟩

theorem Fits.null_directory (h : Fits p k f) (hk : IsName k) (hf : IsName f) :
    '\x00' ∉ (p.join k).shown.toList := by
  have hnull := h.null
  rw [Path.shown_join hk hf, String.toList_append, String.toList_append, List.append_assoc,
    List.mem_append, not_or] at hnull
  exact hnull.1

theorem Fits.locate (h : Fits p k f) (hp : Open p d) (hk : IsName k) (hf : IsName f) :
    d.locate (p.join k) = .ok (home p ++ [k]) := by
  have hpath : ¬ maxPathBytes < (p.join k).shown.utf8ByteSize := by
    have hfile := h.path
    rw [Path.shown_join hk hf, String.utf8ByteSize_append, String.utf8ByteSize_append] at hfile
    omega
  have hfollow : d.follow [] (p.join k).parts = .ok (home p ++ [k]) := by
    rw [follow_join hp hk, enter_name hk, if_neg h.directory]
  exact locate_eq_ok.mpr ⟨h.null_directory hk hf, hpath, hfollow⟩

/-- The file `f` in the directory `k` holds the content. -/
structure Holds (p : Path) (k f : String) (c : Content) (d : Disk) : Prop where
  fits : Fits p k f
  directory : d.item? (home p ++ [k]) = some .directory
  file : d.item? (home p ++ [k, f]) = some (.file c)

theorem Holds.readContent (h : Holds p k f c d) (hp : Open p d) (hk : IsName k) (hf : IsName f) :
    d.readContent ((p.join k).join f) = .ok c := by
  have hlocate := (locate_file hp hk hf).mpr ⟨h.fits, h.directory, rfl⟩
  simp [Disk.readContent, hlocate, h.file, bind, Except.bind]

theorem Holds.has (h : Holds p k f c d) (hp : Open p d) (hk : IsName k) (hf : IsName f) :
    d.has ((p.join k).join f) = .ok true := by
  have hlocate := (locate_file hp hk hf).mpr ⟨h.fits, h.directory, rfl⟩
  simp [Disk.has, lookup, hlocate, h.file, Except.map]

theorem Holds.of_within (h : Holds p k f c d) (hd : Within q d d')
    (hq : ¬ q <+: home p ++ [k, f]) : Holds p k f c d' where
  fits := h.fits
  directory := by
    have habove : ¬ q <+: home p ++ [k] := fun hbelow =>
      hq (hbelow.trans (List.prefix_append_right_inj _ |>.mpr (by simp)))
    rw [hd.item?_eq habove, h.directory]
  file := (hd.item?_eq hq).trans h.file

theorem isBase_file (hf : IsName f) : isBase (home p ++ [k, f]) = false := by
  have hplace : home p ++ [k, f] = (home p ++ [k]) ++ [f] := by simp
  rw [hplace]
  exact isBase_append hf (home p ++ [k])

theorem ne_of_below (place : List String) : place ++ [k] ≠ place ++ [k, f] := by simp

theorem Holds.hasDirectory (h : Holds p k f c d) (hp : Open p d) (hk : IsName k) (hf : IsName f)
    {b : Bool} (hb : d.hasDirectory (p.join k) = .ok b) : b = true := by
  simp only [Disk.hasDirectory, lookup, h.fits.locate hp hk hf] at hb
  simpa [Except.map, h.directory, eq_comm] using hb

theorem holds_of_write {text : String} (hp : Open p d) (hk : IsName k) (hf : IsName f)
    (h : d.write ((p.join k).join f) text = .ok d') :
    Within (home p ++ [k, f]) d d' ∧ Holds p k f (.text text) d' := by
  cases hlocate : d.locate ((p.join k).join f) with
  | error e => simp [write, hlocate, bind, Except.bind] at h
  | ok place =>
    obtain ⟨hfits, hdirectory, rfl⟩ := (locate_file hp hk hf).mp hlocate
    have hput : d' = d.put (home p ++ [k, f]) (.file (.text text)) := by
      simp only [write, hlocate, bind, Except.bind, failAt] at h
      split at h <;> simp_all
    subst hput
    refine ⟨within_put (List.prefix_refl _) _ d, hfits, ?_, ?_⟩
    · rw [item?_put_of_ne (ne_of_below (home p)), hdirectory]
    · exact item?_put_self (isBase_file hf) _ d

theorem mem_of_item? {item : DiskItem} (hr : isBase r = false) (h : d.item? r = some item) :
    (r, item) ∈ d.items := by
  simp only [item?, hr, Bool.false_eq_true, if_false] at h
  obtain ⟨front, back, hitems, -⟩ := List.lookup_eq_some_iff.mp h
  rw [hitems]
  simp

theorem Holds.mem_list (h : Holds p k f c d) (hp : Open p d) (hk : IsName k) (hf : IsName f)
    {names : List String} (hnames : d.list (p.join k) = .ok names) : f ∈ names := by
  cases hlocate : d.locate (p.join k) with
  | error e => simp [list, hlocate, bind, Except.bind] at hnames
  | ok place =>
    obtain rfl := locate_join hp hk hlocate
    have hmem := mem_of_item? (isBase_file hf) h.file
    simp only [list, hlocate, bind, Except.bind, h.directory, Except.ok.injEq] at hnames
    rw [← hnames, List.mem_filterMap]
    have hlast : home p ++ [k, f] = (home p ++ [k]) ++ [f] := by simp
    refine ⟨_, hmem, ?_⟩
    rw [hlast, List.dropLast_concat, if_pos rfl, List.getLast?_concat]

theorem within_removeAll (hp : Open p d) (hk : IsName k) (h : d.removeAll (p.join k) = .ok d') :
    Within (home p ++ [k]) d d' := by
  cases hlocate : d.locate (p.join k) with
  | error e => simp [removeAll, hlocate, bind, Except.bind] at h
  | ok place =>
    obtain rfl := locate_join hp hk hlocate
    have hremove : d' = ⟨d.items.filter fun i => !(home p ++ [k]).isPrefixOf i.1⟩ := by
      simp only [removeAll, hlocate, bind, Except.bind, failAt] at h
      split at h <;> simp_all
    rw [hremove]
    exact within_remove _ d

end Disk

end BlueprintPatch
