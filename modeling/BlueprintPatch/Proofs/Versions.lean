import BlueprintPatch.Proofs.Numerals
import BlueprintPatch.Proofs.Shelves
import BlueprintPatch.Store.Store
import Mathlib.Data.List.Sort

/-! The names in the store. The key of a key is the key itself, and the number of a version is read
back from the name of its file, so that a new version gets a number that no file has. -/
namespace BlueprintPatch

namespace Numeral

theorem toNat_of_isDigit {c : Char} (h : c.isDigit = true) : 48 ≤ c.toNat ∧ c.toNat ≤ 57 := by
  simp only [Char.isDigit, Bool.and_eq_true, decide_eq_true_eq] at h
  exact h

theorem decimalDigit?_of_isDigit {c : Char} (h : c.isDigit = true) :
    Text.decimalDigit? c = some (c.toNat - '0'.toNat) := by
  have hrange := toNat_of_isDigit h
  have hlast : c.toNat < 48 + 10 := by omega
  simp [Text.decimalDigit?, Text.digitZeros, hrange, hlast]

theorem isBlank_of_isDigit {c : Char} (h : c.isDigit = true) : Text.isBlank c = false := by
  have hrange := toNat_of_isDigit h
  simp only [Text.isBlank, Bool.or_eq_false_iff, Bool.and_eq_false_iff, decide_eq_false_iff_not,
    beq_eq_false_iff_ne]
  omega

theorem digitRun_digits {ds : List Char} (h : ∀ c ∈ ds, c.isDigit = true) :
    digitRun Text.decimalDigit? ds = (ds.map fun c => c.toNat - '0'.toNat, []) := by
  induction ds with
  | nil => rfl
  | cons c ds ih =>
    have hc := decimalDigit?_of_isDigit (h c List.mem_cons_self)
    have htail := ih fun d hd => h d (List.mem_cons_of_mem c hd)
    have hnext : ∀ rest, ds ≠ '_' :: rest := by
      rintro rest rfl
      exact absurd (h '_' (by simp)) (by decide)
    simp only [digitRun, hc, htail, List.map_cons]

theorem sign_signText (negative : Bool) {ds : List Char} (h : ∀ c ∈ ds, c.isDigit = true) :
    sign (Json.signText negative ++ ds) = (negative, ds) := by
  cases negative with
  | true => rfl
  | false =>
    cases ds with
    | nil => rfl
    | cons c ds =>
      have hminus : c ≠ '-' := by
        rintro rfl
        exact absurd (h '-' List.mem_cons_self) (by decide)
      have hplus : c ≠ '+' := by
        rintro rfl
        exact absurd (h '+' List.mem_cons_self) (by decide)
      simp [Json.signText, sign, hminus, hplus]

theorem trim_eq_self {p : Char → Bool} {cs : List Char} (h : ∀ c ∈ cs, p c = false) :
    Text.trim p cs = cs := by
  have hdrop : ∀ cs : List Char, (∀ c ∈ cs, p c = false) → cs.dropWhile p = cs := by
    intro cs h
    cases cs with
    | nil => rfl
    | cons c cs => simp [h c List.mem_cons_self]
  have hback := hdrop cs.reverse fun c hc => h c (List.mem_reverse.mp hc)
  simp [Text.trim, Text.trimEnd, hdrop cs h, hback]

theorem mem_toString {n : Int} {c : Char} (h : c ∈ (toString n).toList) :
    c = '-' ∨ c.isDigit = true := by
  rw [Json.toList_toString, List.mem_append] at h
  refine h.imp (fun hsign => ?_) Json.isDigit_toDigits
  simp only [Json.signText] at hsign
  split at hsign <;> simp_all

theorem isBlank_toString (n : Int) : ∀ c ∈ (toString n).toList, Text.isBlank c = false := by
  intro c hc
  rcases mem_toString hc with rfl | hdigit
  · decide
  · exact isBlank_of_isDigit hdigit

theorem integer?_toString (n : Int) : integer? Text.decimalDigit? (toString n) = some n := by
  have hdigits : ∀ c ∈ Nat.toDigits 10 n.natAbs, c.isDigit = true :=
    fun c hc => Json.isDigit_toDigits hc
  have hvalue : Text.ofDigits 10 ((Nat.toDigits 10 n.natAbs).map fun c => c.toNat - '0'.toNat) =
      n.natAbs := by
    have hread := Json.natOfDigits_toDigits n.natAbs
    rwa [Json.natOfDigits, List.map_map] at hread
  have hsigned : signed (decide (n < 0)) n.natAbs = n := by
    simp only [signed, decide_eq_true_eq]
    split <;> omega
  have hrun : integerRun? Text.decimalDigit? (toString n).toList = some (n, []) := by
    rw [Json.toList_toString, integerRun?, sign_signText _ hdigits]
    simp only [digitRun_digits hdigits]
    split
    · rename_i hnil
      have hempty : Nat.toDigits 10 n.natAbs = [] := by simpa using congrArg Prod.fst hnil
      exact absurd hempty Nat.toDigits_ne_nil
    · rename_i ds rest _ hrun
      obtain ⟨rfl, rfl⟩ := Prod.mk.inj hrun
      rw [hvalue, hsigned]
  rw [integer?, trim_eq_self (isBlank_toString n), hrun]

end Numeral

namespace Store

theorem squeeze_of_isKeyChar {cs : List Char} (h : ∀ c ∈ cs, isKeyChar c = true) (inRun : Bool) :
    squeeze inRun cs = cs := by
  induction cs generalizing inRun with
  | nil => rfl
  | cons c cs ih =>
    have htail := ih (fun d hd => h d (List.mem_cons_of_mem c hd)) false
    simp [squeeze, h c List.mem_cons_self, htail]

theorem isKeyChar_key (identifier : String) :
    ∀ c ∈ (key identifier).toList, isKeyChar c = true := by
  simp only [key]
  split
  · exact List.all_eq_true.mp (by decide)
  · rw [String.toList_ofList]
    exact isKeyChar_of_mem_squeeze false _

theorem key_ne_empty (identifier : String) : key identifier ≠ "" := by
  simp only [key]
  split
  · decide
  · rename_i hne
    simpa using hne

theorem slash_not_mem_key (identifier : String) : '/' ∉ (key identifier).toList := fun h =>
  absurd (isKeyChar_key identifier '/' h) (by decide)

theorem key_key (identifier : String) : key (key identifier) = key identifier := by
  have hchars := isKeyChar_key identifier
  have hslash : ∀ c ∈ (key identifier).toList, decide (c = '/') = false := by
    intro c hc
    have hne : c ≠ '/' := fun h => slash_not_mem_key identifier (h ▸ hc)
    simpa using hne
  have hne : (key identifier).toList ≠ [] := by simpa using key_ne_empty identifier
  have hkey : ∀ s : String, Text.trim (· = '/') s.toList = s.toList →
      squeeze false s.toList = s.toList → s.toList ≠ [] → key s = s := by
    intro s htrim hsqueeze hs
    simp [key, htrim, hsqueeze, hs]
  exact hkey _ (Numeral.trim_eq_self hslash) (squeeze_of_isKeyChar hchars false) hne

theorem isName_key {identifier : String} (hhere : key identifier ≠ ".")
    (habove : key identifier ≠ "..") : IsName (key identifier) where
  ne_empty := key_ne_empty identifier
  ne_here := hhere
  ne_above := habove
  slash := slash_not_mem_key identifier

/-- If the path of the store only leads down, all keys are apart from it but the two that lead to
the store itself and above it. -/
theorem apart_key {base : Path} {identifier : String} (hbase : ".." ∉ base.parts)
    (hhere : key identifier ≠ ".") (habove : key identifier ≠ "..") :
    Disk.Apart base (key identifier) := Disk.apart_of_not_mem hbase (isName_key hhere habove)

def versionName (n : Int) : String := "v" ++ toString n ++ ".json"

theorem toList_versionName (n : Int) :
    (versionName n).toList = 'v' :: ((toString n).toList ++ ".json".toList) := by
  simp [versionName]

theorem versionOf?_versionName (n : Int) : versionOf? (versionName n) = some n := by
  have hsuffix : ".json".toList.isSuffixOf ((toString n).toList ++ ".json".toList) = true :=
    List.isSuffixOf_iff_suffix.mpr (List.suffix_append _ _)
  have htake : ((toString n).toList ++ ".json".toList).take
      (((toString n).toList ++ ".json".toList).length - 5) = (toString n).toList := by
    simp
  rw [versionOf?, toList_versionName]
  simp only [hsuffix, htake, if_true, String.ofList_toList, Numeral.integer?_toString]

theorem not_mem_versionName {c : Char} (hc : c ∉ ['v', '-', '.', 'j', 's', 'o', 'n'])
    (hdigit : c.isDigit = false) (n : Int) : c ∉ (versionName n).toList := by
  have hfixed : ∀ d ∈ ['v', '-', '.', 'j', 's', 'o', 'n'], c ≠ d := fun d hd heq => hc (heq ▸ hd)
  rw [toList_versionName, List.mem_cons, List.mem_append]
  rintro (hv | hnumber | hend)
  · exact hfixed 'v' (by decide) hv
  · rcases Numeral.mem_toString hnumber with hminus | hdigits
    · exact hfixed '-' (by decide) hminus
    · rw [hdigit] at hdigits
      cases hdigits
  · exact hc (List.mem_cons_of_mem _ (List.mem_cons_of_mem _ hend))

theorem isName_versionName (n : Int) : IsName (versionName n) where
  ne_empty h := by
    have hnil := congrArg String.toList h
    simp [toList_versionName] at hnil
  ne_here h := by
    have hchars := congrArg String.toList h
    simp [toList_versionName] at hchars
  ne_above h := by
    have hchars := congrArg String.toList h
    simp [toList_versionName] at hchars
  slash := not_mem_versionName (by decide) rfl n

theorem versionName_inj {m n : Int} (h : versionName m = versionName n) : m = n := by
  have hversion := congrArg versionOf? h
  simpa only [versionOf?_versionName, Option.some.injEq] using hversion

theorem isName_current : IsName "current.json" := by decide

theorem isName_index : IsName "index.json" := by decide

theorem versionName_ne {s : String} (h : versionOf? s = none) (n : Int) : versionName n ≠ s := by
  rintro rfl
  simp [versionOf?_versionName] at h

theorem lt_nextVersion {versions : List Int} (hsorted : versions.Pairwise (· ≤ ·)) {n : Int}
    (h : n ∈ versions) : n < nextVersion versions := by
  rcases List.eq_nil_or_concat versions with rfl | ⟨earlier, last, rfl⟩
  · simp at h
  · have hle : n ≤ last := by
      rw [List.concat_eq_append, List.mem_append, List.mem_singleton] at h
      rcases h with hmem | rfl
      · rw [List.concat_eq_append, List.pairwise_append] at hsorted
        exact hsorted.2.2 n hmem last (by simp)
      · exact le_refl n
    simp only [nextVersion, List.concat_eq_append, List.getLast?_append, List.getLast?_singleton,
      Option.some_or]
    omega

variable {p : Path} {d : Disk} {k : String} {c : Content} {n : Int} {versions : List Int}

/-- A new version gets a number above those of all versions that are there. -/
theorem lt_nextVersion_of_holds (h : Disk.Holds p k (versionName n) c d) (hp : Disk.Open p d)
    (hk : IsName k) (hkey : key k = k) (hversions : history p k d = .ok versions) :
    n < nextVersion versions := by
  have hf := isName_versionName n
  unfold history at hversions
  simp only [directory, hkey] at hversions
  split at hversions
  · simp at hversions
  · rename_i hdirectory
    have htrue : false = true := h.hasDirectory hp hk hf hdirectory
    simp at htrue
  · split at hversions
    · simp at hversions
    · rename_i names hnames
      have hmem : n ∈ names.filterMap versionOf? :=
        List.mem_filterMap.mpr ⟨_, h.mem_list hp hk hf hnames, versionOf?_versionName n⟩
      obtain rfl := Except.ok.inj hversions
      have hsorted := List.pairwise_mergeSort' (· ≤ ·) (names.filterMap versionOf?)
      exact lt_nextVersion hsorted (List.mem_mergeSort.mpr hmem)

end Store

end BlueprintPatch
