import BlueprintPatch.Context.Export
import BlueprintPatch.Proofs.Footprint
import BlueprintPatch.Proofs.Reimport

/-! Exports in files. A file that an export is written to gives the blueprint back, as far as an
export says it; an export that the disk refuses leaves no file at its path. -/
namespace BlueprintPatch

open Json

/-- The lists that exports count have fewer items than numbers with too many digits count. -/
def Blueprint.HasWritableCounts (b : Blueprint) : Prop :=
  ∀ g ∈ b.graphs, g.nodes.length < pow10 maxDigits ∧
    ∀ x ∈ g.nodes, ∀ p ∈ x.pins, p.linkedTo.length < pow10 maxDigits

namespace Context

/-- The export of the blueprint to the path `p` writes the text to the path `q`. -/
def Exports (time : String) (b : Blueprint) (p q : Path) (t : String) : Prop :=
  q = p ∧ t = (exportContext time b).write .spread

theorem quiet_exportPin (p : Pin) : (exportPin p).quiet = exportPin p := by
  have hlinks : quietItems (p.linkedTo.map .str) = p.linkedTo.map .str :=
    quietItems_map fun _ _ => rfl
  simp [exportPin, quiet, quietFields, hlinks]

theorem quietFields_memberFields (x : Node) : quietFields (memberFields x) = memberFields x := by
  simp only [memberFields]
  split
  · split <;> simp [quietFields, quiet]
  · rfl

theorem quiet_exportNode (x : Node) : (exportNode x).quiet = exportNode x.quiet := by
  have hpins := quietItems_map fun p (_ : p ∈ x.pins) => quiet_exportPin p
  have hmember : memberFields x.quiet = memberFields x := rfl
  simp [exportNode, Node.quiet, quiet, quietFields, hpins, quietFields_memberFields, ← hmember]

theorem quiet_exportGraph (g : Graph) : (exportGraph g).quiet = exportGraph g.quiet := by
  have hnodes := quietItems_map fun x (_ : x ∈ g.nodes) => quiet_exportNode x
  simp [exportGraph, Graph.quiet, quiet, quietFields, hnodes]

theorem quietFields_parentFields (b : Blueprint) :
    quietFields (parentFields b) = parentFields b := by
  simp only [parentFields]
  split
  · split <;> simp [quietFields, quiet]
  · rfl

theorem quiet_exportContext (time : String) (b : Blueprint) :
    (exportContext time b).quiet = exportContext time b.quiet := by
  have hmembers : quietItems (b.members.map exportVariable) = b.members.map exportVariable :=
    quietItems_map fun _ _ => rfl
  have hgraphs := quietItems_map fun g (_ : g ∈ b.graphs) => quiet_exportGraph g
  simp [exportContext, Blueprint.quiet, quiet, quietFields, hmembers, hgraphs,
    quietFields_parentFields]
  rfl

theorem plain_exportPin (depth : Nat) {p : Pin} (h : p.linkedTo.length < pow10 maxDigits) :
    Plain (depth + 2) (exportPin p) := by
  have hlinks : PlainItems depth (p.linkedTo.map .str) := plainItems_map fun _ _ => trivial
  simpa [exportPin, Plain, PlainFields, h] using hlinks

theorem mem_of_memberField? {k : NodeKind} {field : String} (h : memberField? k = some field) :
    field ∈ ["variableName", "functionName", "eventName"] := by
  cases k <;> simp_all [memberField?]

theorem memberFields_cases (x : Node) : memberFields x = [] ∨
    ∃ field name, field ∈ ["variableName", "functionName", "eventName"] ∧
      memberFields x = [(field, .str name)] := by
  simp only [memberFields]
  split
  · rename_i field name hfield _
    split
    · exact .inl rfl
    · exact .inr ⟨field, name, mem_of_memberField? hfield, rfl⟩
  · exact .inl rfl

theorem plain_exportNode (depth : Nat) {x : Node}
    (h : ∀ p ∈ x.pins, p.linkedTo.length < pow10 maxDigits) : Plain (depth + 4) (exportNode x) := by
  have hpins := plainItems_map fun p (hp : p ∈ x.pins) => plain_exportPin depth (h p hp)
  rcases memberFields_cases x with hnone | ⟨field, name, hfield, hone⟩
  · simpa [exportNode, hnone, Plain, PlainFields] using hpins
  · simp only [List.mem_cons, List.not_mem_nil, or_false] at hfield
    rcases hfield with rfl | rfl | rfl <;>
      simpa [exportNode, hone, Plain, PlainFields] using hpins

theorem plain_exportGraph (depth : Nat) {g : Graph} (hcount : g.nodes.length < pow10 maxDigits)
    (h : ∀ x ∈ g.nodes, ∀ p ∈ x.pins, p.linkedTo.length < pow10 maxDigits) :
    Plain (depth + 6) (exportGraph g) := by
  have hnodes := plainItems_map fun x (hx : x ∈ g.nodes) => plain_exportNode depth (h x hx)
  simpa [exportGraph, Plain, PlainFields, hcount] using hnodes

theorem plain_exportVariable (depth : Nat) (v : Variable) :
    Plain (depth + 1) (exportVariable v) := by
  simp [exportVariable, Plain, PlainFields]

theorem parentFields_cases (b : Blueprint) :
    parentFields b = [] ∨ ∃ name, parentFields b = [("parentClass", .str name)] := by
  simp only [parentFields]
  split
  · split <;> simp
  · exact .inl rfl

theorem plain_exportContext (depth : Nat) (time : String) {b : Blueprint}
    (h : b.HasWritableCounts) : Plain (depth + 8) (exportContext time b) := by
  have hmembers := plainItems_map fun v (_ : v ∈ b.members) => plain_exportVariable (depth + 5) v
  have hgraphs := plainItems_map fun g (hg : g ∈ b.graphs) =>
    plain_exportGraph depth (h g hg).1 (h g hg).2
  rcases parentFields_cases b with hnone | ⟨name, hone⟩
  · simpa [exportContext, hnone, Plain, PlainFields] using ⟨hmembers, hgraphs⟩
  · simpa [exportContext, hone, Plain, PlainFields] using ⟨hmembers, hgraphs⟩

end Context

namespace Disk

variable {d d' d'' : Disk} {p : Path} {time : String} {b : Blueprint}

theorem importFile_of_readContent (hname : b.name ≠ "") (hcounts : b.HasWritableCounts)
    (h : d.readContent p = .ok (.text ((Context.exportContext time b).write .spread))) :
    d.importFile p = .ok [b.quiet.reimported] := by
  have hplain : Plain maxDepth (Context.exportContext time b) :=
    Context.plain_exportContext (maxDepth - 8) time hcounts
  have hread := read_write hplain .spread
  rw [Context.quiet_exportContext] at hread
  have hjson : d.readJson p = .ok (Context.exportContext time b.quiet) := by
    simp only [readJson, Disk.read, h, textOf_write, hread]
  have hsame : b.quiet.name ≠ "" := hname
  have himport : Context.importDocument (Context.exportContext time b.quiet) =
      .ok [b.quiet.reimported] := by
    have hcontext := Context.importContext_exportContext time b.quiet
    rw [if_neg hsame] at hcontext
    show (Context.importContext _).map _ = _
    rw [hcontext]
    rfl
  simp only [importFile, hjson, himport]

variable {F : Path → String → Prop} {here place names : List String} {c : Content}

theorem Wrote.file?_eq_none (h : Wrote F d d') {r : List String}
    (hr : d'.item? r = some .directory) : d.file? r = none := by
  refine Option.eq_none_iff_forall_ne_some.mpr fun c hc => ?_
  obtain ⟨c', hc'⟩ := h.kept hc
  simp [file?, hr] at hc'

section
variable (hfree : ∀ {r}, d'.item? r = some .directory → d.file? r = none)
include hfree

/-- Names that lead to a directory later on either lead there or miss one now. -/
theorem follow_before (h : d'.follow here names = .ok place)
    (hplace : d'.item? place = some .directory) :
    d.follow here names = .ok place ∨ d.follow here names = .error .notFound := by
  induction names generalizing here with
  | nil => exact .inl h
  | cons name rest ih =>
    have hhere := directory_of_follow h hplace
    simp only [Disk.follow, hhere] at h
    simp only [Disk.follow]
    split
    · exact .inr rfl
    · rename_i hfile
      have hnone := hfree hhere
      simp [file?, hfile] at hnone
    · split at h
      · simp at h
      · exact ih h

theorem makeEach_before {way : List String} (h : d'.follow here names = .ok place)
    (hplace : d'.item? place = some .directory) : (makeEach way here names d).2 = .ok () := by
  induction names generalizing here way d with
  | nil => rfl
  | cons name rest ih =>
    have hhere := directory_of_follow h hplace
    simp only [Disk.follow, hhere] at h
    split at h
    · simp at h
    · rename_i next hnext
      have hdirectory := directory_of_follow h hplace
      simp only [makeEach, hnext]
      split
      · exact ih hfree h
      · rename_i hfile
        have hnone := hfree hdirectory
        simp [file?, hfile] at hnone
      · rename_i hnone
        have hsame := (wrote_put_directory (fun _ _ => False) hnone).sameFiles (by simp)
        exact ih (fun hr => (hsame _).trans (hfree hr)) h

/-- A directory that is there later on can be made now, but for limits of the program. -/
theorem makeAll_before {q : Path} {e : DiskError} (hlong : ¬ maxPathBytes < q.shown.utf8ByteSize)
    (h : d'.follow [] q.parts = .ok place) (hplace : d'.item? place = some .directory)
    (he : (d.makeAll q).2 = .error e) : e.isRefusal = false := by
  have hmake : (makeEach [] [] q.parts d).2 = .ok () := makeEach_before hfree h hplace
  have hmade {e : DiskError} (he : (if maxMissing < d.missing [] q.parts then (d, .error .tooDeep)
      else makeEach [] [] q.parts d).2 = .error e) : e.isRefusal = false := by
    split at he
    · obtain rfl := Except.error.inj he
      rfl
    · rw [hmake] at he
      cases he
  by_cases hnull : '\x00' ∈ q.shown.toList
  · obtain rfl : .nullInPath = e := by simpa [makeAll, locate, hnull] using he
    rfl
  · rcases follow_before hfree h hplace with hfollow | hfollow
    · exact hmade (by simpa [makeAll, locate, hnull, hlong, hfollow] using he)
    · exact hmade (by simpa [makeAll, locate, hnull, hlong, hfollow, failAt] using he)

end

theorem utf8ByteSize_render_le (names : List String) (name : String) :
    (Path.render names).utf8ByteSize ≤ max 1 (Path.render (names ++ [name])).utf8ByteSize := by
  have hgrow : ∀ names : List String, ("/".intercalate names).utf8ByteSize ≤
      ("/".intercalate (names ++ [name])).utf8ByteSize := by
    intro names
    by_cases hne : names = []
    · simp [hne]
    · rw [Path.intercalate_concat "/" hne, String.utf8ByteSize_append, String.utf8ByteSize_append]
      omega
  cases names with
  | nil => exact Nat.le_max_left ..
  | cons first rest =>
    refine Nat.le_trans ?_ (Nat.le_max_right ..)
    simp only [List.cons_append, Path.render]
    split
    · rw [String.utf8ByteSize_append, String.utf8ByteSize_append]
      exact Nat.add_le_add_left (hgrow rest) _
    · exact hgrow (first :: rest)

/-- A file that is there later on can be written now if its directory is there. -/
theorem write_before {front : List String} {last text : String} (hlater : Wrote F d d')
    (hc : d'.readContent p = .ok c) (hparts : p.parts = front ++ [last])
    (hopen : Open (.ofParts front) d) : ∃ d₂, d.write p text = .ok d₂ := by
  obtain ⟨r, hlocate, hfile⟩ := readContent_eq_ok_iff.mp hc
  obtain ⟨hnull, hlong, hfollow⟩ := locate_eq_ok.mp hlocate
  rw [hparts] at hfollow
  obtain ⟨place, hplace, -, henter⟩ := follow_concat_eq_ok_iff.mp hfollow
  have hsame := follow_of_directories hlater.directory hopen.follow
  obtain rfl := Except.ok.inj (hplace.symm.trans hsame)
  have hnow : d.follow [] p.parts = .ok r := by
    rw [hparts]
    exact follow_concat_eq_ok_iff.mpr ⟨_, hopen.follow, hopen.directory, henter⟩
  have hfree : d.item? r ≠ some .directory := by
    intro hr
    rw [file?_eq_some_iff, hlater.directory hr] at hfile
    cases hfile
  exact ⟨_, write_eq_ok_iff.mpr ⟨r, locate_eq_ok.mpr ⟨hnull, hlong, hnow⟩, hfree, rfl⟩⟩

/-- A refused export leaves no file at its path, whatever is written later. -/
theorem no_file_of_refused {e : DiskError} (hp : p.shown = Path.render p.parts)
    (h : Context.exportFile time b p d = (d', .error e)) (he : e.isRefusal = true)
    (hlater : Wrote F d' d'') : d''.readContent p ≠ .ok c := by
  intro hc
  obtain ⟨r, hlocate, hfile⟩ := readContent_eq_ok_iff.mp hc
  obtain ⟨-, hlong, hfollow⟩ := locate_eq_ok.mp hlocate
  rcases List.eq_nil_or_concat p.parts with hparts | ⟨front, last, hparts⟩
  · obtain rfl : [] = r := by simpa [hparts, Disk.follow] using hfollow
    cases hfile
  · rw [List.concat_eq_append] at hparts
    have hparent : p.parent = .ofParts front := by simp [Path.parent, hparts]
    rw [Context.exportFile, hparent] at h
    have hmade := wrote_makeAll F (.ofParts front) d
    split at h
    · rename_i d₁ e₁ hmake
      obtain ⟨rfl, he₁⟩ := Prod.mk.inj h
      obtain rfl := Except.error.inj he₁
      rw [hmake] at hmade
      rw [hparts] at hfollow
      obtain ⟨place, hplace, hdirectory, -⟩ := follow_concat_eq_ok_iff.mp hfollow
      have hshort : ¬ maxPathBytes < (Path.ofParts front).shown.utf8ByteSize := by
        have hsize := utf8ByteSize_render_le front last
        rw [hp, hparts] at hlong
        simp only [Path.ofParts, maxPathBytes] at hlong ⊢
        omega
      have herror : (d.makeAll (.ofParts front)).2 = .error e₁ := by rw [hmake]
      rw [makeAll_before (hmade.trans hlater).file?_eq_none hshort hplace hdirectory herror] at he
      cases he
    · rename_i d₁ hmake
      split at h
      · rename_i e₁ hwrite
        obtain ⟨rfl, -⟩ := Prod.mk.inj h
        obtain ⟨d₂, hwritten⟩ := write_before hlater hc hparts (open_of_makeAll hmake)
        rw [hwritten] at hwrite
        cases hwrite
      · cases (Prod.mk.inj h).2

theorem wrote_exportFile {r : Except DiskError Unit}
    (h : Context.exportFile time b p d = (d', r)) : Wrote (Context.Exports time b p) d d' ∧
      (r = .ok () →
        d'.readContent p = .ok (.text ((Context.exportContext time b).write .spread))) := by
  have hmade := wrote_makeAll (Context.Exports time b p) p.parent d
  simp only [Context.exportFile] at h
  split at h
  · rename_i hmake
    obtain ⟨rfl, rfl⟩ := Prod.mk.inj h
    rw [hmake] at hmade
    exact ⟨hmade, by simp⟩
  · rename_i hmake
    rw [hmake] at hmade
    split at h
    · obtain ⟨rfl, rfl⟩ := Prod.mk.inj h
      exact ⟨hmade, by simp⟩
    · rename_i hwrite
      obtain ⟨rfl, rfl⟩ := Prod.mk.inj h
      obtain ⟨hwrote, hcontent⟩ := wrote_write hwrite
      exact ⟨hmade.trans hwrote, fun _ => hcontent⟩

end Disk
end BlueprintPatch
