import BlueprintPatch.Proofs.Delivery

/-! What a run that succeeds has delivered. Every blueprint that its patch has changed is delivered;
the store and the exports give it back in its patched form unless a later delivery has written to
the same place, or the disk has refused the export. -/
namespace BlueprintPatch

namespace Model

variable {m m' : Model}

theorem coherent_load (hm : m.Coherent) (hbelow : ∀ b ∈ m.loaded, b.handle < m.next)
    (d : BlueprintDraft) :
    (m.load d).Coherent ∧ ∀ b ∈ (m.load d).loaded, b.handle < (m.load d).next := by
  have hloaded : (m.load d).loaded = m.loaded ++ [(d.make m.next).1] := rfl
  have hnext : m.next < (m.load d).next := d.lt_make m.next
  have hnew : (d.make m.next).1.handle = m.next := rfl
  refine ⟨fun b hb c hc hbc => ?_, fun b hb => ?_⟩
  · rw [hloaded, List.mem_append, List.mem_singleton] at hb hc
    rcases hb with hb | rfl <;> rcases hc with hc | rfl
    · exact hm b hb c hc hbc
    · exact absurd (hbc.trans hnew) (Nat.ne_of_lt (hbelow b hb))
    · exact absurd (hbc.symm.trans hnew) (Nat.ne_of_lt (hbelow c hc))
    · rfl
  · rw [hloaded, List.mem_append, List.mem_singleton] at hb
    rcases hb with hb | rfl
    · exact Nat.lt_trans (hbelow b hb) hnext
    · exact hnext

theorem coherent_loadAll (hm : m.Coherent) (hbelow : ∀ b ∈ m.loaded, b.handle < m.next)
    (ds : List BlueprintDraft) : (m.loadAll ds).Coherent := by
  induction ds generalizing m with
  | nil => exact hm
  | cons d ds ih =>
    obtain ⟨hloaded, hnext⟩ := coherent_load hm hbelow d
    exact ih hloaded hnext

end Model

namespace CommandLine

open Disk

variable {s : Surroundings} {i : Invocation} {m m' : Model} {p q : Progress} {b : Blueprint}
  {time : String} {d d' : Disk}

theorem Loaded.coherent (h : Loaded s i m) : m.Coherent := by
  obtain ⟨stored, exported, -, -, rfl⟩ := h.model
  exact Model.coherent_loadAll (by simp [Model.Coherent, Model.empty]) (by simp [Model.empty]) _

theorem find?_handle {old : Blueprint} (hm : m.Coherent) (hold : old ∈ m.loaded)
    (hb : b.handle = old.handle) : m.loaded.find? (·.handle = b.handle) = some old := by
  cases hfind : m.loaded.find? (·.handle = b.handle) with
  | none =>
    have hne := List.find?_eq_none.mp hfind old hold
    simp [hb] at hne
  | some c =>
    have hhandle : c.handle = b.handle := by simpa using List.find?_some hfind
    rw [hm c (List.mem_of_find?_eq_some hfind) old hold (hhandle.trans hb)]

theorem mem_modified (h : Patched s i m m') (hb : b ∈ m'.loaded) (hnew : b ∉ m.loaded) :
    b ∈ modified m m' := by
  obtain ⟨text, -, hrun⟩ := h.patched
  have hcoherent := h.loaded.coherent
  obtain ⟨hlength, htouched⟩ := touchedBy_runInTurn hcoherent hrun
  obtain ⟨j, hj⟩ := List.mem_iff_getElem?.mp hb
  have hbound : j < m.loaded.length := by
    obtain ⟨hlt, -⟩ := List.getElem?_eq_some_iff.mp hj
    omega
  obtain ⟨c, hc, htouch⟩ := htouched j _ (List.getElem?_eq_getElem hbound)
  obtain rfl := Option.some.inj (hj.symm.trans hc)
  generalize hold : m.loaded[j] = old at htouch
  have hmem : old ∈ m.loaded := hold ▸ List.getElem_mem hbound
  have hmodified : isModifiedSince m b = true := by
    rw [isModifiedSince, find?_handle hcoherent hmem htouch.same.handle, bne_iff_ne]
    intro hcount
    have hzero : m.named (Document.ofValue (.str text)).operations old.handle = 0 := by
      have hadded := htouch.count
      dsimp only at hadded
      omega
    exact hnew (htouch.kept hzero ▸ hmem)
  exact List.mem_filter.mpr ⟨hb, hmodified⟩

theorem exec_deliverAll_eq_ok {before after : List Blueprint}
    (h : exec (deliverAll s i (before ++ b :: after)) p = (.ok (), q)) :
    ∃ d₀ d₁ d₂, Saved i.store s.time b d₀ d₁ ∧ Exported i.exportDir s.time b d₁ d₂ ∧
      Wrote (fun q t => ∃ x ∈ after, Delivers i.store i.exportDir s.time x q t) d₂ q.disk := by
  rw [deliverAll_append, exec_bind_eq_ok_iff] at h
  obtain ⟨_, p₁, -, hrest⟩ := h
  rw [deliverAll_cons, exec_bind_eq_ok_iff] at hrest
  obtain ⟨_, p₂, hone, hafter⟩ := hrest
  have hwrote := (ends_deliverAll s i after).wrote hafter
  rcases exec_deliver hone with ⟨d, hsaved, hexported, -⟩ | ⟨a, -, herror⟩
  · exact ⟨_, d, _, hsaved, hexported, hwrote⟩
  · cases herror

theorem wrote_of_exported {exportDir : Option String} (h : Exported exportDir time b d d') :
    Wrote (fun q t => ∃ directory, exportDir = some directory ∧
      Context.Exports time b (exportTarget directory b) q t) d d' := by
  cases exportDir with
  | none =>
    obtain rfl : d' = d := h
    exact .refl _ d'
  | some directory =>
    obtain ⟨r, hexport, -⟩ := h
    exact (wrote_exportFile hexport).1.mono fun q t h => ⟨directory, rfl, h⟩

/-- No save of the blueprints leads to the path. -/
def NoSaveAt (store : Option String) (time : String) (bs : List Blueprint) (p : Path) (d : Disk) :
    Prop :=
  ∀ directory, store = some directory → ∀ x ∈ bs, ∀ n,
    ∀ f ∈ Store.filesOfSave (Path.ofText directory) time x n, ¬ d.Meet p f.1

/-- No export of the blueprints leads to the path. -/
def NoExportAt (exportDir : Option String) (bs : List Blueprint) (p : Path) (d : Disk) : Prop :=
  ∀ directory, exportDir = some directory → ∀ x ∈ bs, ¬ d.Meet p (exportTarget directory x)

theorem not_meet_of_delivers {store exportDir : Option String} {bs : List Blueprint} {p q : Path}
    {t : String} (hsave : NoSaveAt store time bs p d) (hexport : NoExportAt exportDir bs p d)
    (h : ∃ x ∈ bs, Delivers store exportDir time x q t) : ¬ d.Meet p q := by
  obtain ⟨x, hx, hdelivers⟩ := h
  cases hdelivers with
  | saved hstore hsaves =>
    obtain ⟨n, v, hmem, -⟩ := hsaves
    exact hsave _ hstore x hx n _ hmem
  | exported hdirectory hexports =>
    obtain ⟨rfl, -⟩ := hexports
    exact hexport _ hdirectory x hx

/-- A blueprint that has been saved is the current state under its key in the end, unless one
with its key is saved later or an export is written to that place. -/
theorem load_of_delivered {before after : List Blueprint} {directory identifier : String}
    (h : exec (deliverAll s i (before ++ b :: after)) p = (.ok (), q))
    (hstore : i.store = some directory) (hkey : Store.key identifier = Store.keyFor b)
    (hlast : ∀ x ∈ after, Store.keyFor x ≠ Store.keyFor b)
    (hexport : NoExportAt i.exportDir (b :: after)
      (Store.currentFile (Path.ofText directory) (Store.keyFor b)) q.disk) :
    Store.load (Path.ofText directory) identifier none q.disk = .ok (some b.quiet.draft) := by
  obtain ⟨d₀, d₁, d₂, hsaved, hexported, hafter⟩ := exec_deliverAll_eq_ok h
  rw [hstore] at hsaved
  obtain ⟨n, hsave⟩ := hsaved
  obtain ⟨hwritable, hcurrent⟩ := (Store.wrote_save hsave).2 n rfl
  have hnoSave : NoSaveAt i.store s.time after
      (Store.currentFile (Path.ofText directory) (Store.keyFor b)) q.disk := by
    intro directory' hstore' x hx n f hf
    obtain rfl := Option.some.inj (hstore.symm.trans hstore')
    exact Store.not_meet_current (hlast x hx) hf
  have hnoExport : NoExportAt i.exportDir after
      (Store.currentFile (Path.ofText directory) (Store.keyFor b)) q.disk :=
    fun directory' hdirectory x hx => hexport directory' hdirectory x (List.mem_cons_of_mem b hx)
  have hkept := (wrote_of_exported hexported).readContent hcurrent (by
    rintro q' t ⟨directory', hdirectory, rfl, -⟩ hmeet
    exact hexport directory' hdirectory b List.mem_cons_self (hafter.meet hmeet))
  have hfinal := hafter.readContent hkept fun q' t hdelivers =>
    not_meet_of_delivers hnoSave hnoExport hdelivers
  exact Store.load_of_current hkey hwritable hfinal

theorem shown_exportTarget (directory : String) (b : Blueprint) :
    (exportTarget directory b).shown = Path.render (exportTarget directory b).parts := by
  unfold exportTarget Path.join
  split <;> rfl

/-- A blueprint that has been exported is imported from its file in the end, as far as an export
says it, unless another file is written to that place later. There is no file if the disk has
refused the export. -/
theorem importFile_of_delivered {before after : List Blueprint} {directory : String}
    {content : Content} (h : exec (deliverAll s i (before ++ b :: after)) p = (.ok (), q))
    (hdirectory : i.exportDir = some directory)
    (hsave : NoSaveAt i.store s.time after (exportTarget directory b) q.disk)
    (hexport : NoExportAt i.exportDir after (exportTarget directory b) q.disk)
    (hname : b.name ≠ "") (hcounts : b.HasWritableCounts)
    (hfile : q.disk.readContent (exportTarget directory b) = .ok content) :
    q.disk.importFile (exportTarget directory b) = .ok [b.quiet.reimported] := by
  obtain ⟨d₀, d₁, d₂, -, hexported, hafter⟩ := exec_deliverAll_eq_ok h
  rw [hdirectory] at hexported
  obtain ⟨r, hexported, hrefusal⟩ := hexported
  cases r with
  | error e =>
    exact absurd hfile (no_file_of_refused (shown_exportTarget directory b) hexported
      (hrefusal e rfl) hafter)
  | ok u =>
    have hcontent := hafter.readContent ((wrote_exportFile hexported).2 rfl) fun q' t hdelivers =>
      not_meet_of_delivers hsave hexport hdelivers
    exact importFile_of_readContent hname hcounts hcontent

/-- A run with exit code zero that is not dry has applied its patch, and every blueprint that the
patch has changed counts as modified. Each modified blueprint can be read back in its patched form:
from the store, if no later one has its key; and from its export, if there is a file and none was
written to that place later. -/
theorem read_back_after_success {arguments : List String} (h : interpret arguments = .ok i)
    (hdry : i.dryRun = false) (hexit : (run s arguments).exit = .ok 0) :
    ∃ m m', Patched s i m m' ∧ (∀ b ∈ m'.loaded, b ∉ m.loaded → b ∈ modified m m') ∧
      ∀ before b after, modified m m' = before ++ b :: after →
        (∀ directory identifier, i.store = some directory →
          Store.key identifier = Store.keyFor b →
          (∀ x ∈ after, Store.keyFor x ≠ Store.keyFor b) →
          NoExportAt i.exportDir (b :: after)
            (Store.currentFile (Path.ofText directory) (Store.keyFor b)) (run s arguments).disk →
          Store.load (Path.ofText directory) identifier none (run s arguments).disk =
            .ok (some b.quiet.draft)) ∧
        ∀ directory content, i.exportDir = some directory →
          NoSaveAt i.store s.time after (exportTarget directory b) (run s arguments).disk →
          NoExportAt i.exportDir after (exportTarget directory b) (run s arguments).disk →
          b.name ≠ "" → b.HasWritableCounts →
          (run s arguments).disk.readContent (exportTarget directory b) = .ok content →
          (run s arguments).disk.importFile (exportTarget directory b) =
            .ok [b.quiet.reimported] := by
  rcases run_cases (s := s) h with ⟨-, hdry' | hne⟩ |
    ⟨-, m, m', p, q, hpatched, -, hdisk, ⟨hdone, -⟩ | ⟨a, -, haborted⟩⟩
  · rw [hdry] at hdry'
    cases hdry'
  · exact absurd hexit hne
  · refine ⟨m, m', hpatched, fun b hb hnew => mem_modified hpatched hb hnew, ?_⟩
    intro before b after hbs
    rw [hbs] at hdone
    rw [hdisk]
    exact ⟨fun directory identifier hstore hkey hlast hexport =>
        load_of_delivered hdone hstore hkey hlast hexport,
      fun directory content hdirectory hsave hexport hname hcounts hfile =>
        importFile_of_delivered hdone hdirectory hsave hexport hname hcounts hfile⟩
  · rw [haborted] at hexit
    cases hexit

def onLamp : Blueprint :=
  ⟨0, "Lamp", "/Game/Lamp", none, [⟨1, "On", "bool", "", false⟩], [], true, 1⟩

theorem modified_workshop (hloaded : Loaded workshop i lampModel) (hpatch : i.patch = "rename.json")
    (h : Patched workshop i m m') : modified m m' = [onLamp] := by
  obtain rfl := h.loaded.unique hloaded
  obtain ⟨text, htext, hrun⟩ := h.patched
  have hrename : givenPatch workshop "rename.json" = .ok (renameOf "Lit") := rfl
  rw [hpatch, hrename] at htext
  obtain rfl := Except.ok.inj htext
  have hmodified : (runInTurn (Document.ofValue (.str (renameOf "Lit"))).operations
      lampModel).toOption.map (modified lampModel) = some [onLamp] := rfl
  rw [hrun] at hmodified
  exact Option.some.inj hmodified

def deliveringArguments : List String :=
  ["rename.json", "--blueprint", "lamp.json", "--store", "shelf", "--export-dir", "patched"]

def delivering : Invocation :=
  ⟨"rename.json", [some "lamp.json"], some "shelf", some "patched", false, none⟩

theorem loaded_delivering : Loaded workshop delivering lampModel := by
  have hlist : (opened (some "shelf") workshop.disk).list (Path.ofText "shelf") = .ok [] := rfl
  refine loaded_workshop rfl (fun directory h => ?_) ?_ rfl
  · obtain rfl : "shelf" = directory := Option.some.inj h
    rfl
  · show Store.listAll (Path.ofText "shelf") (opened (some "shelf") workshop.disk) = .ok []
    simp [Store.listAll, hlist]

theorem home_eq_of_meet {p q : Path} (h : d.Meet p q) : home p = home q := by
  obtain ⟨r, hp, hq⟩ := h
  have hlast : ∀ {p : Path}, d.locate p = .ok r → home p = r := by
    intro p hp
    rw [home, List.getLastD_eq_getLast?, getLast?_way (locate_eq_ok.mp hp).2.2, Option.getD_some]
  rw [hlast hp, hlast hq]

theorem read_back_after_success_lamp :
    interpret deliveringArguments = .ok delivering ∧
    (run workshop deliveringArguments).exit = .ok 0 ∧
    Store.load (Path.ofText "shelf") "/Game/Lamp" none (run workshop deliveringArguments).disk =
      .ok (some onLamp.draft) ∧
    (run workshop deliveringArguments).disk.importFile (exportTarget "patched" onLamp) =
      .ok [onLamp.reimported] := by
  have harguments : interpret deliveringArguments = .ok delivering :=
    ok_of_toOption (by decide +kernel)
  have htext : givenPatch workshop "rename.json" = .ok (renameOf "Lit") :=
    ok_of_toOption (by decide +kernel)
  have hend : (run workshop deliveringArguments).exit.toOption = some 0 ∧
      ((run workshop deliveringArguments).disk.readContent
        (exportTarget "patched" onLamp)).toOption.isSome = true := by
    rw [run_workshop harguments rfl htext loaded_delivering]
    decide +kernel
  have hexit := ok_of_toOption hend.1
  obtain ⟨content, hcontent⟩ := Option.isSome_iff_exists.mp hend.2
  obtain ⟨m, m', hpatched, -, hback⟩ := read_back_after_success harguments rfl hexit
  obtain ⟨hstore, hexport⟩ := hback [] onLamp [] (modified_workshop loaded_delivering rfl hpatched)
  refine ⟨harguments, hexit, ?_, ?_⟩
  · refine hstore "shelf" "/Game/Lamp" rfl (by decide +kernel) (by simp) ?_
    intro directory hdirectory x hx hmeet
    obtain rfl : "patched" = directory := Option.some.inj hdirectory
    obtain rfl := List.mem_singleton.mp hx
    exact absurd (home_eq_of_meet hmeet) (by decide +kernel)
  · refine hexport "patched" content rfl ?_ ?_ (by decide) ?_ (ok_of_toOption hcontent)
    · simp [NoSaveAt]
    · simp [NoExportAt]
    · simp [Blueprint.HasWritableCounts, onLamp]

def exportingArguments : List String :=
  ["rename.json", "--blueprint", "lamp.json", "--export-dir", "out"]

def exporting : Invocation := ⟨"rename.json", [some "lamp.json"], none, some "out", false, none⟩

theorem loaded_exporting : Loaded workshop exporting lampModel := by
  refine loaded_workshop rfl (fun directory h => ?_) rfl rfl
  cases h

/-- The run ends with exit code zero although the disk has refused the only export that there was to
deliver. -/
theorem refused_export_is_success :
    interpret exportingArguments = .ok exporting ∧
    (run workshop exportingArguments).exit = .ok 0 ∧
    ∃ m m', Patched workshop exporting m m' ∧ onLamp ∈ modified m m' ∧
      ∀ drafts, (run workshop exportingArguments).disk.importFile (exportTarget "out" onLamp) ≠
        .ok drafts := by
  have harguments : interpret exportingArguments = .ok exporting :=
    ok_of_toOption (by decide +kernel)
  have htext : givenPatch workshop "rename.json" = .ok (renameOf "Lit") :=
    ok_of_toOption (by decide +kernel)
  have hend : (run workshop exportingArguments).exit.toOption = some 0 ∧
      ((run workshop exportingArguments).disk.importFile
        (exportTarget "out" onLamp)).toOption = none := by
    rw [run_workshop harguments rfl htext loaded_exporting]
    decide +kernel
  have hexit := ok_of_toOption hend.1
  rcases run_cases (s := workshop) harguments with ⟨-, hdry | hne⟩ | ⟨-, m, m', -, -, hpatched, -⟩
  · cases hdry
  · exact absurd hexit hne
  · refine ⟨harguments, hexit, m, m', hpatched, ?_, fun drafts himport => ?_⟩
    · rw [modified_workshop loaded_exporting rfl hpatched]
      exact List.mem_singleton_self onLamp
    · rw [himport] at hend
      cases hend.2

end CommandLine

end BlueprintPatch
