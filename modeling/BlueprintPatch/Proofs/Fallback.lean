import BlueprintPatch.Proofs.Limits
import BlueprintPatch.Settings

/-! Settings where the file is of no use. Without a file the environment alone decides. A directory
in its place, a text that breaks the grammar and a value that is no object are as good as no file.
Bytes that are no text and a text that breaks a limit of the reader are not: then there are no
settings. -/
namespace BlueprintPatch.Settings

def ofEnvironment (env : Environment) : Settings where
  port := 8000
  apiUrl := env.text? "SURREALPILOT_API_URL"
  apiKey := env.text? "SURREALPILOT_API_KEY"
  timeout := Binary64.ofDecimal false 30 0
  transactionLabel := "Apply AI Patch"
  undoDepth := 50
  logLevel := (env.text? "SURREALPILOT_LOG_LEVEL").getD "INFO"

theorem ofFields_override_nil (env : Environment) :
    ofFields (override env []) = .ok (ofEnvironment env) := by
  simp only [ofEnvironment, override, overrides, List.foldl_cons, List.foldl_nil]
  generalize env.text? "SURREALPILOT_API_URL" = url
  generalize env.text? "SURREALPILOT_API_KEY" = key
  generalize env.text? "SURREALPILOT_LOG_LEVEL" = level
  cases url <;> cases key <;> cases level <;> rfl

/-- The item is a file with the text of an object, which the reader can read. -/
def HoldsObject (item : DiskItem) : Prop :=
  ∃ c text fields, item = .file c ∧ Disk.textOf c = .ok text ∧ Json.read text = .ok (.obj fields)

/-- What about a file is not ignored: its bytes are no text, or the text breaks a limit of the
reader. -/
inductive Escapes : DiskItem → FileError → Prop
  | undecodable {c : Content} {fault : Utf8.Fault}
      (h : Disk.textOf c = .error (.undecodable fault)) : Escapes (.file c) (.undecodable fault)
  | limit {c : Content} {text : String} {fault : Json.Fault} (htext : Disk.textOf c = .ok text)
      (hread : Json.read text = .error fault) (hlimit : ¬ fault.IsMalformed) :
      Escapes (.file c) (.json text fault)

theorem escapes_of_undecodable {c : Content} {fault : Utf8.Fault} {e : FileError}
    (htext : Disk.textOf c = .error (.undecodable fault)) :
    Escapes (.file c) e ↔ e = .undecodable fault := by
  constructor
  · rintro (h | ⟨h, -, -⟩)
    · cases htext.symm.trans h
      rfl
    · cases htext.symm.trans h
  · rintro rfl
    exact .undecodable htext

theorem escapes_of_text {c : Content} {text : String} {e : FileError}
    (htext : Disk.textOf c = .ok text) : Escapes (.file c) e ↔
      ∃ fault, Json.read text = .error fault ∧ ¬ fault.IsMalformed ∧ e = .json text fault := by
  constructor
  · rintro (h | ⟨h, hread, hlimit⟩)
    · cases htext.symm.trans h
    · cases htext.symm.trans h
      exact ⟨_, hread, hlimit, rfl⟩
  · rintro ⟨fault, hread, hlimit, rfl⟩
    exact .limit htext hread hlimit

/-- What a place that holds no object may give: no fields, if nothing about it escapes, or the one
thing that does. -/
inductive Answers (item : DiskItem) : Except FileError Fields → Prop
  | ignored (h : ∀ e, ¬ Escapes item e) : Answers item (.ok [])
  | said {e : FileError} (h : ∀ e', Escapes item e' ↔ e' = e) : Answers item (.error e)

section

variable {path : Option String} {env : Environment} {d : Disk} {p : Path} {place : List String}
  {item : DiskItem}

theorem readJson_directory (hplace : d.locate p = .ok place)
    (hitem : d.item? place = some .directory) : ∃ e, d.readJson p = .error (.disk e) := by
  simp only [Disk.readJson, Disk.read, Disk.readContent, hplace, bind, Except.bind, hitem,
    Disk.failAt]
  exact ⟨_, rfl⟩

theorem fileFields_of_malformed {text : String} {fault : Json.Fault} (hhas : d.has p = .ok true)
    (hread : d.readJson p = .error (.json text fault)) (h : fault.IsMalformed) :
    fileFields p d = .ok [] := by
  cases fault with
  | malformed complaint left => simp only [fileFields, hhas, hread]
  | _ => exact h.elim

theorem fileFields_of_limit {text : String} {fault : Json.Fault} (hhas : d.has p = .ok true)
    (hread : d.readJson p = .error (.json text fault)) (h : ¬ fault.IsMalformed) :
    fileFields p d = .error (.json text fault) := by
  cases fault with
  | malformed complaint left => exact absurd trivial h
  | _ => simp only [fileFields, hhas, hread]

theorem fileFields_of_text {c : Content} {text : String} (hhas : d.has p = .ok true)
    (hcontent : d.readContent p = .ok c) (htext : Disk.textOf c = .ok text)
    (hobject : ∀ fields, Json.read text ≠ .ok (.obj fields)) :
    Answers (.file c) (fileFields p d) := by
  cases hjson : Json.read text with
  | ok v =>
    have hread : d.readJson p = .ok v := by
      simp only [Disk.readJson, Disk.read, hcontent, htext, hjson]
    have hfields : fileFields p d = .ok [] := by
      cases v with
      | obj fields => exact absurd hjson (hobject fields)
      | _ => simp only [fileFields, hhas, hread]
    rw [hfields]
    refine .ignored fun e h => ?_
    obtain ⟨fault, hfault, -⟩ := (escapes_of_text htext).mp h
    cases hjson.symm.trans hfault
  | error fault =>
    have hread : d.readJson p = .error (.json text fault) := by
      simp only [Disk.readJson, Disk.read, hcontent, htext, hjson]
    by_cases hmalformed : fault.IsMalformed
    · rw [fileFields_of_malformed hhas hread hmalformed]
      refine .ignored fun e h => ?_
      obtain ⟨fault', hfault, hlimit, -⟩ := (escapes_of_text htext).mp h
      cases hjson.symm.trans hfault
      exact hlimit hmalformed
    · rw [fileFields_of_limit hhas hread hmalformed]
      refine .said fun e => (escapes_of_text htext).trans ?_
      simp [hjson, hmalformed]

theorem fileFields_of_item (hplace : d.locate p = .ok place) (hitem : d.item? place = some item)
    (hobject : ¬ HoldsObject item) : Answers item (fileFields p d) := by
  have hhas : d.has p = .ok true := by
    simp only [Disk.has, Disk.lookup, hplace, hitem, Except.map, Option.isSome_some]
  cases item with
  | directory =>
    obtain ⟨e, hread⟩ := readJson_directory hplace hitem
    have hfields : fileFields p d = .ok [] := by simp only [fileFields, hhas, hread]
    rw [hfields]
    exact .ignored nofun
  | file c =>
    have hcontent : d.readContent p = .ok c := by
      simp only [Disk.readContent, hplace, bind, Except.bind, hitem]
    cases htext : Disk.textOf c with
    | ok text =>
      exact fileFields_of_text hhas hcontent htext fun fields hjson =>
        hobject ⟨c, text, fields, rfl, htext, hjson⟩
    | error e =>
      cases e with
      | disk e => cases c <;> cases htext
      | undecodable fault =>
        have hread : d.readJson p = .error (.undecodable fault) := by
          simp only [Disk.readJson, Disk.read, hcontent, htext]
        have hfields : fileFields p d = .error (.undecodable fault) := by
          simp only [fileFields, hhas, hread]
        rw [hfields]
        exact .said fun _ => escapes_of_undecodable htext

theorem load_of_fileFields_nil (h : fileFields (pathFor path env) d = .ok []) :
    load path env d = .ok (ofEnvironment env) := by
  simp only [load, h, ofFields_override_nil]

/-- A file that does not hold an object is ignored exactly if nothing about it escapes: the settings
are then what they are on any disk without the file. Otherwise there are none, and what has escaped
is said. -/
theorem load_without_object (hplace : d.locate (pathFor path env) = .ok place)
    (hitem : d.item? place = some item) (hobject : ¬ HoldsObject item) :
    (∀ s, load path env d = .ok s ↔ s = ofEnvironment env ∧ ∀ e, ¬ Escapes item e) ∧
    (∀ e, load path env d = .error (.file e) ↔ Escapes item e) ∧
    ∀ d', d'.has (pathFor path env) = .ok false → load path env d' = .ok (ofEnvironment env) := by
  have hmissing : ∀ d', d'.has (pathFor path env) = .ok false →
      load path env d' = .ok (ofEnvironment env) :=
    fun d' h => load_of_fileFields_nil (by simp only [fileFields, h])
  have hanswers := fileFields_of_item hplace hitem hobject
  generalize hfields : fileFields (pathFor path env) d = answer at hanswers
  cases hanswers with
  | ignored hnone =>
    have hload := load_of_fileFields_nil hfields
    exact ⟨fun s => by simp [hload, hnone, eq_comm], fun e => by simp [hload, hnone], hmissing⟩
  | @said e hescapes =>
    have hload : load path env d = .error (.file e) := by simp only [load, hfields]
    exact ⟨fun s => by simp [hload, hescapes], fun e' => by simp [hload, hescapes, eq_comm],
      hmissing⟩

end

def diskWith (c : Content) : Disk := ⟨[(["config.json"], .file c)]⟩

/-- A file that breaks off is ignored, and the key of the environment is taken. -/
theorem load_without_object_broken :
    ¬ HoldsObject (.file (.text "\x7b broken")) ∧
      (∀ e, ¬ Escapes (.file (.text "\x7b broken")) e) ∧
      load (some "config.json") [("SURREALPILOT_API_KEY", "from-env")]
          (diskWith (.text "\x7b broken")) =
        .ok ⟨8000, none, some "from-env", Binary64.ofDecimal false 30 0, "Apply AI Patch", 50,
          "INFO"⟩ := by
  have htext : Disk.textOf (.text "\x7b broken") = .ok "\x7b broken" := by decide +kernel
  have hread : Json.read "\x7b broken" = .error (.malformed .expectingName 6) := rfl
  have hobject : ¬ HoldsObject (.file (.text "\x7b broken")) := by
    rintro ⟨c, text, fields, hc, htext', hread'⟩
    cases hc
    cases htext.symm.trans htext'
    cases hread.symm.trans hread'
  have hnone : ∀ e, ¬ Escapes (.file (.text "\x7b broken")) e := by
    intro e h
    obtain ⟨fault, hfault, hlimit, -⟩ := (escapes_of_text htext).mp h
    cases hread.symm.trans hfault
    exact hlimit trivial
  have hplace : (diskWith (.text "\x7b broken")).locate
      (pathFor (some "config.json") [("SURREALPILOT_API_KEY", "from-env")]) =
        .ok ["config.json"] := by decide +kernel
  have hitem : (diskWith (.text "\x7b broken")).item? ["config.json"] =
      some (.file (.text "\x7b broken")) := by decide +kernel
  obtain ⟨hload, -, -⟩ := load_without_object hplace hitem hobject
  exact ⟨hobject, hnone, (hload _).mpr ⟨by decide +kernel, hnone⟩⟩

/-- Bytes that are no text are not ignored. -/
theorem load_fails_for_bytes :
    ¬ HoldsObject (.file (.ofBytes [0xff])) ∧
      load (some "config.json") [] (diskWith (.ofBytes [0xff])) =
        .error (.file (.undecodable ⟨.invalidStart, 0xff, 0, 1⟩)) ∧
      load (some "config.json") [] .empty = .ok (ofEnvironment []) := by
  refine ⟨?_, by decide +kernel, by decide +kernel⟩
  rintro ⟨c, text, fields, hc, htext, -⟩
  cases hc
  cases htext

end BlueprintPatch.Settings
