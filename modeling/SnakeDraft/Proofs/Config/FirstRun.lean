import Mathlib
import SnakeDraft.Proofs.Config.Copying

/-!
Setting up a configuration from its defaults. `Setup.run_running` lists what a run can do: it fails before the first
copy, or it copies the defaults in the order of their names. Where the device does not fail, a run adds a copy of each
default that is missing and nothing else, and a second run adds nothing (`Setup.first_run_copies_missing_defaults`).
-/

namespace SnakeDraft.Setup

/-- Whether a name ends in the extension of templates, with something before it. -/
def HasTemplateExtension (name : String) : Prop :=
  ∃ stem, stem ≠ "" ∧ name = stem ++ ".example"

theorem isTemplate_iff {name : String} : isTemplate name = true ↔ HasTemplateExtension name := by
  unfold isTemplate HasTemplateExtension
  rw [Bool.and_eq_true, List.isSuffixOf_iff_suffix, bne_iff_ne]
  constructor
  · rintro ⟨⟨stem, hstem⟩, hne⟩
    have hname : name = String.ofList stem ++ ".example" := by
      rw [← String.toList_inj, String.toList_append, String.toList_ofList, hstem]
    refine ⟨String.ofList stem, ?_, hname⟩
    intro hempty
    rw [hempty] at hname
    exact hne (by simpa using hname)
  · rintro ⟨stem, hstem, rfl⟩
    refine ⟨⟨stem.toList, by simp⟩, fun heq => hstem ?_⟩
    simpa using heq

/-- Whether a default is to be copied: a file that is no template. -/
def IsSource (d : Disk) (base : Place) (name : String) : Prop :=
  d.isFile (defaultPlace base name) = true ∧ ¬ HasTemplateExtension name

variable {base : Place} {name : String} {d d' : Disk}

theorem isSource_congr (h : d'.entryAt? (defaultPlace base name) = d.entryAt? (defaultPlace base name)) :
    IsSource d' base name ↔ IsSource d base name := by
  rw [IsSource, IsSource, Disk.isFile_congr h]

theorem mem_sources {names : List String} :
    name ∈ sources d base names ↔ name ∈ names ∧ IsSource d base name := by
  rw [sources, List.mem_mergeSort, List.mem_filter, Bool.and_eq_true, Bool.not_eq_true', IsSource, ← isTemplate_iff,
    Bool.not_eq_true]

theorem pairwise_sources {names : List String} (h : names.Nodup) : (sources d base names).Pairwise (· < ·) :=
  pairwise_lt_mergeSort (h.filter _)

/-- The names listed below the defaults contain every default to be copied. -/
theorem mem_sources_names :
    name ∈ sources d base (d.names (base ++ ["defaults"])) ↔ IsSource d base name := by
  rw [mem_sources]
  apply and_iff_right_of_imp
  rintro ⟨hfile, -⟩
  obtain ⟨content, hentry⟩ := Disk.isFile_iff.mp hfile
  have habove : Place.isAbove ((base ++ ["defaults"]) ++ [name]) = false := by
    rw [← defaultPlace_eq]
    exact isAbove_defaultPlace base name
  rw [Disk.mem_names_iff habove, ← defaultPlace_eq, hentry]
  rfl

/-- A run starts to copy: the directory of the configuration is there, and all else is as it was. -/
structure Prepared (base : Place) (d start : Disk) : Prop where
  directory : start.isDirectory (base ++ ["config"]) = true
  others : ∀ place, place ≠ base ++ ["config"] → start.entryAt? place = d.entryAt? place

theorem prepared_of_put (h : d'.entryAt? = (d.put (base ++ ["config"]) .directory).entryAt?) : Prepared base d d' := by
  have hentry : ∀ place, d'.entryAt? place =
      if place = base ++ ["config"] then some .directory else d.entryAt? place := by
    intro place
    rw [h, Disk.entryAt?_put (Disk.isAbove_append_false (by decide))]
  constructor
  · rw [Disk.isDirectory_iff, hentry, if_pos rfl]
  · intro place hplace
    rw [hentry, if_neg hplace]

theorem Prepared.default_eq (h : Prepared base d d') (name : String) :
    d'.entryAt? (defaultPlace base name) = d.entryAt? (defaultPlace base name) :=
  h.others _ configDirectory_ne_defaultPlace.symm

theorem Prepared.config_eq (h : Prepared base d d') (name : String) :
    d'.entryAt? (configPlace base name) = d.entryAt? (configPlace base name) :=
  h.others _ configDirectory_ne_configPlace.symm

/-- What setting up a configuration from its defaults can do. -/
inductive Running (base : Place) (d : Disk) : Except SetupError (List String) → Disk → Prop where
  | notPrepared {e : SetupError} {d' : Disk} (early : ∃ cause, e = .noDirectory cause ∨ e = .noList cause)
      (noFile : d'.isFile (base ++ ["config"]) = false)
      (others : ∀ place, place ≠ base ++ ["config"] → d'.entryAt? place = d.entryAt? place)
      (unreliable : ¬ d.Reliable) : Running base d (.error e) d'
  | copying {names : List String} {result : Except SetupError (List String)} {start d' : Disk}
      (prepared : Prepared base d start) (reliable : d.Reliable → start.Reliable)
      (ascending : names.Pairwise (· < ·)) (mem_names : ∀ name, name ∈ names ↔ IsSource d base name)
      (copies : CopyingAll base names start result d') : Running base d result d'

theorem run_running (hbase : d.isDirectory base = true) (hdefaults : d.isDirectory (base ++ ["defaults"]) = true)
    (hconfig : d.isFile (base ++ ["config"]) = false) :
    ∃ result d', run base d = (result, d') ∧ Running base d result d' := by
  have habove : Place.isAbove (base ++ ["config"]) = false := Disk.isAbove_append_false (by decide)
  have hparent : d.isDirectory (base ++ ["config"]).dropLast = true := by
    rw [List.dropLast_concat]
    exact hbase
  rcases Disk.ensureDirectory_cases habove hparent hconfig with
    ⟨fault, hfault, hensure⟩ | ⟨-, ensured, hensure, hfaults, hentries⟩
  · have hrun : run base d = (.error (.noDirectory (.device fault.report)), d.afterOperation) := by
      simp [run, hdefaults, hensure]
    exact ⟨_, _, hrun, .notPrepared ⟨_, .inl rfl⟩ hconfig (fun _ _ => rfl) (Disk.not_reliable_of_fault hfault)⟩
  have hprepared : Prepared base d ensured := prepared_of_put hentries
  have hreliable : d.Reliable → ensured.Reliable := by
    intro h fault hfault
    rw [hfaults] at hfault
    exact h fault (List.mem_of_mem_tail hfault)
  have hlisted : ensured.isDirectory (base ++ ["defaults"]) = true := by
    rw [Disk.isDirectory_congr (hprepared.others _ (by simp))]
    exact hdefaults
  cases hfault : ensured.nextFault? with
  | some fault =>
    have hlist : ensured.list (base ++ ["defaults"]) = _ := Disk.list_of_fault hfault
    have hrun : run base d = (.error (.noList (.device fault.report)), ensured.afterOperation) := by
      simp [run, hdefaults, hensure, hlist]
    refine ⟨_, _, hrun, .notPrepared ⟨_, .inr rfl⟩ (Disk.isFile_of_directory hprepared.directory) hprepared.others ?_⟩
    exact mt hreliable (Disk.not_reliable_of_fault hfault)
  | none =>
    have hlist := Disk.list_of_directory hfault hlisted
    have hstart : Prepared base d ensured.afterOperation := ⟨hprepared.directory, hprepared.others⟩
    have hmem : ∀ name, name ∈ sources ensured.afterOperation base (ensured.names (base ++ ["defaults"])) ↔
        IsSource d base name := by
      intro name
      rw [← isSource_congr (hstart.default_eq name)]
      exact mem_sources_names
    have hascending : (sources ensured.afterOperation base (ensured.names (base ++ ["defaults"]))).Pairwise (· < ·) :=
      pairwise_sources (nodup_eraseDups _)
    have hnodup := hascending.imp fun hlt => (Std.ne_of_lt hlt)
    obtain ⟨result, d', hcopy, hcopies⟩ := copyDefaults_copying hnodup hstart.directory fun name hname =>
      (Disk.isFile_congr (hstart.default_eq name)).trans ((hmem name).mp hname).1
    have hrun : run base d = (result, d') := by
      simp [run, hdefaults, hensure, hlist, hcopy]
    exact ⟨result, d', hrun, .copying hstart (fun h => (hreliable h).afterOperation) hascending hmem hcopies⟩

/-- What the first run over a disk has done: of the names `written` there is now a copy of the default, which was
missing, and nothing else has changed. -/
structure FirstRun (base : Place) (d : Disk) (written : List String) (d' : Disk) : Prop where
  kept : ∀ place entry, d.entryAt? place = some entry → d'.entryAt? place = some entry
  complete : ∀ name, IsSource d base name → (d'.entryAt? (configPlace base name)).isSome = true
  ascending : written.Pairwise (· < ·)
  mem_written : ∀ name, name ∈ written ↔
    d.entryAt? (configPlace base name) = none ∧ (d'.entryAt? (configPlace base name)).isSome = true
  of_sources : ∀ name ∈ written, IsSource d base name
  identical : ∀ name ∈ written, ∃ content, d.entryAt? (defaultPlace base name) = some (.file content) ∧
    d'.entryAt? (configPlace base name) = some (.file content)
  directory : d'.isDirectory (base ++ ["config"]) = true
  others : ∀ place, place ≠ base ++ ["config"] → (∀ name ∈ written, place ≠ configPlace base name) →
    d'.entryAt? place = d.entryAt? place

theorem firstRun_of_copied {names : List String} {start : Disk} (hconfig : d.isFile (base ++ ["config"]) = false)
    (hprepared : Prepared base d start) (hascending : names.Pairwise (· < ·))
    (hmem : ∀ name, name ∈ names ↔ IsSource d base name)
    (hcopied : Copied base (absent start base names) start d') : FirstRun base d (absent start base names) d' := by
  have hwritten : ∀ name, name ∈ absent start base names ↔
      IsSource d base name ∧ d.entryAt? (configPlace base name) = none := by
    intro name
    rw [mem_absent, hmem, hprepared.config_eq]
  have hsource : ∀ name ∈ absent start base names, ∃ content,
      d.entryAt? (defaultPlace base name) = some (.file content) ∧
        d'.entryAt? (configPlace base name) = some (.file content) := by
    intro name hname
    obtain ⟨content, hcontent⟩ := Disk.isFile_iff.mp ((hwritten name).mp hname).1.1
    refine ⟨content, hcontent, ?_⟩
    rw [hcopied.copies name hname, hprepared.default_eq, hcontent]
  have hothers : ∀ place, place ≠ base ++ ["config"] → (∀ name ∈ absent start base names,
      place ≠ configPlace base name) → d'.entryAt? place = d.entryAt? place := by
    intro place hplace hnew
    rw [hcopied.others place hnew, hprepared.others place hplace]
  have hdirectory : d'.isDirectory (base ++ ["config"]) = true := hcopied.directory_eq.trans hprepared.directory
  constructor
  case kept =>
    intro place entry hentry
    by_cases hplace : place = base ++ ["config"]
    · subst hplace
      cases entry with
      | directory => exact Disk.isDirectory_iff.mp hdirectory
      | file content =>
        rw [Disk.isFile_iff.mpr ⟨content, hentry⟩] at hconfig
        cases hconfig
    · rw [hothers place hplace, hentry]
      rintro name hname rfl
      rw [((hwritten name).mp hname).2] at hentry
      cases hentry
  case complete =>
    intro name hname
    by_cases habsent : d.entryAt? (configPlace base name) = none
    · obtain ⟨content, -, hcopy⟩ := hsource name ((hwritten name).mpr ⟨hname, habsent⟩)
      rw [hcopy]
      rfl
    · have hkept := hcopied.config_eq fun hmem => habsent ((hwritten name).mp hmem).2
      rw [hkept, hprepared.config_eq]
      exact Option.isSome_iff_ne_none.mpr habsent
  case ascending => exact hascending.filter _
  case mem_written =>
    intro name
    constructor
    · intro hname
      obtain ⟨content, -, hcopy⟩ := hsource name hname
      exact ⟨((hwritten name).mp hname).2, by rw [hcopy]; rfl⟩
    · rintro ⟨habsent, hpresent⟩
      apply Classical.byContradiction
      intro hname
      rw [hcopied.config_eq hname, hprepared.config_eq, habsent] at hpresent
      cases hpresent
  case of_sources => exact fun name hname => ((hwritten name).mp hname).1
  case identical => exact hsource
  case directory => exact hdirectory
  case others => exact hothers

theorem Running.firstRun {result : Except SetupError (List String)} (h : Running base d result d')
    (hreliable : d.Reliable) (hconfig : d.isFile (base ++ ["config"]) = false) :
    ∃ written, result = .ok written ∧ FirstRun base d written d' ∧ d'.Reliable := by
  cases h with
  | notPrepared _ _ _ hunreliable => exact absurd hreliable hunreliable
  | copying hprepared hstart hascending hmem hcopies =>
    cases hcopies with
    | copied hcopied hreliable' =>
      exact ⟨_, rfl, firstRun_of_copied hconfig hprepared hascending hmem hcopied, hreliable' (hstart hreliable)⟩
    | failed _ _ _ _ hunreliable => exact absurd (hstart hreliable) hunreliable

/-- After a first run a second one has nothing to add. -/
theorem FirstRun.second {written more : List String} {d'' : Disk} (h : FirstRun base d written d')
    (h' : FirstRun base d' more d'') : more = [] ∧ d''.entryAt? = d'.entryAt? := by
  have hmore : more = [] := by
    apply List.eq_nil_iff_forall_not_mem.mpr
    intro name hname
    have hdefault : d'.entryAt? (defaultPlace base name) = d.entryAt? (defaultPlace base name) :=
      h.others _ configDirectory_ne_defaultPlace.symm fun _ _ => defaultPlace_ne_configPlace
    have hpresent := h.complete name ((isSource_congr hdefault).mp (h'.of_sources name hname))
    rw [((h'.mem_written name).mp hname).1] at hpresent
    cases hpresent
  subst hmore
  refine ⟨rfl, funext fun place => ?_⟩
  by_cases hplace : place = base ++ ["config"]
  · rw [hplace, Disk.isDirectory_iff.mp h.directory, Disk.isDirectory_iff.mp h'.directory]
  · exact h'.others place hplace (by simp)

theorem FirstRun.second_run {written : List String} (h : FirstRun base d written d') (hreliable : d'.Reliable)
    (hbase : d.isDirectory base = true) (hdefaults : d.isDirectory (base ++ ["defaults"]) = true) :
    ∃ d'', run base d' = (.ok [], d'') ∧ d''.entryAt? = d'.entryAt? := by
  have hkept : ∀ {place}, d.isDirectory place = true → d'.isDirectory place = true :=
    fun hplace => Disk.isDirectory_iff.mpr (h.kept _ _ (Disk.isDirectory_iff.mp hplace))
  have hconfig := Disk.isFile_of_directory h.directory
  obtain ⟨result, d'', hrun, hrunning⟩ := run_running (hkept hbase) (hkept hdefaults) hconfig
  obtain ⟨more, rfl, hfirst, -⟩ := hrunning.firstRun hreliable hconfig
  obtain ⟨rfl, hsame⟩ := h.second hfirst
  exact ⟨d'', hrun, hsame⟩

/-- Without defaults a run only looks whether there is a configuration. -/
theorem run_without_defaults (hdefaults : d.isDirectory (base ++ ["defaults"]) = false) :
    run base d = (if d.isDirectory (base ++ ["config"]) then .ok [] else .error .nothingThere, d) := by
  simp [run, hdefaults]

/-- On a device that does not fail, setting up a configuration from defaults gives a copy of each default that is
missing and changes nothing else, and doing it again changes nothing. Where there are no defaults, it succeeds exactly
if the directory of the configuration is there, and changes nothing. -/
theorem first_run_copies_missing_defaults {d : Disk} (hreliable : d.Reliable) (base : Place) :
    (d.isDirectory base = true → d.isDirectory (base ++ ["defaults"]) = true →
      d.isFile (base ++ ["config"]) = false → ∃ written d', run base d = (.ok written, d') ∧
        FirstRun base d written d' ∧ ∃ d'', run base d' = (.ok [], d'') ∧ d''.entryAt? = d'.entryAt?) ∧
    (d.isDirectory (base ++ ["defaults"]) = false → (run base d).2 = d ∧
      (∀ written, (run base d).1 = .ok written → written = []) ∧
      ((∃ written, (run base d).1 = .ok written) ↔ d.isDirectory (base ++ ["config"]) = true)) := by
  constructor
  · intro hbase hdefaults hconfig
    obtain ⟨result, d', hrun, hrunning⟩ := run_running hbase hdefaults hconfig
    obtain ⟨written, rfl, hfirst, hreliable'⟩ := hrunning.firstRun hreliable hconfig
    exact ⟨written, d', hrun, hfirst, hfirst.second_run hreliable' hbase hdefaults⟩
  · intro hdefaults
    rw [run_without_defaults hdefaults]
    split
    · next hconfig => simp [hconfig]
    · next hconfig => simp [hconfig]

/-- Of three defaults one is a template and one stands in the configuration, so only the third one is copied. -/
theorem first_run_copies_one_default :
    let d : Disk := ⟨[(["league"], .directory), (["league", "defaults"], .directory),
      (["league", "defaults", "draft.toml"], .file [50]), (["league", "defaults", "other.toml"], .file [51]),
      (["league", "defaults", "draft.toml.example"], .file [52]), (["league", "defaults", "old"], .directory),
      (["league", "config"], .directory), (["league", "config", "other.toml"], .file [53])], []⟩
    ∃ written d', run ["league"] d = (.ok written, d') ∧ FirstRun ["league"] d written d' ∧
      written = ["draft.toml"] ∧ ∃ d'', run ["league"] d' = (.ok [], d'') ∧ d''.entryAt? = d'.entryAt? := by
  intro d
  have hreliable : d.Reliable := by
    intro fault hfault
    cases hfault
  have hruns := (first_run_copies_missing_defaults hreliable ["league"]).1 (by decide) (by decide) (by decide)
  obtain ⟨written, d', hrun, hfirst, hagain⟩ := hruns
  refine ⟨written, d', hrun, hfirst, ?_, hagain⟩
  have hresult : (run ["league"] d).1 = .ok ["draft.toml"] := by cbv
  rw [hrun] at hresult
  exact Except.ok.inj hresult

end SnakeDraft.Setup
