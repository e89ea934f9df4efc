import SnakeDraft.Proofs.Config.FirstRun

/-!
Setting up a configuration on a device that fails. A file of the configuration is made before its default is read, and
nothing takes it away again when the reading or the writing fails. The next run finds it there and leaves it alone, so
that a failed run can be made good by another one exactly if the file left behind happens to be a whole copy
(`Setup.failed_setup_recovers_iff`).
-/

namespace SnakeDraft

/-- The name of the file that a failure leaves behind in the configuration. -/
def SetupError.leftOver? : SetupError → Option String
  | .cannotRead name _ | .cannotWrite name _ => some name
  | .nothingThere | .noDirectory _ | .noList _ | .cannotCreate .. => none

namespace Setup

variable {base : Place} {name : String} {content : List UInt8} {d d' : Disk} {e : SetupError}

/-- A default for which nothing stands in the configuration. -/
def Missing (d : Disk) (base : Place) (name : String) : Prop :=
  IsSource d base name ∧ d.entryAt? (configPlace base name) = none

/-- A place of the configuration is as it was, or nothing stands there, or a whole copy of the default. -/
def Intact (base : Place) (d d' : Disk) (name : String) : Prop :=
  d'.entryAt? (configPlace base name) = d.entryAt? (configPlace base name) ∨
    d'.entryAt? (configPlace base name) = none ∨
    d'.entryAt? (configPlace base name) = d.entryAt? (defaultPlace base name)

/-- A failed run can be made good: no file of the configuration is broken after it, and the next run on a device that
does not fail brings every default that was missing before. -/
structure Recovers (base : Place) (d d' : Disk) : Prop where
  intact : ∀ name, Intact base d d' name
  completed : ∃ written d'', run base { d' with faults := [] } = (.ok written, d'') ∧
    ∀ name, Missing d base name → d''.entryAt? (configPlace base name) = d.entryAt? (defaultPlace base name)

/-- A file left behind: the beginning of a default that was missing, and nothing of it if it could not be read. -/
structure LeftOver (base : Place) (d : Disk) (e : SetupError) (d' : Disk) (name : String) : Prop where
  missing : Missing d base name
  beginning : ∃ content left, d.entryAt? (defaultPlace base name) = some (.file content) ∧
    d'.entryAt? (configPlace base name) = some (.file left) ∧ left <+: content ∧
    ∀ cause, e = .cannotRead name cause → left = []

/-- What a failed run leaves behind. Apart from the file it was about to copy, it leaves whole copies of defaults that
were missing. -/
structure Left (base : Place) (d : Disk) (e : SetupError) (d' : Disk) : Prop where
  noFile : d'.isFile (base ++ ["config"]) = false
  others : ∀ place, place ≠ base ++ ["config"] → (∀ name, place ≠ configPlace base name) →
    d'.entryAt? place = d.entryAt? place
  copies : ∀ name, e.leftOver? ≠ some name →
    d'.entryAt? (configPlace base name) = d.entryAt? (configPlace base name) ∨
      Missing d base name ∧ d'.entryAt? (configPlace base name) = d.entryAt? (defaultPlace base name)
  leftOver : ∀ name, e.leftOver? = some name → LeftOver base d e d' name

/-- A copy that fails leaves no file behind, or the beginning of the default. -/
theorem Copying.left (h : Copying d base name content (.error e) d') :
    e.leftOver? = none ∧ d'.entryAt? = d.entryAt? ∨
      e.leftOver? = some name ∧ d.entryAt? (configPlace base name) = none ∧ ∃ left, left <+: content ∧
        d'.entryAt? = (d.put (configPlace base name) (.file left)).entryAt? ∧
        ∀ cause, e = .cannotRead name cause → left = [] := by
  cases h with
  | notCreated hsame _ => exact .inl ⟨rfl, hsame⟩
  | notRead habsent hleft _ => exact .inr ⟨rfl, habsent, [], List.nil_prefix, hleft, fun _ _ => rfl⟩
  | notWritten habsent hleft _ =>
    refine .inr ⟨rfl, habsent, _, List.take_prefix _ content, hleft, ?_⟩
    rintro cause ⟨⟩

theorem Copied.copies_or_same {names : List String} {start middle : Disk} (hprepared : Prepared base d start)
    (hsources : ∀ name ∈ names, IsSource d base name) (h : Copied base (absent start base names) start middle)
    (name : String) : middle.entryAt? (configPlace base name) = d.entryAt? (configPlace base name) ∨
      Missing d base name ∧ middle.entryAt? (configPlace base name) = d.entryAt? (defaultPlace base name) := by
  by_cases hname : name ∈ absent start base names
  · obtain ⟨hmem, habsent⟩ := mem_absent.mp hname
    rw [hprepared.config_eq] at habsent
    exact .inr ⟨⟨hsources name hmem, habsent⟩, by rw [h.copies name hname, hprepared.default_eq]⟩
  · exact .inl (by rw [h.config_eq hname, hprepared.config_eq])

theorem Running.left (h : Running base d (.error e) d') : Left base d e d' := by
  cases h with
  | notPrepared hearly hnoFile hothers hunreliable =>
    have hnone : e.leftOver? = none := by
      obtain ⟨cause, rfl | rfl⟩ := hearly <;> rfl
    constructor
    case noFile => exact hnoFile
    case others => exact fun place hplace _ => hothers place hplace
    case copies => exact fun name _ => .inl (hothers _ configDirectory_ne_configPlace.symm)
    case leftOver =>
      intro name hname
      rw [hnone] at hname
      cases hname
  | copying hprepared hreliable hascending hmem hcopies =>
    cases hcopies with
    | @failed done rest failing content middle _ _ hsplit hcopied hsource hfailure hunreliable =>
    subst hsplit
    have hsources : ∀ name ∈ done, IsSource d base name :=
      fun name hname => (hmem name).mp (List.mem_append_left _ hname)
    have hdirectory : middle.isDirectory (base ++ ["config"]) = true :=
      hcopied.directory_eq.trans hprepared.directory
    have hmiddle : ∀ place, place ≠ base ++ ["config"] → (∀ name, place ≠ configPlace base name) →
        middle.entryAt? place = d.entryAt? place := by
      intro place hplace hnew
      rw [hcopied.others place fun name _ => hnew name, hprepared.others place hplace]
    -- whole copies were made before the one that fails, and what that one leaves behind comes on top of them
    rcases hfailure.left with ⟨hnone, hsame⟩ | ⟨hsome, habsent, left, hprefix, hleft, hempty⟩
    · constructor
      case noFile =>
        rw [Disk.isFile_congr (congrFun hsame _)]
        exact Disk.isFile_of_directory hdirectory
      case others =>
        rw [hsame]
        exact hmiddle
      case copies =>
        rw [hsame]
        exact fun name _ => hcopied.copies_or_same hprepared hsources name
      case leftOver =>
        intro name hname
        rw [hnone] at hname
        cases hname
    · have hentry : ∀ place, d'.entryAt? place =
          if place = configPlace base failing then some (.file left) else middle.entryAt? place := by
        intro place
        rw [hleft, Disk.entryAt?_put (isAbove_configPlace base failing)]
      have hdefault : d.entryAt? (defaultPlace base failing) = some (.file content) := by
        rw [← hprepared.default_eq, hsource]
      constructor
      case noFile =>
        rw [Disk.isFile_congr ((hentry _).trans (if_neg configDirectory_ne_configPlace))]
        exact Disk.isFile_of_directory hdirectory
      case others =>
        intro place hplace hnew
        rw [hentry, if_neg (hnew failing)]
        exact hmiddle place hplace hnew
      case copies =>
        intro name hname
        have hother : configPlace base name ≠ configPlace base failing := by
          intro hsame
          rw [configPlace_inj.mp hsame] at hname
          exact hname hsome
        rw [hentry, if_neg hother]
        exact hcopied.copies_or_same hprepared hsources name
      case leftOver =>
        intro name hname
        rw [hsome] at hname
        obtain rfl := Option.some.inj hname
        have hnamed : IsSource d base failing :=
          (hmem failing).mp (List.mem_append_right _ List.mem_cons_self)
        refine ⟨⟨hnamed, ?_⟩, content, left, hdefault, by rw [hentry, if_pos rfl], hprefix, hempty⟩
        -- a copy made before would stand where this one was made
        rcases hcopied.copies_or_same hprepared hsources failing with hsame | ⟨⟨-, hbefore⟩, -⟩
        · rw [← hsame, habsent]
        · exact hbefore

section Recovery

variable (hbase : d.isDirectory base = true) (hdefaults : d.isDirectory (base ++ ["defaults"]) = true)
include hbase hdefaults

/-- The next run copies what is missing still, and keeps what the failed one left behind. -/
theorem Left.completed (hleft : Left base d e d') (hwhole : ∀ name, e.leftOver? = some name →
      d'.entryAt? (configPlace base name) = d.entryAt? (defaultPlace base name)) :
    ∃ written d'', run base { d' with faults := [] } = (.ok written, d'') ∧
      ∀ name, Missing d base name → d''.entryAt? (configPlace base name) = d.entryAt? (defaultPlace base name) := by
  have hkept : ∀ place, place ≠ base ++ ["config"] → (∀ name, place ≠ configPlace base name) →
      d.isDirectory place = true → Disk.isDirectory { d' with faults := [] } place = true :=
    fun place hplace hnew hdirectory => (Disk.isDirectory_congr (hleft.others place hplace hnew)).trans hdirectory
  have hbase' := hkept base (by simp) (by simp [configPlace]) hbase
  have hdefaults' := hkept (base ++ ["defaults"]) (by simp) (by simp [configPlace]) hdefaults
  obtain ⟨result, d'', hrun, hrunning⟩ := run_running hbase' hdefaults' hleft.noFile
  obtain ⟨written, rfl, hfirst, -⟩ := hrunning.firstRun (Disk.reliable_without_faults d') hleft.noFile
  refine ⟨written, d'', hrun, ?_⟩
  rintro name ⟨hsource, habsent⟩
  have hdefault : d'.entryAt? (defaultPlace base name) = d.entryAt? (defaultPlace base name) :=
    hleft.others _ configDirectory_ne_defaultPlace.symm fun _ => defaultPlace_ne_configPlace
  obtain ⟨content, hcontent⟩ := Disk.isFile_iff.mp hsource.1
  have hcopied : d'.entryAt? (configPlace base name) = d.entryAt? (defaultPlace base name) →
      d''.entryAt? (configPlace base name) = d.entryAt? (defaultPlace base name) := by
    rw [hcontent]
    exact hfirst.kept _ _
  by_cases hleftOver : e.leftOver? = some name
  · exact hcopied (hwhole name hleftOver)
  rcases hleft.copies name hleftOver with hsame | ⟨-, hcopy⟩
  · have hadded : name ∈ written :=
      (hfirst.mem_written name).mpr ⟨hsame.trans habsent, hfirst.complete name ((isSource_congr hdefault).mpr hsource)⟩
    obtain ⟨copy, hcopy, hnew⟩ := hfirst.identical name hadded
    rw [hnew, ← hdefault]
    exact hcopy.symm
  · exact hcopied hcopy

theorem Left.recovers_iff (hleft : Left base d e d') : Recovers base d d' ↔ ∀ name, e.leftOver? = some name →
    d'.entryAt? (configPlace base name) = d.entryAt? (defaultPlace base name) := by
  constructor
  · intro hrecovers name hname
    obtain ⟨⟨-, habsent⟩, content, left, -, hpresent, -⟩ := hleft.leftOver name hname
    rcases hrecovers.intact name with hsame | hnone | hwhole
    · rw [hpresent, habsent] at hsame
      cases hsame
    · rw [hpresent] at hnone
      cases hnone
    · exact hwhole
  · intro hwhole
    refine ⟨fun name => ?_, hleft.completed hbase hdefaults hwhole⟩
    by_cases hleftOver : e.leftOver? = some name
    · exact .inr (.inr (hwhole name hleftOver))
    · exact (hleft.copies name hleftOver).imp id fun hcopy => .inr hcopy.2

end Recovery

/-- A failed run over defaults leaves only whole copies behind, apart from the beginning of the default at which it
failed. It can be made good exactly if that beginning is the whole default. Where there are no defaults, or a file
stands in the way of the configuration, nothing changes. -/
theorem failed_setup_recovers_iff {base : Place} {d d' : Disk} {e : SetupError} (hbase : d.isDirectory base = true)
    (hfailed : run base d = (.error e, d')) :
    (d.isDirectory (base ++ ["defaults"]) = true → d.isFile (base ++ ["config"]) = false →
      (Recovers base d d' ↔ ∀ name, e.leftOver? = some name →
        d'.entryAt? (configPlace base name) = d.entryAt? (defaultPlace base name)) ∧ Left base d e d') ∧
    (d.isDirectory (base ++ ["defaults"]) = false ∨ d.isFile (base ++ ["config"]) = true →
      d'.entryAt? = d.entryAt?) := by
  constructor
  · intro hdefaults hconfig
    obtain ⟨result, last, hrun, hrunning⟩ := run_running hbase hdefaults hconfig
    rw [hrun] at hfailed
    obtain ⟨rfl, rfl⟩ := Prod.mk.inj hfailed
    exact ⟨hrunning.left.recovers_iff hbase hdefaults, hrunning.left⟩
  · intro hnothing
    have hsame : (run base d).2.entryAt? = d.entryAt? := by
      by_cases hdefaults : d.isDirectory (base ++ ["defaults"]) = true
      · obtain hmissing | hconfig := hnothing
        · rw [hdefaults] at hmissing
          cases hmissing
        · obtain ⟨cause, hensure⟩ := Disk.ensureDirectory_of_file hconfig
          simp only [run, hdefaults, hensure, Bool.not_true, Bool.false_eq_true, if_false]
          rfl
      · rw [run_without_defaults (Bool.not_eq_true _ ▸ hdefaults)]
    rw [hfailed] at hsame
    exact hsame

/-- The device has no room left for the second of two defaults: the first one is there, and another run brings the
second. -/
theorem uncreated_default_is_copied_again :
    let d : Disk := ⟨[(["league"], .directory), (["league", "defaults"], .directory),
      (["league", "defaults", "a.toml"], .file [50]), (["league", "defaults", "b.toml"], .file [51])],
      [none, none, none, none, none, some ⟨"No space left on device (os error 28)", 0⟩]⟩
    ∃ e d', run ["league"] d = (.error e, d') ∧ Recovers ["league"] d d' ∧ Left ["league"] d e d' := by
  intro d
  have hresult : (run ["league"] d).1 =
      .error (.cannotCreate "b.toml" (.device "No space left on device (os error 28)")) := by cbv
  have hfailed : run ["league"] d = (_, (run ["league"] d).2) := Prod.ext hresult rfl
  obtain ⟨hrecovers, hleft⟩ := (failed_setup_recovers_iff (by decide) hfailed).1 (by decide) (by decide)
  exact ⟨_, _, hfailed, hrecovers.mpr (by rintro name ⟨⟩), hleft⟩

/-- A default that could not be read is empty in the configuration from then on. -/
theorem unread_default_is_never_copied :
    let d : Disk := ⟨[(["league"], .directory), (["league", "defaults"], .directory),
      (["league", "defaults", "draft.toml"], .file [50])],
      [none, none, none, some ⟨"Permission denied (os error 13)", 0⟩]⟩
    ∃ d', run ["league"] d = (.error (.cannotRead "draft.toml" (.device "Permission denied (os error 13)")), d') ∧
      ¬ Recovers ["league"] d d' ∧ ∃ d'', run ["league"] { d' with faults := [] } = (.ok [], d'') ∧
        d''.entryAt? (configPlace ["league"] "draft.toml") = some (.file []) := by
  intro d
  have hresult : (run ["league"] d).1 =
      .error (.cannotRead "draft.toml" (.device "Permission denied (os error 13)")) := by cbv
  have hagain : (run ["league"] { (run ["league"] d).2 with faults := [] }).1 = .ok [] := by cbv
  have hempty : (run ["league"] { (run ["league"] d).2 with faults := [] }).2.entryAt?
      (configPlace ["league"] "draft.toml") = some (.file []) := by cbv
  refine ⟨_, Prod.ext hresult rfl, ?_, _, Prod.ext hagain rfl, hempty⟩
  rintro ⟨-, written, d'', hrun, hcopies⟩
  have hmissing : Missing d ["league"] "draft.toml" := by
    refine ⟨⟨by decide, ?_⟩, by decide⟩
    rw [← isTemplate_iff]
    decide
  have hcopy := hcopies "draft.toml" hmissing
  rw [hrun] at hempty
  rw [hempty] at hcopy
  revert hcopy
  decide

end Setup

end SnakeDraft
