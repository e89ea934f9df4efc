import SnakeDraft.Config.Setup
import SnakeDraft.Proofs.Disk.Operations
import SnakeDraft.Proofs.Sorting

/-!
Copying defaults into a configuration. `Setup.copyDefault_copying` lists all that one copy can do. A list of defaults
is copied up to the first failure (`Setup.copyDefaults_copying`): what is copied before it is copied whole, where nothing
stood, and what stood there stays (`Setup.Copied`).
-/

namespace SnakeDraft.Setup

variable {base : Place} {name other : String} {content : List UInt8} {d d' : Disk}

theorem configPlace_eq (base : Place) (name : String) : configPlace base name = (base ++ ["config"]) ++ [name] := by
  rw [configPlace, List.append_assoc, List.singleton_append]

theorem defaultPlace_eq (base : Place) (name : String) :
    defaultPlace base name = (base ++ ["defaults"]) ++ [name] := by
  rw [defaultPlace, List.append_assoc, List.singleton_append]

theorem dropLast_configPlace (base : Place) (name : String) : (configPlace base name).dropLast = base ++ ["config"] := by
  rw [configPlace_eq, List.dropLast_concat]

theorem isAbove_configPlace (base : Place) (name : String) : (configPlace base name).isAbove = false :=
  Disk.isAbove_append_false (by decide)

theorem isAbove_defaultPlace (base : Place) (name : String) : (defaultPlace base name).isAbove = false :=
  Disk.isAbove_append_false (by decide)

theorem configPlace_inj : configPlace base name = configPlace base other ↔ name = other := by
  simp [configPlace]

theorem defaultPlace_ne_configPlace : defaultPlace base name ≠ configPlace base other := by
  simp [configPlace, defaultPlace]

theorem configDirectory_ne_configPlace : base ++ ["config"] ≠ configPlace base name := by
  simp [configPlace]

theorem configDirectory_ne_defaultPlace : base ++ ["config"] ≠ defaultPlace base name := by
  simp [defaultPlace]

/-- What copying one default can do. The device says why a copy fails, and what a failed copy leaves behind is known
from the step at which it failed. -/
inductive Copying (d : Disk) (base : Place) (name : String) (content : List UInt8) :
    Except SetupError Bool → Disk → Prop where
  /-- Something of the name stands in the configuration. -/
  | kept {d' : Disk} (present : (d.entryAt? (configPlace base name)).isSome = true)
      (same : d'.entryAt? = d.entryAt?) (reliable : d.Reliable → d'.Reliable) :
      Copying d base name content (.ok false) d'
  | copied {d' : Disk} (absent : d.entryAt? (configPlace base name) = none)
      (new : d'.entryAt? = (d.put (configPlace base name) (.file content)).entryAt?)
      (reliable : d.Reliable → d'.Reliable) : Copying d base name content (.ok true) d'
  | notCreated {d' : Disk} {report : String} (same : d'.entryAt? = d.entryAt?) (unreliable : ¬ d.Reliable) :
      Copying d base name content (.error (.cannotCreate name (.device report))) d'
  | notRead {d' : Disk} {report : String} (absent : d.entryAt? (configPlace base name) = none)
      (left : d'.entryAt? = (d.put (configPlace base name) (.file [])).entryAt?) (unreliable : ¬ d.Reliable) :
      Copying d base name content (.error (.cannotRead name (.device report))) d'
  | notWritten {d' : Disk} {report : String} {written : Nat} (absent : d.entryAt? (configPlace base name) = none)
      (left : d'.entryAt? = (d.put (configPlace base name) (.file (content.take written))).entryAt?)
      (unreliable : ¬ d.Reliable) : Copying d base name content (.error (.cannotWrite name (.device report))) d'

theorem copyDefault_copying (hconfig : d.isDirectory (base ++ ["config"]) = true)
    (hdefault : d.entryAt? (defaultPlace base name) = some (.file content)) :
    ∃ result d', copyDefault base name d = (result, d') ∧ Copying d base name content result d' := by
  have hparent : d.isDirectory (configPlace base name).dropLast = true := by
    rw [dropLast_configPlace]
    exact hconfig
  cases hfault : d.nextFault? with
  | some fault =>
    have hcreate : d.create (configPlace base name) = _ := Disk.create_of_fault hfault
    have hcopy : copyDefault base name d =
        (.error (.cannotCreate name (.device fault.report)), d.afterOperation) := by
      simp only [copyDefault, hcreate]
    exact ⟨_, _, hcopy, .notCreated rfl (Disk.not_reliable_of_fault hfault)⟩
  | none =>
  cases hentry : d.entryAt? (configPlace base name) with
  | some entry =>
    have hpresent : (d.entryAt? (configPlace base name)).isSome = true := by rw [hentry]; rfl
    have hcreate := Disk.create_of_present hfault hpresent
    have hcopy : copyDefault base name d = (.ok false, d.afterOperation) := by
      simp only [copyDefault, hcreate]
    exact ⟨_, _, hcopy, .kept hpresent rfl Disk.Reliable.afterOperation⟩
  | none =>
  have hcreate := Disk.create_of_absent hfault hentry hparent
  obtain ⟨created, hcreated⟩ : ∃ created, created = d.afterOperation.put (configPlace base name) (.file []) := ⟨_, rfl⟩
  rw [← hcreated] at hcreate
  have hreliable : d.Reliable → created.Reliable := fun h => hcreated ▸ h.afterOperation.put _
  have hempty : created.entryAt? = (d.put (configPlace base name) (.file [])).entryAt? := by rw [hcreated]; rfl
  -- from here on an empty file stands in the configuration, whether or not the rest succeeds
  have hsource : created.entryAt? (defaultPlace base name) = some (.file content) := by
    rw [hempty, Disk.entryAt?_put (isAbove_configPlace base name), if_neg defaultPlace_ne_configPlace]
    exact hdefault
  cases hfault' : created.nextFault? with
  | some fault =>
    have hread : created.read (defaultPlace base name) = _ := Disk.read_of_fault hfault'
    have hcopy : copyDefault base name d =
        (.error (.cannotRead name (.device fault.report)), created.afterOperation) := by
      simp only [copyDefault, hcreate, hread]
    exact ⟨_, _, hcopy, .notRead hentry hempty (mt hreliable (Disk.not_reliable_of_fault hfault'))⟩
  | none =>
  have hread := Disk.read_of_file hfault' hsource
  have hwritten : ∀ bytes, (created.afterOperation.afterOperation.put (configPlace base name) (.file bytes)).entryAt? =
      (d.put (configPlace base name) (.file bytes)).entryAt? := by
    intro bytes
    rw [hcreated]
    exact Disk.entryAt?_put_put d (configPlace base name) (.file []) (.file bytes)
  cases hfault'' : created.afterOperation.nextFault? with
  | some fault =>
    have hwrite : created.afterOperation.write (configPlace base name) content = _ :=
      Disk.write_of_fault hfault'' content
    have hcopy : copyDefault base name d = (.error (.cannotWrite name (.device fault.report)),
        created.afterOperation.afterOperation.put (configPlace base name) (.file (content.take fault.written))) := by
      simp only [copyDefault, hcreate, hread, hwrite]
    refine ⟨_, _, hcopy, .notWritten hentry (hwritten _) ?_⟩
    exact mt (fun h => (hreliable h).afterOperation) (Disk.not_reliable_of_fault hfault'')
  | none =>
    have hwrite : created.afterOperation.write (configPlace base name) content = _ :=
      Disk.write_of_none hfault'' content
    have hcopy : copyDefault base name d =
        (.ok true, created.afterOperation.afterOperation.put (configPlace base name) (.file content)) := by
      simp only [copyDefault, hcreate, hread, hwrite]
    refine ⟨_, _, hcopy, .copied hentry (hwritten content) fun h => ?_⟩
    exact (hreliable h).afterOperation.afterOperation.put _

/-- A disk is another one with copies of some defaults added. -/
structure Copied (base : Place) (written : List String) (d d' : Disk) : Prop where
  copies : ∀ name ∈ written, d'.entryAt? (configPlace base name) = d.entryAt? (defaultPlace base name)
  others : ∀ place, (∀ name ∈ written, place ≠ configPlace base name) → d'.entryAt? place = d.entryAt? place

namespace Copied

variable {written : List String} {d'' : Disk}

theorem of_same (h : d'.entryAt? = d.entryAt?) : Copied base [] d d' where
  copies := by simp
  others place _ := congrFun h place

theorem of_copy (hdefault : d.entryAt? (defaultPlace base name) = some (.file content))
    (hnew : d'.entryAt? = (d.put (configPlace base name) (.file content)).entryAt?) : Copied base [name] d d' where
  copies := by
    intro copy hcopy
    rw [List.mem_singleton.mp hcopy, hnew, hdefault, Disk.entryAt?_put (isAbove_configPlace base name), if_pos rfl]
  others := by
    intro place hplace
    rw [hnew, Disk.entryAt?_put (isAbove_configPlace base name), if_neg (hplace name List.mem_cons_self)]

/-- Copying never touches the defaults. -/
theorem default_eq (h : Copied base written d d') (name : String) :
    d'.entryAt? (defaultPlace base name) = d.entryAt? (defaultPlace base name) :=
  h.others _ fun _ _ => defaultPlace_ne_configPlace

theorem config_eq (h : Copied base written d d') (hname : name ∉ written) :
    d'.entryAt? (configPlace base name) = d.entryAt? (configPlace base name) := by
  apply h.others
  intro copy hcopy hsame
  rw [configPlace_inj.mp hsame] at hname
  exact hname hcopy

theorem directory_eq (h : Copied base written d d') :
    d'.isDirectory (base ++ ["config"]) = d.isDirectory (base ++ ["config"]) :=
  Disk.isDirectory_congr (h.others _ fun _ _ => configDirectory_ne_configPlace)

theorem trans {more : List String} (h : Copied base written d d') (h' : Copied base more d' d'')
    (hdisjoint : ∀ name ∈ written, name ∉ more) : Copied base (written ++ more) d d'' where
  copies := by
    intro name hname
    rcases List.mem_append.mp hname with hname | hname
    · rw [h'.config_eq (hdisjoint name hname), h.copies name hname]
    · rw [h'.copies name hname, h.default_eq]
  others := by
    intro place hplace
    rw [h'.others place fun name hname => hplace name (List.mem_append_right _ hname),
      h.others place fun name hname => hplace name (List.mem_append_left _ hname)]

end Copied

/-- The names for which nothing stands in the configuration. -/
def absent (d : Disk) (base : Place) (names : List String) : List String :=
  names.filter fun name => (d.entryAt? (configPlace base name)).isNone

theorem mem_absent {names : List String} :
    name ∈ absent d base names ↔ name ∈ names ∧ d.entryAt? (configPlace base name) = none := by
  rw [absent, List.mem_filter, Option.isNone_iff_eq_none]

theorem Copied.disjoint_absent {names : List String} (h : Copied base (absent d base [name]) d d')
    (hname : name ∉ names) : (∀ other ∈ absent d base [name], other ∉ absent d' base names) ∧
      absent d base (name :: names) = absent d base [name] ++ absent d' base names := by
  have hfirst : ∀ other ∈ absent d base [name], other = name :=
    fun other hother => List.mem_singleton.mp (mem_absent.mp hother).1
  constructor
  · intro other hother hmem
    rw [hfirst other hother] at hmem
    exact hname (mem_absent.mp hmem).1
  · have hrest : absent d' base names = absent d base names := by
      apply List.filter_congr
      intro other hother
      rw [h.config_eq]
      intro hmem
      rw [hfirst other hmem] at hother
      exact hname hother
    rw [hrest]
    exact List.filter_append [name] names

/-- What copying some defaults one after the other can do: it ends with all those copied for which nothing stood in the
configuration, or it ends at the first copy that fails. -/
inductive CopyingAll (base : Place) (names : List String) (d : Disk) :
    Except SetupError (List String) → Disk → Prop where
  | copied {d' : Disk} (copied : Copied base (absent d base names) d d') (reliable : d.Reliable → d'.Reliable) :
      CopyingAll base names d (.ok (absent d base names)) d'
  | failed {done rest : List String} {name : String} {content : List UInt8} {middle d' : Disk} {e : SetupError}
      (split : names = done ++ name :: rest) (copied : Copied base (absent d base done) d middle)
      (source : d.entryAt? (defaultPlace base name) = some (.file content))
      (failure : Copying middle base name content (.error e) d') (unreliable : ¬ d.Reliable) :
      CopyingAll base names d (.error e) d'

/-- A copy that succeeds goes before the copies of other defaults. -/
theorem CopyingAll.cons {names : List String} {middle : Disk} {result : Except SetupError (List String)}
    (hname : name ∉ names) (hcopied : Copied base (absent d base [name]) d middle)
    (hreliable : d.Reliable → middle.Reliable) (h : CopyingAll base names middle result d') :
    CopyingAll base (name :: names) d (result.map (absent d base [name] ++ ·)) d' := by
  cases h with
  | copied hrest hreliable' =>
    obtain ⟨hdisjoint, hlist⟩ := hcopied.disjoint_absent hname
    have hall := hcopied.trans hrest hdisjoint
    rw [← hlist] at hall
    show CopyingAll base (name :: names) d (.ok (absent d base [name] ++ absent middle base names)) d'
    rw [← hlist]
    exact .copied hall fun h => hreliable' (hreliable h)
  | failed hsplit hrest hsource hfailure hunreliable =>
    subst hsplit
    obtain ⟨hdisjoint, hlist⟩ := hcopied.disjoint_absent fun hdone => hname (List.mem_append_left _ hdone)
    have hall := hcopied.trans hrest hdisjoint
    rw [← hlist] at hall
    refine .failed rfl hall ?_ hfailure fun h => hunreliable (hreliable h)
    rw [← hcopied.default_eq]
    exact hsource

theorem copyDefaults_copying {names : List String} (hnames : names.Nodup)
    (hconfig : d.isDirectory (base ++ ["config"]) = true)
    (hdefaults : ∀ name ∈ names, d.isFile (defaultPlace base name) = true) :
    ∃ result d', copyDefaults base names d = (result, d') ∧ CopyingAll base names d result d' := by
  induction names generalizing d with
  | nil => exact ⟨_, d, rfl, .copied (.of_same rfl) id⟩
  | cons name names ih =>
    obtain ⟨hfresh, hnodup⟩ := List.nodup_cons.mp hnames
    obtain ⟨content, hdefault⟩ := Disk.isFile_iff.mp (hdefaults name List.mem_cons_self)
    obtain ⟨first, next, hcopy, hcopying⟩ := copyDefault_copying hconfig hdefault
    cases first with
    | error e =>
      refine ⟨.error e, next, by simp only [copyDefaults, hcopy], ?_⟩
      have hnothing : Copied base (absent d base []) d d := .of_same rfl
      refine .failed rfl hnothing hdefault hcopying ?_
      cases hcopying <;> assumption
    | ok added =>
      have hone : Copied base (absent d base [name]) d next ∧ (d.Reliable → next.Reliable) ∧
          absent d base [name] = (if added then [name] else []) := by
        cases hcopying with
        | kept hpresent hsame hreliable =>
          have hnone : absent d base [name] = [] := by simp [absent, Option.isSome_iff_ne_none.mp hpresent]
          rw [hnone]
          exact ⟨.of_same hsame, hreliable, rfl⟩
        | copied habsent hnew hreliable =>
          have hsome : absent d base [name] = [name] := by simp [absent, habsent]
          rw [hsome]
          exact ⟨.of_copy hdefault hnew, hreliable, rfl⟩
      obtain ⟨hcopied, hreliable, hadded⟩ := hone
      have hrest : ∀ other ∈ names, next.isFile (defaultPlace base other) = true := by
        intro other hother
        rw [Disk.isFile_congr (hcopied.default_eq other)]
        exact hdefaults other (List.mem_cons_of_mem _ hother)
      obtain ⟨result, d', hrun, hcopies⟩ := ih hnodup (hcopied.directory_eq.trans hconfig) hrest
      refine ⟨_, d', ?_, hcopies.cons hfresh hcopied hreliable⟩
      rw [hadded]
      cases result <;> cases added <;> simp [copyDefaults, hcopy, hrun, Except.map]

end SnakeDraft.Setup
