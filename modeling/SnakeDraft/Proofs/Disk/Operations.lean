import SnakeDraft.Disk.Basic

/-!
What the operations of a disk do to its entries. Each of them fails because the device does and then says so, or it
does what its name says; a device that is reliable (`Disk.Reliable`) never fails. What a disk holds is told by
`Disk.entryAt?`, so that the order of its entries and those that are hidden do not matter.
-/

namespace SnakeDraft.Disk

/-- The device fails in none of the operations to come. -/
def Reliable (d : Disk) : Prop :=
  ∀ fault ∈ d.faults, fault = none

variable {d : Disk} {place : Place} {fault : Fault}

theorem Reliable.nextFault? (h : d.Reliable) : d.nextFault? = none := by
  unfold Disk.nextFault?
  cases hfaults : d.faults with
  | nil => rfl
  | cons first rest =>
    rw [h first (by rw [hfaults]; exact List.mem_cons_self)]
    rfl

theorem not_reliable_of_fault (h : d.nextFault? = some fault) : ¬ d.Reliable := by
  intro hreliable
  rw [hreliable.nextFault?] at h
  cases h

theorem Reliable.afterOperation (h : d.Reliable) : d.afterOperation.Reliable :=
  fun fault hfault => h fault (List.mem_of_mem_tail hfault)

theorem Reliable.put (h : d.Reliable) (entry : Entry) : (d.put place entry).Reliable := h

theorem reliable_without_faults (d : Disk) : Reliable { d with faults := [] } := by
  intro fault hfault
  cases hfault

theorem isDirectory_iff : d.isDirectory place = true ↔ d.entryAt? place = some .directory :=
  beq_iff_eq

theorem isFile_iff : d.isFile place = true ↔ ∃ content, d.entryAt? place = some (.file content) := by
  unfold isFile
  split
  · next content hentry => exact iff_of_true rfl ⟨content, hentry⟩
  · next hother =>
    refine iff_of_false Bool.false_ne_true ?_
    rintro ⟨content, hentry⟩
    exact hother content hentry

theorem isFile_of_directory (h : d.isDirectory place = true) : d.isFile place = false := by
  unfold isFile
  rw [isDirectory_iff.mp h]

theorem isFile_congr {d' : Disk} (h : d'.entryAt? place = d.entryAt? place) : d'.isFile place = d.isFile place := by
  unfold isFile
  rw [h]

theorem isDirectory_congr {d' : Disk} (h : d'.entryAt? place = d.entryAt? place) :
    d'.isDirectory place = d.isDirectory place := by
  unfold isDirectory
  rw [h]

/-- A place below another one by a name is not above all entries. -/
theorem isAbove_append_false {name : String} (hname : name ≠ "/" ∧ name ≠ "..") {before after : Place} :
    Place.isAbove (before ++ name :: after) = false := by
  simp [Place.isAbove, hname]

theorem attempt_of_fault {α : Type} (h : d.nextFault? = some fault) (operation : Disk → Except DiskError α × Disk) :
    d.attempt operation = (.error (.device fault.report), d.afterOperation) := by
  unfold attempt
  rw [h]

theorem attempt_of_none {α : Type} (h : d.nextFault? = none) (operation : Disk → Except DiskError α × Disk) :
    d.attempt operation = operation d.afterOperation := by
  unfold attempt
  rw [h]

/-- Making a directory where no file stands, inside one that is there: afterwards it is there. -/
theorem ensureDirectory_cases (habove : place.isAbove = false) (hparent : d.isDirectory place.dropLast = true)
    (hfile : d.isFile place = false) :
    (∃ fault, d.nextFault? = some fault ∧
      d.ensureDirectory place = (.error (.device fault.report), d.afterOperation)) ∨
    d.nextFault? = none ∧ ∃ d', d.ensureDirectory place = (.ok (), d') ∧ d'.faults = d.faults.tail ∧
      d'.entryAt? = (d.put place .directory).entryAt? := by
  cases hfault : d.nextFault? with
  | some fault => exact .inl ⟨fault, rfl, attempt_of_fault hfault _⟩
  | none =>
    refine .inr ⟨rfl, ?_⟩
    unfold ensureDirectory
    rw [attempt_of_none hfault]
    unfold addDirectory
    rw [isDirectory_congr (entryAt?_afterOperation d place.dropLast), hparent, entryAt?_afterOperation]
    cases hentry : d.entryAt? place with
    | none => exact ⟨_, rfl, rfl, rfl⟩
    | some entry =>
      cases entry with
      | file content =>
        rw [isFile_iff.mpr ⟨content, hentry⟩] at hfile
        cases hfile
      | directory =>
        refine ⟨d.afterOperation, ?_, rfl, funext fun other => ?_⟩
        · have hdirectory : d.afterOperation.isDirectory place = true := isDirectory_iff.mpr hentry
          simp [hdirectory]
        · rw [entryAt?_put habove]
          split
          · next hsame => rw [hsame, entryAt?_afterOperation, hentry]
          · rfl

theorem ensureDirectory_of_file (hfile : d.isFile place = true) :
    ∃ cause, d.ensureDirectory place = (.error cause, d.afterOperation) := by
  obtain ⟨content, hentry⟩ := isFile_iff.mp hfile
  cases hfault : d.nextFault? with
  | some fault => exact ⟨_, attempt_of_fault hfault _⟩
  | none =>
    unfold ensureDirectory
    rw [attempt_of_none hfault]
    simp [addDirectory, isDirectory, hentry]

theorem list_of_fault (h : d.nextFault? = some fault) :
    d.list place = (.error (.device fault.report), d.afterOperation) :=
  attempt_of_fault h _

theorem list_of_directory (h : d.nextFault? = none) (hdirectory : d.isDirectory place = true) :
    d.list place = (.ok (d.names place), d.afterOperation) := by
  unfold list
  rw [attempt_of_none h]
  simp only [entryAt?_afterOperation, isDirectory_iff.mp hdirectory]
  rfl

theorem create_of_fault (h : d.nextFault? = some fault) :
    d.create place = (.error (.device fault.report), d.afterOperation) :=
  attempt_of_fault h _

theorem create_of_present (h : d.nextFault? = none) (hpresent : (d.entryAt? place).isSome = true) :
    d.create place = (.error .alreadyExists, d.afterOperation) := by
  obtain ⟨entry, hentry⟩ := Option.isSome_iff_exists.mp hpresent
  unfold create
  rw [attempt_of_none h]
  simp only [entryAt?_afterOperation, hentry]

theorem create_of_absent (h : d.nextFault? = none) (habsent : d.entryAt? place = none)
    (hparent : d.isDirectory place.dropLast = true) :
    d.create place = (.ok (), d.afterOperation.put place (.file [])) := by
  unfold create
  rw [attempt_of_none h]
  have hparent' : d.afterOperation.isDirectory place.dropLast = true := hparent
  simp only [entryAt?_afterOperation, habsent, hparent', if_pos]

theorem read_of_fault (h : d.nextFault? = some fault) :
    d.read place = (.error (.device fault.report), d.afterOperation) :=
  attempt_of_fault h _

theorem read_of_file {content : List UInt8} (h : d.nextFault? = none)
    (hfile : d.entryAt? place = some (.file content)) : d.read place = (.ok content, d.afterOperation) := by
  unfold read
  rw [attempt_of_none h]
  simp only [entryAt?_afterOperation, hfile]

theorem write_of_fault (h : d.nextFault? = some fault) (content : List UInt8) :
    d.write place content =
      (.error (.device fault.report), d.afterOperation.put place (.file (content.take fault.written))) := by
  unfold write
  rw [h]

theorem write_of_none (h : d.nextFault? = none) (content : List UInt8) :
    d.write place content = (.ok (), d.afterOperation.put place (.file content)) := by
  unfold write
  rw [h]

theorem entryAt?_put_put (d : Disk) (place : Place) (first second : Entry) :
    ((d.put place first).put place second).entryAt? = (d.put place second).entryAt? := by
  funext other
  unfold entryAt?
  split
  · rfl
  · simp only [put, List.lookup_cons]
    split <;> rfl

theorem mem_entries_iff (habove : place.isAbove = false) :
    place ∈ d.entries.map (·.1) ↔ (d.entryAt? place).isSome = true := by
  unfold entryAt?
  rw [habove, if_neg Bool.false_ne_true, List.mem_map]
  induction d.entries with
  | nil => simp
  | cons entry entries ih =>
    rw [List.lookup_cons]
    by_cases hsame : place = entry.1
    · simp [hsame]
    · have hdiffers : (place == entry.1) = false := by simpa using hsame
      have hother : ¬ entry.1 = place := fun heq => hsame heq.symm
      simp only [List.mem_cons, exists_eq_or_imp, hother, false_or, hdiffers, ih]

/-- The names in a directory are those of the entries below it. -/
theorem mem_names_iff {directory : Place} {name : String} (habove : Place.isAbove (directory ++ [name]) = false) :
    name ∈ d.names directory ↔ (d.entryAt? (directory ++ [name])).isSome = true := by
  unfold names
  rw [List.mem_eraseDups, List.mem_filterMap, ← mem_entries_iff habove, List.mem_map]
  apply exists_congr
  intro entry
  apply and_congr_right
  intro _
  unfold nameIn?
  constructor
  · intro hname
    split at hname
    · next hlast =>
      obtain ⟨before, hplace⟩ := List.getLast?_eq_some_iff.mp hname
      rw [hplace, List.dropLast_concat] at hlast
      rw [hplace, hlast]
    · cases hname
  · intro hplace
    rw [hplace, List.dropLast_concat, if_pos rfl, List.getLast?_concat]

end SnakeDraft.Disk
