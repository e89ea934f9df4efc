import Mathlib.Data.List.Forall2
import SnakeDraft.Board.Rows

/-!
Which records make a board. A record gives a row when it was read and has three fields, or four with a rank before
them (`Board.Legible`). Records are looked at before rows are: the first record that gives no row decides, whatever
stands in the rows before it, and only when all records give rows are these rows built into a board
(`Board.rowsOfRecords_append`). The rank is dropped, so it may be written before the fields of some records and left
out of others (`Board.Ranks`). What goes wrong in a reader, and how it is reported, is left open.
-/

namespace SnakeDraft

/-- The row has the line of the record, and its last three fields. -/
structure Csv.Record.Writes (record : Csv.Record) (row : Row) : Prop where
  line : row.line = record.line
  fields : [row.name, row.position, row.points] <:+ record.fields

namespace Board

variable {ε : Type} {report : ε → BoardError}

/-- A record was read and has the fields of a row, with or without a rank. -/
def Legible (r : Except ε Csv.Record) : Prop :=
  ∃ record, r = .ok record ∧ (record.fields.length = 3 ∨ record.fields.length = 4)

/-- The record that was read writes the row. -/
def Gives (r : Except ε Csv.Record) (row : Row) : Prop :=
  ∃ record, r = .ok record ∧ record.Writes row

/-- What is reported of a record that gives no row. -/
def errorOfRecord (report : ε → BoardError) : Except ε Csv.Record → BoardError
  | .error e => report e
  | .ok record => .malformedRow record.line (.fieldCount record.fields.length)

/-- The second record is the first one, or has a rank before its three fields. -/
inductive Ranks : Except ε Csv.Record → Except ε Csv.Record → Prop where
  | same (r : Except ε Csv.Record) : Ranks r r
  | ranked {record : Csv.Record} (rank : String) (hfields : record.fields.length = 3) :
      Ranks (.ok record) (.ok { record with fields := rank :: record.fields })

theorem rowOfRecord_of_three (line : Nat) (name position points : String) :
    rowOfRecord ⟨line, [name, position, points]⟩ = .ok ⟨line, name, position, points⟩ := rfl

theorem rowOfRecord_of_four (line : Nat) (rank name position points : String) :
    rowOfRecord ⟨line, [rank, name, position, points]⟩ = .ok ⟨line, name, position, points⟩ := rfl

theorem rowOfRecord_of_fields {record : Csv.Record}
    (h : record.fields.length = 3 ∨ record.fields.length = 4) :
    ∃ row, rowOfRecord record = .ok row ∧ record.Writes row := by
  obtain ⟨line, fields⟩ := record
  rcases h with h | h
  · obtain ⟨name, position, points, rfl⟩ := List.length_eq_three.mp h
    exact ⟨_, rowOfRecord_of_three line name position points, rfl, List.suffix_refl _⟩
  · obtain ⟨rank, rest, rfl⟩ := List.exists_cons_of_length_eq_add_one h
    obtain ⟨name, position, points, rfl⟩ := List.length_eq_three.mp (Nat.succ.inj h)
    exact ⟨_, rowOfRecord_of_four line rank name position points, rfl, List.suffix_cons _ _⟩

theorem rowOfRecord_of_other {record : Csv.Record}
    (h : ¬ (record.fields.length = 3 ∨ record.fields.length = 4)) :
    rowOfRecord record = .error (.malformedRow record.line (.fieldCount record.fields.length)) := by
  unfold rowOfRecord
  split
  · next hthree => simp [hthree] at h
  · next hfour => simp [hfour] at h
  · rfl

/-- A rank before three fields changes nothing. -/
theorem rowOfRecord_ranked {record : Csv.Record} (rank : String) (h : record.fields.length = 3) :
    rowOfRecord { record with fields := rank :: record.fields } = rowOfRecord record := by
  obtain ⟨line, fields⟩ := record
  obtain ⟨name, position, points, rfl⟩ := List.length_eq_three.mp h
  rw [rowOfRecord_of_three]
  exact rowOfRecord_of_four line rank name position points

/-- Records that give rows give them in their order, and the records after them decide the rest. -/
theorem rowsOfRecords_append (report : ε → BoardError) {before : List (Except ε Csv.Record)}
    (hbefore : ∀ r ∈ before, Legible r) :
    ∃ rows, List.Forall₂ Gives before rows ∧
      ∀ rest, rowsOfRecords report (before ++ rest) = (rowsOfRecords report rest).map (rows ++ ·) := by
  induction before with
  | nil =>
    refine ⟨[], .nil, fun rest => ?_⟩
    cases h : rowsOfRecords report rest <;> simp [h, Except.map]
  | cons r before ih =>
    obtain ⟨⟨record, rfl, hfields⟩, hlater⟩ := List.forall_mem_cons.mp hbefore
    obtain ⟨row, hrow, hwrites⟩ := rowOfRecord_of_fields hfields
    obtain ⟨rows, hgives, hrest⟩ := ih hlater
    refine ⟨row :: rows, .cons ⟨record, rfl, hwrites⟩ hgives, fun rest => ?_⟩
    rw [List.cons_append, rowsOfRecords, hrow]
    simp only [hrest]
    cases rowsOfRecords report rest <;> rfl

/-- A record that gives no row stops the reading. -/
theorem rowsOfRecords_cons_of_not_legible {first : Except ε Csv.Record} (hfirst : ¬ Legible first)
    (rest : List (Except ε Csv.Record)) :
    rowsOfRecords report (first :: rest) = .error (errorOfRecord report first) := by
  cases first with
  | error e => rfl
  | ok record =>
    have hother : ¬ (record.fields.length = 3 ∨ record.fields.length = 4) :=
      fun hfields => hfirst ⟨record, rfl, hfields⟩
    rw [rowsOfRecords, rowOfRecord_of_other hother]
    rfl

theorem rowsOfRecords_cons_of_ranks {r r' : Except ε Csv.Record} (h : Ranks r r')
    {rest rest' : List (Except ε Csv.Record)} (hrest : rowsOfRecords report rest' = rowsOfRecords report rest) :
    rowsOfRecords report (r' :: rest') = rowsOfRecords report (r :: rest) := by
  cases h with
  | same =>
    cases r with
    | error e => rfl
    | ok record => rw [rowsOfRecords, rowsOfRecords, hrest]
  | ranked rank hfields => rw [rowsOfRecords, rowsOfRecords, rowOfRecord_ranked rank hfields, hrest]

theorem rowsOfRecords_of_ranks {records others : List (Except ε Csv.Record)}
    (h : List.Forall₂ Ranks records others) :
    rowsOfRecords report others = rowsOfRecords report records := by
  induction h with
  | nil => rfl
  | cons hfirst _ ih => exact rowsOfRecords_cons_of_ranks hfirst ih

/-- The first record that cannot be read or has a wrong number of fields is reported, whatever the rows before it are
like. Without one, the board is that of the rows in the last three fields of the records. A rank before the fields of
some records changes neither. -/
theorem records_make_board (report : ε → BoardError) (records : List (Except ε Csv.Record)) :
    (∀ before first after, records = before ++ first :: after → (∀ r ∈ before, Legible r) → ¬ Legible first →
      ofRecords report records = .error (errorOfRecord report first)) ∧
    ((∀ r ∈ records, Legible r) →
      ∃ rows, List.Forall₂ Gives records rows ∧ ofRecords report records = ofRows rows) ∧
    ∀ others, List.Forall₂ Ranks records others → ofRecords report others = ofRecords report records := by
  refine ⟨?_, ?_, ?_⟩
  · rintro before first after rfl hbefore hfirst
    obtain ⟨rows, -, hrest⟩ := rowsOfRecords_append report hbefore
    unfold ofRecords
    rw [hrest, rowsOfRecords_cons_of_not_legible hfirst]
    rfl
  · intro hall
    obtain ⟨rows, hgives, hrest⟩ := rowsOfRecords_append report hall
    have hrows := hrest []
    rw [List.append_nil, rowsOfRecords] at hrows
    refine ⟨rows, hgives, ?_⟩
    unfold ofRecords
    rw [hrows]
    simp [Except.map]
  · intro others hranks
    unfold ofRecords
    rw [rowsOfRecords_of_ranks hranks]

/-- A record with two fields is reported although the row above it has neither a name nor points. -/
theorem short_record_is_reported :
    let records : List (Except Csv.EncodingError Csv.Record) :=
      [.ok ⟨1, ["1", "", "QB", "many"]⟩, .ok ⟨2, ["RB B", "RB"]⟩, .ok ⟨3, ["QB A", "QB", "10"]⟩]
    (∀ r ∈ records.take 1, Legible r) ∧ ¬ Legible records[1] ∧
      ofRecords (.badEncoding "board.csv") records = .error (.malformedRow 2 (.fieldCount 2)) := by
  intro records
  have habove : ∀ r ∈ records.take 1, Legible r :=
    List.forall_mem_singleton.mpr ⟨_, rfl, .inr rfl⟩
  have hshort : ¬ Legible records[1] := by
    rintro ⟨record, hread, hfields⟩
    cases hread
    simp at hfields
  exact ⟨habove, hshort, (records_make_board _ records).1 (records.take 1) records[1] (records.drop 2) rfl habove hshort⟩

end Board

end SnakeDraft
