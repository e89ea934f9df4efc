import SnakeDraft.Text.Blank
import SnakeDraft.Text.Utf8

/-!
Comma-separated records. A record is a line of fields; blank lines between records are skipped, and a
line ends with a line feed, a carriage return or both. A field that starts with a quote runs to the
closing quote, in it two quotes stand for one, and what follows the closing quote up to the comma
belongs to the field as well. `Csv.read` gives the records in order, each with the line where the
search for it started, or with the error that it is not UTF-8.
-/

namespace SnakeDraft.Csv

def comma : UInt8 := 44
def quote : UInt8 := 34
def lineFeed : UInt8 := 10
def carriageReturn : UInt8 := 13

/-- Whether a byte ends a line. -/
def endsLine (b : UInt8) : Bool :=
  b == lineFeed || b == carriageReturn

/-- Whether a byte belongs to a field without quotes. -/
def inField (b : UInt8) : Bool :=
  b != comma && !endsLine b

/-- A field without quotes, and the rest. -/
def bareField (bytes : List UInt8) : List UInt8 × List UInt8 :=
  (bytes.takeWhile inField, bytes.dropWhile inField)

/-- A field after its opening quote, and the rest. Without a closing quote the field runs to the end
of the input. -/
def quotedField : List UInt8 → List UInt8 × List UInt8
  | [] => ([], [])
  | b :: bytes =>
    if b = quote then
      match bytes with
      | c :: more =>
        if c = quote then
          let (field, rest) := quotedField more
          (quote :: field, rest)
        else bareField bytes
      | [] => ([], [])
    else
      let (field, rest) := quotedField bytes
      (b :: field, rest)

def field : List UInt8 → List UInt8 × List UInt8
  | [] => ([], [])
  | b :: bytes => if b = quote then quotedField bytes else bareField (b :: bytes)

theorem length_bareField_le (bytes : List UInt8) : (bareField bytes).2.length ≤ bytes.length :=
  (List.dropWhile_sublist _).length_le

theorem length_quotedField_le (bytes : List UInt8) :
    (quotedField bytes).2.length ≤ bytes.length := by
  fun_induction quotedField bytes with
  | case1 => simp
  | case2 => simp_all; omega
  | case3 => exact Nat.le_succ_of_le (length_bareField_le _)
  | case4 => simp
  | case5 => simp_all; omega

theorem length_field_le (bytes : List UInt8) : (field bytes).2.length ≤ bytes.length := by
  unfold field
  split
  · simp
  · split
    · exact Nat.le_succ_of_le (length_quotedField_le _)
    · exact length_bareField_le _

/-- The fields up to the end of the line, and the rest, which starts with that end. -/
def fields (bytes : List UInt8) : List (List UInt8) × List UInt8 :=
  match _h : field bytes with
  | (first, []) => ([first], [])
  | (first, b :: rest) =>
    if b = comma then
      let (others, rest) := fields rest
      (first :: others, rest)
    else ([first], b :: rest)
termination_by bytes.length
decreasing_by
  have := length_field_le bytes
  rw [_h] at this
  exact this

theorem length_fields_le (bytes : List UInt8) : (fields bytes).2.length ≤ bytes.length := by
  fun_induction fields bytes with
  | case1 => simp
  | case2 bytes first rest h others rest' hf ih =>
    have := length_field_le bytes
    simp_all
    omega
  | case3 bytes first b rest h =>
    have := length_field_le bytes
    rw [h] at this
    exact this

/-- A record as it stands in the input. -/
structure RawRecord where
  /-- The line where the search for the record started, before any blank lines. -/
  line : Nat
  /-- The offset in bytes of that place. -/
  byte : Nat
  fields : List (List UInt8)
deriving Repr

/-- The number of line feeds in the bytes before a rest. -/
def linesBefore (bytes rest : List UInt8) : Nat :=
  (bytes.take (bytes.length - rest.length)).count lineFeed

/-- The records of an input that starts at this line and offset. Of a line that ends with both
characters the line feed is left to the search for the next record. -/
def rawRecords (line byte : Nat) (bytes : List UInt8) : List RawRecord :=
  match _h : bytes.dropWhile endsLine with
  | [] => []
  | b :: start =>
    let record := fields (b :: start)
    let rest := record.2.drop 1
    ⟨line, byte, record.1⟩ ::
      rawRecords (line + linesBefore bytes rest) (byte + (bytes.length - rest.length)) rest
termination_by bytes.length
decreasing_by
  have h₁ := length_fields_le (b :: start)
  have h₂ : (b :: start).length ≤ bytes.length := _h ▸ (List.dropWhile_sublist _).length_le
  simp only [List.length_drop, List.length_cons] at *
  omega

/-- The bytes of an input after a byte order mark. -/
def afterMark : List UInt8 → List UInt8
  | 0xEF :: 0xBB :: 0xBF :: rest => rest
  | bytes => bytes

/-- The records of a whole input. The first starts at its beginning even when a byte order mark
stands there. -/
def allRecords (bytes : List UInt8) : List RawRecord :=
  let rest := afterMark bytes
  match rawRecords 1 (bytes.length - rest.length) rest with
  | [] => []
  | first :: others => { first with byte := 0 } :: others

/-- A record with its fields as texts without surrounding blanks. -/
structure Record where
  line : Nat
  fields : List String
deriving DecidableEq, Repr

/-- A field that is not UTF-8. -/
structure EncodingError where
  /-- The number of the record, from zero. -/
  record : Nat
  line : Nat
  byte : Nat
  /-- The number of the field, from zero. -/
  field : Nat
  /-- The length of the longest part at the start of the field that is UTF-8. -/
  validUpTo : Nat
deriving DecidableEq, Repr

/-- What is wrong with the field. -/
def EncodingError.cause (e : EncodingError) : String :=
  s!"invalid utf-8: invalid UTF-8 in field {e.field} near byte index {e.validUpTo}"

def EncodingError.message (e : EncodingError) : String :=
  s!"CSV parse error: record {e.record} (line {e.line}, field: {e.field}, byte: {e.byte}): " ++
    e.cause

/-- The blank bytes that surround a field and do not count in the position of an error. -/
def isBlankByte (b : UInt8) : Bool :=
  b == 9 || b == 10 || b == 12 || b == 13 || b == 32

def trimBytes (bytes : List UInt8) : List UInt8 :=
  ((bytes.dropWhile isBlankByte).reverse.dropWhile isBlankByte).reverse

/-- The texts of a list of fields, numbered from `first`, or the number of the first field that is not
UTF-8 and the length of its valid part. -/
def decodeFields (first : Nat) : List (List UInt8) → Except (Nat × Nat) (List String)
  | [] => .ok []
  | bytes :: others =>
    match Text.decodeUtf8 (trimBytes bytes) with
    | .error validUpTo => .error (first, validUpTo)
    | .ok text => (decodeFields (first + 1) others).map (Text.trim text :: ·)

/-- The record with this number. -/
def RawRecord.decode (number : Nat) (raw : RawRecord) : Except EncodingError Record :=
  match decodeFields 0 raw.fields with
  | .ok fields => .ok ⟨raw.line, fields⟩
  | .error (field, validUpTo) => .error ⟨number, raw.line, raw.byte, field, validUpTo⟩

/-- The records with their numbers from `first` on. -/
def decodeAll (first : Nat) : List RawRecord → List (Except EncodingError Record)
  | [] => []
  | raw :: others => raw.decode first :: decodeAll (first + 1) others

/-- The records of an input, without the first one if that is a header, which is not looked at. An
error in the record after a header names the place of the header. -/
def read (hasHeader : Bool) (bytes : List UInt8) : List (Except EncodingError Record) :=
  if hasHeader then
    match (allRecords bytes).drop 1 with
    | [] => []
    | raw :: others =>
      (raw.decode 0).mapError (fun e => { e with line := 1, byte := 0 }) :: decodeAll 2 others
  else decodeAll 0 (allRecords bytes)

end SnakeDraft.Csv
