import SnakeDraft.Board.Rows
import SnakeDraft.Disk.Walk

/-!
The board of a file on disk.
-/

namespace SnakeDraft.Board

/-- Why there is no board at a path: a directory can be opened like a file, and only fails to be
read. -/
def errorOfDisk (path : String) : DiskError → BoardError
  | .isADirectory => .interrupted path .isADirectory
  | cause => .unreadable path cause

/-- The content of the file that a path leads to. -/
def contentOf (d : Disk) (path : String) : Except DiskError (List UInt8) :=
  match d.find path with
  | .error cause => .error cause
  | .ok place => (d.read place).1

/-- The board of the file that a path leads to. -/
def load (d : Disk) (path : String) (hasHeader : Bool) : Except BoardError Board :=
  match contentOf d path with
  | .error cause => .error (errorOfDisk path cause)
  | .ok bytes => ofCsv path hasHeader bytes

end SnakeDraft.Board
