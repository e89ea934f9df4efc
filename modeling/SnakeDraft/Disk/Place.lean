/-!
Places on a disk and the paths that name them. A path is the text that a user writes and that messages
show; its place is the list of names on the way, in which `.` and doubled slashes leave no trace.
-/

namespace SnakeDraft

/-- The names on the way to an entry. A way from the top starts with a slash, any other way starts in
the working directory. -/
abbrev Place := List String

namespace Place

/-- The place reached from another one by one more name of a path. -/
def enter (place : Place) (name : String) : Place :=
  if name = "" ∨ name = "." then place
  else if name ≠ ".." then place ++ [name]
  else
    match place.getLast? with
    | none | some ".." => place ++ [".."]
    | some "/" => place
    | some _ => place.dropLast

/-- The place at which a path starts. -/
def startOf (path : String) : Place :=
  if path.startsWith "/" then ["/"] else []

/-- The place of a path on a way of directories only. -/
def ofPath (path : String) : Place :=
  (path.splitOn "/").foldl enter (startOf path)

/-- The place beside another one whose name goes on where that one ends. -/
def beside (place : Place) (ending : String) : Place :=
  place.dropLast ++ [place.getLastD "" ++ ending]

/-- Whether a place lies above all entries, where there are directories only. -/
def isAbove (place : Place) : Bool :=
  place.all fun name => name == "/" || name == ".."

end Place

namespace Path

/-- The path of a name, seen from the directory of another path. -/
def join (directory name : String) : String :=
  if name.startsWith "/" ∨ directory = "" then name
  else if directory.endsWith "/" then directory ++ name
  else directory ++ "/" ++ name

/-- Whether a path does not start at the top. -/
def isRelative (path : String) : Bool :=
  !path.startsWith "/"

/-- The paths that lead from a beginning through some parts, the last part first: the whole path, then
without its last name, and so on. Empty parts and dots are no names. -/
def lineageFrom (beginning : String) : List String → List String
  | [] => []
  | part :: before =>
    if part = "" ∨ part = "." then lineageFrom beginning before
    else "/".intercalate (beginning :: (part :: before).reverse) :: lineageFrom beginning before

/-- A path and the paths of the directories above it, innermost first. Neither the top nor the working
directory is among them, unless the path begins with a dot. -/
def lineage (path : String) : List String :=
  match path.splitOn "/" with
  | [] => []
  | beginning :: parts =>
    lineageFrom beginning parts.reverse ++ (if beginning = "" then [] else [beginning])

/-- The path of the directory that holds what a path names; empty for a bare name. -/
def parent (path : String) : String :=
  match lineage path with
  | _ :: above :: _ => above
  | _ => if isRelative path then "" else "/"

/-- The names of a path in order, the dots among them. -/
def names (path : String) : List String :=
  (path.splitOn "/").filter (· ≠ "")

/-- The names of a path to an entry that is there: a slash at the end asks for a directory, as a dot
does. -/
def steps (path : String) : List String :=
  if path.endsWith "/" then names path ++ ["."] else names path

end Path

end SnakeDraft
