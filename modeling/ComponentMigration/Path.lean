import ComponentMigration.Text.Basic

/-!
Paths of files.

* **Names.** A path is a text with slashes. Empty segments and dots are no names,
  except that a dot may begin a path. `fileName?` is the last name, unless the path
  ends in a dot of its own or goes up.
* **Extensions.** `cutExtension` cuts a name at its last dot. A dot at the start of a
  name begins no extension.
* **Joining.** `join` puts a name behind a path.
-/

namespace ComponentMigration.Path

/-- The segments of a path that count, in order. -/
def segments (path : Text) : List Text :=
  (Text.splitOn '/' path).filter fun s => s ≠ [] ∧ s ≠ ['.']

/-- The last name of a path. -/
def fileName? (path : Text) : Option Text :=
  (segments path).getLast?.filter (· ≠ ['.', '.'])

/-- The part of a name in front of its last dot, and its extension. -/
def cutExtension (name : Text) : Text × Option Text :=
  let extension := (name.reverse.takeWhile (· ≠ '.')).reverse
  let stem := name.take (name.length - extension.length - 1)
  if stem = [] then (name, none) else (stem, some extension)

/-- The last name of a path without its extension. -/
def stem? (path : Text) : Option Text := (fileName? path).map fun n => (cutExtension n).1

/-- The extension of the last name of a path. -/
def extension? (path : Text) : Option Text := (fileName? path).bind fun n => (cutExtension n).2

/-- A path with one more name. -/
def join (path name : Text) : Text :=
  if path.getLast? = some '/' then path ++ name else path ++ '/' :: name

end ComponentMigration.Path
