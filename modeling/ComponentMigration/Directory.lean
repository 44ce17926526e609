import ComponentMigration.Component

/-!
Migrating directories.

* **File trees.** A `FileTree` is a file or a directory; there are no links.
* **Components.** The component files below a directory are those whose name has the
  extension `vue`, in order of their paths, name by name.
* **Results.** Every component is migrated by itself, under the options with its own
  name and path, so a file that fails leaves the others alone.
-/

namespace ComponentMigration

/-- A file with its bytes, or a directory with its entries. -/
inductive FileTree where
  | file (content : ByteArray)
  | directory (entries : List (Text × FileTree))
  deriving Inhabited

namespace FileTree

/-! ### Building trees -/

/-- The directory without entries. -/
def empty : FileTree := .directory []

/-- The entry of a name. -/
def entry? (name : Text) : FileTree → Option FileTree
  | .file _ => none
  | .directory entries => List.lookup name entries

/-- The directory with an entry put in; an entry of the same name goes. -/
def withEntry (t : FileTree) (name : Text) (e : FileTree) : FileTree :=
  match t with
  | .file _ => .directory [(name, e)]
  | .directory entries => .directory (entries.filter (·.1 != name) ++ [(name, e)])

/-- The tree with the directories to a place made and the last of them changed. -/
def change (f : FileTree → FileTree) : List Text → FileTree → FileTree
  | [], t => f t
  | n :: ns, t => t.withEntry n (change f ns ((t.entry? n).getD empty))

/-- The tree with a file put in; the directories around it are made. -/
def put (t : FileTree) (path : List Text) (content : ByteArray) : FileTree :=
  change (fun _ => .file content) path t

/-- The tree with a directory made. -/
def makeDirectory (t : FileTree) (path : List Text) : FileTree := change id path t

/-! ### Looking into trees -/

/-- What the segments of a path lead to in a tree below the trees `above`, the nearest
first. A directory leads to itself by an empty segment and by a dot and to the one above
it by two dots; a file leads nowhere. Above the outermost tree nothing is known, unless
it is the root, which is above itself. -/
def follow? (isRoot : Bool) (above : List FileTree) : List Text → FileTree → Option FileTree
  | [], t => some t
  | _ :: _, .file _ => none
  | s :: ss, .directory entries =>
      if s = [] ∨ s = ['.'] then follow? isRoot above ss (.directory entries)
      else if s = ['.', '.'] then
        match above with
        | [] => if isRoot then follow? isRoot [] ss (.directory entries) else none
        | t :: above => follow? isRoot above ss t
      else (List.lookup s entries).bind (follow? isRoot (.directory entries :: above) ss)

/-- What a path leads to. For a relative one the tree is the working directory, for an
absolute one the root. -/
def at? (t : FileTree) (path : Text) : Option FileTree :=
  if path = [] then none
  else follow? (path.head? == some '/') [] (Text.splitOn '/' path) t

mutual

/-- The files of a tree, each with the names that lead to it. -/
def files : FileTree → List (List Text × ByteArray)
  | .file content => [([], content)]
  | .directory entries => filesOf entries

/-- The files of the entries of a directory. -/
def filesOf : List (Text × FileTree) → List (List Text × ByteArray)
  | [] => []
  | (name, t) :: rest =>
      (t.files.map fun (path, content) => (name :: path, content)) ++ filesOf rest

end

end FileTree

/-! ### Component files -/

/-- The extension of component files. -/
def componentExtension : Text := "vue"

/-- Whether one list of names comes no later than another. -/
def namesLe : List Text → List Text → Bool
  | [], _ => true
  | _ :: _, [] => false
  | a :: as, b :: bs => a < b || (a == b && namesLe as bs)

/-- A component file: its path and its bytes. -/
structure ComponentFile where
  path : Text
  content : ByteArray

/-- The component files below a directory, in order of their paths. -/
def FileTree.componentFiles (t : FileTree) (dir : Text) : List ComponentFile :=
  match t.at? dir with
  | none => []
  | some below =>
      let found := below.files.mergeSort fun a b => namesLe a.1 b.1
      let named := found.map fun (names, content) =>
        ⟨names.foldl Path.join dir, content⟩
      named.filter fun f : ComponentFile => Path.extension? f.path == some componentExtension

/-! ### Results -/

/-- The result for one component file. -/
structure FileMigration where
  path : Text
  result : Except Failure Migration

/-- The migration of a component file under the options of its directory. -/
def ComponentFile.migrate (f : ComponentFile) (o : Options) : FileMigration :=
  let o := o.withFile f.path
  match String.fromUTF8? f.content with
  | some source => ⟨f.path, migrateComponent source.toList o⟩
  | none => ⟨f.path, .error (.diagnosed (.bare .unreadableFile o.filePath))⟩

/-- The migrations of all component files below a directory. -/
def FileTree.migrate (t : FileTree) (dir : Text) (o : Options) : List FileMigration :=
  (t.componentFiles dir).map (·.migrate o)

end ComponentMigration
