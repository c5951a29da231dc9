import ReactMigration.Table
import ReactMigration.Text.Path

/-!
Files as a run sees them: what can be asked and written, and a tree of files in memory that answers.
-/

namespace ReactMigration

/-- The operations on files that a run needs. -/
structure FileSystem (m : Type → Type) where
  isDirectory : String → m Bool
  /-- The text of a file, nothing if it cannot be read or holds no text. -/
  read : String → m (Option String)
  /-- The files below a directory, by their paths from there. -/
  filesBelow : String → m (List String)
  /-- Writes a file and the folders above it; false if that is not possible. -/
  write : String → String → m Bool

/-- Files and folders by their segments; a file without text is not readable as text. -/
structure FileTree where
  files : List (List String × Option String) := []
  folders : List (List String) := []
  deriving Inhabited

namespace FileTree

/-- The segments of a relative path. -/
def segmentsOf (path : String) : List String :=
  Path.segments false path

/-- Whether one path lies below another. -/
def isBelow (folder path : List String) : Bool :=
  folder.isPrefixOf path && folder.length < path.length

/-- Whether a file is at the path. -/
def hasFile (t : FileTree) (path : List String) : Bool :=
  t.files.any (·.1 == path)

/-- Whether a folder is at the path: the root, one of its own, or one above something. -/
def hasFolder (t : FileTree) (path : List String) : Bool :=
  path.isEmpty || t.folders.any (fun f => f == path || isBelow path f) ||
    t.files.any fun (f, _) => isBelow path f

/-- Adds a file or, for a path that ends in a slash, a folder. -/
def add (t : FileTree) (path : String) (text : Option String) : FileTree :=
  if path.endsWith "/" then { t with folders := t.folders ++ [segmentsOf path] }
  else { t with files := t.files ++ [(segmentsOf path, text)] }

/-- Replaces or adds a file. -/
def put (path : List String) (text : String) :
    List (List String × Option String) → List (List String × Option String)
  | [] => [(path, some text)]
  | (p, t) :: rest => if p == path then (p, some text) :: rest else (p, t) :: put path text rest

/-- Whether a file can be written at the path: it is no folder and no file stands above it. -/
def canWrite (t : FileTree) (path : List String) : Bool :=
  !t.hasFolder path && !t.files.any fun (f, _) => isBelow f path

/-- Whether a path names a folder; the empty path names none. -/
def isDirectory (t : FileTree) (path : String) : Bool :=
  path != "" && t.hasFolder (segmentsOf path)

/-- The text of the file at a path. -/
def read (t : FileTree) (path : String) : Option String :=
  (t.files.find? (·.1 == segmentsOf path)).bind (·.2)

/-- The files below a folder, by their paths from there. -/
def filesBelow (t : FileTree) (path : String) : List String :=
  let folder := segmentsOf path
  (t.files.filter fun (f, _) => isBelow folder f).map fun (f, _) =>
    "/".intercalate (f.drop folder.length)

/-- Writes a file; false if the path cannot be one. -/
def write (path text : String) (t : FileTree) : Bool × FileTree :=
  let target := segmentsOf path
  if path == "" || path.endsWith "/" || !t.canWrite target then (false, t)
  else (true, { t with files := put target text t.files })

/-- The operations on a tree in memory. -/
def system : FileSystem (StateM FileTree) where
  isDirectory path := do return (← get).isDirectory path
  read path := do return (← get).read path
  filesBelow path := do return (← get).filesBelow path
  write path text := modifyGet (write path text)

/-- The files of a tree that another one lacks, by path. -/
def newFiles (before after : FileTree) : Table String :=
  let fresh := after.files.filterMap fun (f, text) =>
    if before.hasFile f then none else some ("/".intercalate f, text.getD "")
  fresh.mergeSort fun a b => a.1 ≤ b.1

end FileTree

/-- The text of bytes, if they are well-formed UTF-8. -/
def textOfBytes (bytes : List UInt8) : Option String :=
  String.fromUTF8? ⟨bytes.toArray⟩

end ReactMigration
