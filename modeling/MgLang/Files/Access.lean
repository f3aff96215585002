import MgLang.Files.Path
/-!
# Access to files

What a program needs of a file system: to read a file as text, and to list the files below a
directory. A `FileTree` is a file system by itself, which holds nothing but names and contents.
-/

namespace MgLang

/-- Why a file cannot be read. -/
inductive ReadFault where
  | notFound
  | isDirectory
  | notDirectory
  | nameTooLong
  /-- The content is no text. -/
  | notText
  /-- What the system says. -/
  | other (text : String)
deriving DecidableEq, Repr

/-- The fault as it is shown to a user. -/
def ReadFault.text : ReadFault → String
  | notFound => "No such file or directory (os error 2)"
  | isDirectory => "Is a directory (os error 21)"
  | notDirectory => "Not a directory (os error 20)"
  | nameTooLong => "File name too long (os error 36)"
  | notText => "stream did not contain valid UTF-8"
  | other text => text

/-- Access to files by their paths. -/
structure FileAccess (m : Type → Type) where
  /-- The text of a file. -/
  read : String → m (Except ReadFault String)
  /-- The paths of all files below a directory, relative to it, in any order (`walk`, before it
  picks out source files). There are none if no directory has that path. -/
  list : String → m (Option (List String))

/-- A path below another path. An absolute path stays what it is. -/
def joinPath (base path : String) : String :=
  if path.toList.head? = some '/' then path
  else if base.toList.getLast?.all (· == '/') then base ++ path
  else base ++ "/" ++ path

/-- A path as seen from another above it, with single slashes (`relative_display`). -/
def relativePath (base path : String) : String :=
  let parts := PathPart.split path
  let relative := ((PathPart.split base).isPrefixOf? parts).getD parts
  joinNames (relative.map (·.text))

/-- The path asks for a directory: there is a slash at its end, or a `.` behind the last slash. -/
def namesDirectory (path : String) : Bool :=
  match (splitOn '/' path.toList).tail.getLast? with
  | some last => last = [] || last = ['.']
  | none => false

/-- The number of bytes that the name of a file can have. -/
def maxNameLength : Nat := 255

/-- The number of bytes that a path can have. -/
def maxPathLength : Nat := 4095

/-! ### File trees -/

/-- A file with its content, or a directory with its entries. -/
inductive FileTree where
  | file (content : ByteArray)
  | folder (entries : List (String × FileTree))

namespace FileTree

instance : Inhabited FileTree := ⟨.folder []⟩

/-- What a path leads to from inside a tree. The trees above are given nearest first. Above the
uppermost there is nothing but itself. -/
def resolve (above : List FileTree) (here : FileTree) :
    List PathPart → Except ReadFault FileTree
  | [] => .ok here
  | part :: parts =>
    match here with
    | file _ => .error .notDirectory
    | folder entries =>
      match part with
      | .top => resolve [] (above.getLast?.getD here) parts
      | .current => resolve above here parts
      | .parent =>
        match above with
        | [] => resolve [] here parts
        | t :: ts => resolve ts t parts
      | .name name =>
        match entries.lookup name with
        | some t => resolve (here :: above) t parts
        | none => .error (if name.utf8ByteSize > maxNameLength then .nameTooLong else .notFound)

mutual

/-- The paths of all files in a tree that has the given path. -/
def files (path : String) : FileTree → List String
  | file _ => [path]
  | folder entries => filesOf (path ++ "/") entries

/-- The paths of all files in the entries of a directory, with that text before them. -/
def filesOf (front : String) : List (String × FileTree) → List String
  | [] => []
  | (name, t) :: rest => files (front ++ name) t ++ filesOf front rest

end

/-- What a path leads to. A relative path is taken from the directory `cwd`. -/
def find (t : FileTree) (cwd path : String) : Except ReadFault FileTree :=
  if path = "" then .error .notFound
  else if path.utf8ByteSize > maxPathLength then .error .nameTooLong
  else
    match resolve [] t (PathPart.split (joinPath cwd path)) with
    | .ok (file content) =>
      if namesDirectory path then .error .notDirectory else .ok (file content)
    | found => found

/-- Access to the files of a tree, with relative paths taken from the directory `cwd`. -/
def access (t : FileTree) (cwd : String) : FileAccess Id where
  read path :=
    match t.find cwd path with
    | .error fault => .error fault
    | .ok (folder _) => .error .isDirectory
    | .ok (file content) =>
      match String.fromUTF8? content with
      | some text => .ok text
      | none => .error .notText
  list path :=
    match t.find cwd path with
    | .ok (folder entries) => some (filesOf "" entries)
    | _ => none

end FileTree

end MgLang
