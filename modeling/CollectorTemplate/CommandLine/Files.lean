/-
The files around the program.

* `FileAccess` : what the program does with files, in any monad that can do it;
* `FileFault` : why it cannot;
* `FileTree` : files and directories as data, on which `FileTree.access` works;
* `FilePath.parent?`, `FilePath.join` : the path of the directory around a file, and that of a name
  in a directory.

The standard output may be a file among the others.  What is appended to it is seen on the outside
and is not there to be read.
-/

namespace CollectorTemplate

/-- Why something cannot be done with a file. -/
inductive FileFault
  | notFound
  | alreadyExists
  | notADirectory
  | isADirectory
  /-- The path holds the character that ends the names of files. -/
  | badName
  | notText
  | denied
  /-- Another cause, in its own words. -/
  | other (cause : String)
  deriving Repr, DecidableEq, Inhabited

def FileFault.text : FileFault → String
  | notFound => "No such file or directory (os error 2)"
  | alreadyExists => "File exists (os error 17)"
  | notADirectory => "Not a directory (os error 20)"
  | isADirectory => "Is a directory (os error 21)"
  | badName => "file name contained an unexpected NUL byte"
  | notText => "stream did not contain valid UTF-8"
  | denied => "Permission denied (os error 13)"
  | other cause => cause

/-- What the program does with files. -/
structure FileAccess (m : Type → Type) where
  /-- Whether there is something at a path. -/
  isThere : String → m Bool
  /-- The text of a file. -/
  read : String → m (Except FileFault String)
  /-- Makes a directory and those around it, as far as they are missing. -/
  makeDirectory : String → m (Except FileFault Unit)
  /-- Appends text to a file, which is made if it is missing. -/
  append : String → String → m (Except FileFault Unit)
  /-- Whether the file at a path is the standard output, where what is appended to it is seen. -/
  isOutput : String → m Bool

/-! ### Paths -/

namespace FilePath

/-- The names in a path.  Between two slashes, and around one at an end, there is an empty name. -/
def names (path : String) : List String := path.splitOn "/"

/-- Whether a name leads nowhere. -/
def isIdle (name : String) : Bool := name == "" || name == "."

/-- Names without those at the end that lead nowhere, but for the first. -/
def trimEnd (names : List String) : List String :=
  match names with
  | [] => []
  | first :: rest => first :: (rest.reverse.dropWhile isIdle).reverse

/-- The path of the directory around a file, none for the root and for what is in the working
directory. -/
def parent? (path : String) : Option String :=
  match trimEnd (names path) with
  | [] | [_] => none
  | first :: rest =>
    match trimEnd (first :: rest.dropLast) with
    | [""] => some "/"
    | around => some ("/".intercalate around)

/-- The path of a name in a directory. -/
def join (directory name : String) : String :=
  match directory.toList.getLast? with
  | none | some '/' => directory ++ name
  | some _ => directory ++ "/" ++ name

end FilePath

/-! ### Files as data -/

/-- A file that holds no text which the program could read. -/
inductive SpecialFile
  /-- The standard output, which takes whatever is appended to it. -/
  | output
  /-- A file whose octets are no text, with anything appended to them or not. -/
  | octets
  /-- A file that the program may neither read nor write. -/
  | locked
  deriving Repr, DecidableEq, Inhabited

/-- Files and directories.  A place is the list of names that lead to it from the root. -/
structure FileTree where
  workingDirectory : List String := []
  files : List (List String × String) := []
  /-- Directories other than those around files. -/
  directories : List (List String) := []
  /-- Files that hold no text. -/
  special : List (List String × SpecialFile) := [(["dev", "stdout"], .output)]
  deriving Repr, Inhabited

namespace FileTree

/-- What can be at a place. -/
inductive Entry
  | file (text : String)
  | special (kind : SpecialFile)
  | directory
  deriving Repr, DecidableEq, Inhabited

def entry? (t : FileTree) (place : List String) : Option Entry :=
  match t.files.find? fun file => file.1 = place, t.special.find? fun file => file.1 = place with
  | some file, _ => some (.file file.2)
  | none, some file => some (.special file.2)
  | none, none =>
    if place.isPrefixOf t.workingDirectory || t.directories.contains place ||
        (t.files.any fun file => place.isPrefixOf file.1) ||
        (t.special.any fun file => place.isPrefixOf file.1) then
      some .directory
    else none

/-- Follows names from a place.  Whatever is followed must be a directory. -/
def follow (t : FileTree) (place : List String) : List String → Except FileFault (List String)
  | [] => .ok place
  | name :: names =>
    match t.entry? place with
    | none => .error .notFound
    | some (.file _) | some (.special _) => .error .notADirectory
    | some .directory =>
      if FilePath.isIdle name then t.follow place names
      else if name = ".." then t.follow place.dropLast names
      else t.follow (place ++ [name]) names

/-- The place where a path begins, and the names behind it. -/
def start (t : FileTree) (path : String) : List String × List String :=
  match FilePath.names path with
  | "" :: names => ([], names)
  | names => (t.workingDirectory, names)

/-- The place at the end of a path. -/
def locate (t : FileTree) (path : String) : Except FileFault (List String) :=
  if path.contains '\x00' then .error .badName
  else if path = "" then .error .notFound
  else t.follow (t.start path).1 (t.start path).2

/-- Whether there is something at a path. -/
def isThere (t : FileTree) (path : String) : Bool :=
  match t.locate path with
  | .ok place => (t.entry? place).isSome
  | .error _ => false

/-- The text of a file. -/
def read (t : FileTree) (path : String) : Except FileFault String := do
  match t.entry? (← t.locate path) with
  | none => .error .notFound
  | some .directory => .error .isADirectory
  | some (.special .octets) => .error .notText
  | some (.special _) => .error .denied
  | some (.file text) => .ok text

/-- Makes the directories along names from a place, as far as they are missing. -/
def makeAlong (t : FileTree) (place : List String) : List String → Except FileFault FileTree
  | [] => .ok t
  | name :: names =>
    if FilePath.isIdle name then t.makeAlong place names
    else
      let next := if name = ".." then place.dropLast else place ++ [name]
      match t.entry? next with
      | some .directory => t.makeAlong next names
      | some (.file _) | some (.special _) =>
        .error (if names.all FilePath.isIdle then .alreadyExists else .notADirectory)
      | none => { t with directories := next :: t.directories }.makeAlong next names

/-- Makes a directory and those around it, as far as they are missing. -/
def makeDirectory (t : FileTree) (path : String) : Except FileFault FileTree :=
  if path.contains '\x00' then .error .badName
  else t.makeAlong (t.start path).1 (t.start path).2

/-- Appends text to a file, which is made if it is missing.  A path that ends with a slash is that
of a directory. -/
def append (t : FileTree) (path text : String) : Except FileFault FileTree := do
  let place ← t.locate path
  if path.endsWith "/" then throw .isADirectory
  match t.entry? place with
  | some .directory => throw .isADirectory
  | some (.special .locked) => throw .denied
  | some (.special _) => return t
  | some (.file _) =>
    return { t with
      files := t.files.map fun file => if file.1 = place then (place, file.2 ++ text) else file }
  | none =>
    if t.entry? place.dropLast ≠ some .directory then throw .notFound
    return { t with files := t.files ++ [(place, text)] }

/-- Whether the file at a path is the standard output. -/
def isOutput (t : FileTree) (path : String) : Bool :=
  match t.locate path with
  | .ok place => t.entry? place = some (.special .output)
  | .error _ => false

/-- Keeps the change of a tree, if there is one. -/
def change (f : FileTree → Except FileFault FileTree) : StateM FileTree (Except FileFault Unit) :=
  fun t =>
    match f t with
    | .ok changed => (.ok (), changed)
    | .error fault => (.error fault, t)

def access : FileAccess (StateM FileTree) where
  isThere path := do return (← get).isThere path
  read path := do return (← get).read path
  makeDirectory path := change fun t => t.makeDirectory path
  append path text := change fun t => t.append path text
  isOutput path := do return (← get).isOutput path

end FileTree

end CollectorTemplate
