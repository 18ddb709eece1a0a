import HotplugDetect.Failure
import HotplugDetect.Files.Path

/-! # Trees of files

The files and directories that a program can reach, as a value. Paths are resolved piece by piece:
whatever stands before a slash has to be a directory.
-/

namespace HotplugDetect

inductive Entry
  | file (content : ByteArray)
  | directory

structure FileTree where
  /-- The directory at which relative paths start. -/
  here : List String
  /-- The entries by their place below the root. -/
  entries : List (List String × Entry)

namespace FileTree

def empty : FileTree := ⟨["work"], [([], .directory), (["work"], .directory)]⟩

def entry? (t : FileTree) (place : List String) : Option Entry := t.entries.lookup place

def put (t : FileTree) (place : List String) (e : Entry) : FileTree :=
  { t with entries := (place, e) :: t.entries.filter (·.1 != place) }

def nameLimit : Nat := 255

/-- The longest path, in bytes and with a final zero byte. -/
def pathLimit : Nat := 4096

/-- Goes down from a place. The last piece of a path need not exist. -/
def walk (t : FileTree) : List String → List String → Except FileFault (List String)
  | place, [] => .ok place
  | place, name :: rest =>
    match t.entry? place with
    | none => .error .notFound
    | some (.file _) => .error .notDirectory
    | some .directory =>
      if name = "." then t.walk place rest
      else if name = ".." then t.walk place.dropLast rest
      else if nameLimit < name.utf8ByteSize then .error .nameTooLong
      else if rest ≠ [] ∧ (t.entry? (place ++ [name])).isNone then .error .notFound
      else t.walk (place ++ [name]) rest

def origin (t : FileTree) (path : String) : List String :=
  if Path.isAbsolute path then [] else t.here

def checkPath (path : String) : Except FileFault Unit :=
  if path = "" then .error .notFound
  else if path.toList.contains '\x00' then .error .zeroInName
  else if pathLimit ≤ path.utf8ByteSize then .error .nameTooLong
  else .ok ()

/-- The place of a path. A slash at its end asks for a directory. -/
def resolve (t : FileTree) (path : String) : Except FileFault (List String) := do
  checkPath path
  t.walk (t.origin path) (Path.names path ++ if Path.endsInSlash path then ["."] else [])

def look (t : FileTree) (path : String) : Except FileFault ByteArray := do
  match t.entry? (← t.resolve path) with
  | none => .error .notFound
  | some .directory => .error .isDirectory
  | some (.file content) => .ok content

def isDirectory (t : FileTree) (path : String) : Bool :=
  match (t.resolve path).toOption.bind t.entry? with
  | some .directory => true
  | _ => false

def makeDirectory (t : FileTree) (path : String) : Except FileFault FileTree := do
  checkPath path
  let place ← t.walk (t.origin path) (Path.names path)
  match t.entry? place with
  | none => .ok (t.put place .directory)
  | some _ => .error .occupied

def ensureDirectory (t : FileTree) (path : String) : Except FileFault Unit × FileTree :=
  match t.makeDirectory path with
  | .ok t => (.ok (), t)
  | .error e => (if t.isDirectory path then .ok () else .error e, t)

/-- Makes a directory whose ancestors are given, nearest first. Only a missing parent is a reason to
make the parent first. What was made before a failure stays. -/
def makeAll (t : FileTree) : List String → Except FileFault Unit × FileTree
  | [] => (.ok (), t)
  | path :: above =>
    if path = "" then (.ok (), t)
    else match t.makeDirectory path with
      | .error .notFound =>
        match t.makeAll above with
        | (.ok (), t) => t.ensureDirectory path
        | failed => failed
      | _ => t.ensureDirectory path

def makeDirectories (t : FileTree) (path : String) : Except FileFault Unit × FileTree :=
  t.makeAll (Path.ancestors path)

/-- The place of a file that may be new. The directory of the file is looked at first; a path that
ends in a slash or in dots never names a file. -/
def target (t : FileTree) (path : String) : Except FileFault (List String) := do
  checkPath path
  let names := Path.names path
  match names.getLast? with
  | none => .error .isDirectory
  | some name =>
    let directory ← t.walk (t.origin path) (names.dropLast ++ ["."])
    if name = "." ∨ name = ".." ∨ Path.endsInSlash path then .error .isDirectory
    else t.walk directory [name]

/-- Changes the content of a file; a missing file was empty. -/
def edit (t : FileTree) (path : String) (f : ByteArray → ByteArray) :
    Except FileFault FileTree := do
  let place ← t.target path
  match t.entry? place with
  | none => .ok (t.put place (.file (f .empty)))
  | some .directory => .error .isDirectory
  | some (.file content) => .ok (t.put place (.file (f content)))

def write (t : FileTree) (path text : String) : Except FileFault FileTree :=
  t.edit path fun _ => text.toUTF8

def append (t : FileTree) (path text : String) : Except FileFault FileTree :=
  t.edit path fun content => content ++ text.toUTF8

end FileTree

end HotplugDetect
