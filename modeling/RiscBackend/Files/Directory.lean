/-
# Directories

A directory is a finite map from paths to contents. A path leads to a file, to a
directory if some file lies below it, or to nothing. Reading and writing follow a
written path component by component and fail as an operating system does. There are
no links: two paths never lead to one file, so what is written at a path is read at
that path and at no other.

A written path may leave the directory. Of the rest of the file system it is known
that the directories above exist, that the root has directories for devices and
for temporary files, and that the null device is empty; what is written there is
not kept.
-/

import RiscBackend.Files.Path

namespace RiscBackend.Files

/-- Why a path does not lead to a file. -/
inductive FileCause where
  | notFound
  | isDirectory
  | notDirectory
  | nameTooLong
  | invalidArgument
  deriving DecidableEq, Repr

/-- The wording of a cause. -/
def FileCause.message : FileCause → String
  | notFound => "no such file or directory"
  | isDirectory => "is a directory"
  | notDirectory => "not a directory"
  | nameTooLong => "file name too long"
  | invalidArgument => "invalid argument"

/-- The operation that failed. -/
inductive FileVerb where
  | open
  | read
  deriving DecidableEq, Repr

/-- The word for an operation. -/
def FileVerb.text : FileVerb → String
  | .open => "open"
  | .read => "read"

/-- A failed access to a file. -/
structure FileFault where
  verb : FileVerb
  path : String
  cause : FileCause
  deriving DecidableEq, Repr

/-- The wording of a failed access. -/
def FileFault.message (fault : FileFault) : String :=
  fault.verb.text ++ " " ++ fault.path ++ ": " ++ fault.cause.message

/-- What a path leads to. -/
inductive Entry where
  | file (content : ByteArray)
  | directory

/-- Where the components of a path start: in the working directory, in some
directory above it, or in the root. -/
inductive Origin where
  | working
  | above
  | root
  deriving DecidableEq, Repr

/-- A place in the file system. -/
structure Place where
  origin : Origin
  path : Path := []
  deriving DecidableEq, Repr

namespace Place

/-- The place of a path from the working directory. -/
def inside (path : Path) : Place :=
  { origin := .working, path }

/-- The place from which a written path is followed. -/
def start (path : String) : Place :=
  if Text.hasStart "/" path then { origin := .root } else { origin := .working }

/-- The place of a name in a directory. -/
def child (here : Place) (name : String) : Place :=
  { here with path := here.path ++ [name] }

/-- The directory that holds a place. The root holds itself. -/
def parent (here : Place) : Place :=
  match here.path, here.origin with
  | [], .working => { origin := .above }
  | path, _ => { here with path := path.dropLast }

end Place

/-- The files below the working directory. -/
structure Directory where
  files : List (Path × ByteArray) := []

namespace Directory

/-- What a path leads to. -/
def entry? (d : Directory) (path : Path) : Option Entry :=
  match d.files.lookup path with
  | some content => some (.file content)
  | none =>
    if path.isEmpty || d.files.any fun (other, _) => path.isPrefixOf other then some .directory
    else none

/-- Whether a path leads to a directory. -/
def isDirectory (d : Directory) (path : Path) : Bool :=
  match d.entry? path with
  | some .directory => true
  | _ => false

/-- Put a file in its place, in the place of an earlier one if there is. -/
def put (d : Directory) (path : Path) (content : ByteArray) : Directory :=
  if (d.files.lookup path).isSome then
    { files := d.files.map fun (other, old) =>
        if other = path then (other, content) else (other, old) }
  else { files := d.files ++ [(path, content)] }

/-- What is known to be found from the root. -/
def rootEntry? : Path → Option Entry
  | [] | ["dev"] | ["tmp"] => some .directory
  | ["dev", "null"] => some (.file .empty)
  | _ => none

/-- What is found at a place. -/
def entryAt? (d : Directory) (place : Place) : Option Entry :=
  match place.origin with
  | .working => d.entry? place.path
  | .above => if place.path.isEmpty then some .directory else none
  | .root => rootEntry? place.path

/-- Follow the pieces of a written path from the directory `here`. Every piece but
the last must lead to a directory; what the last leads to is left open. -/
def follow (d : Directory) : Place → List String → Except FileCause Place
  | here, [] => .ok here
  | here, piece :: rest =>
    if piece = "" || piece = "." then follow d here rest
    else if piece = ".." then follow d here.parent rest
    else
      let there := here.child piece
      if rest.isEmpty then .ok there
      else if there.path.endsTooLong then .error .nameTooLong
      else match d.entryAt? there with
        | some .directory => follow d there rest
        | some (.file _) => .error .notDirectory
        | none => .error .notFound

/-- Why a written path leads nowhere by its spelling alone. -/
def spellingFault? (path : String) : Option FileCause :=
  if path.toList.contains '\x00' then some .invalidArgument
  else if path = "" then some .notFound
  else if Path.pathLimit < path.utf8ByteSize then some .nameTooLong
  else none

/-- The place that a written path names. -/
def locate (d : Directory) (path : String) : Except FileCause Place :=
  match spellingFault? path with
  | some cause => .error cause
  | none => d.follow (.start path) (pieces path)

/-- What a written path leads to. -/
def find? (d : Directory) (path : String) : Option Entry :=
  match d.locate path with
  | .ok place => d.entryAt? place
  | .error _ => none

/-- The path of a file in the directory that a written path leads to. -/
def filePath? (d : Directory) (path : String) : Option Path :=
  match d.locate path with
  | .ok { origin := .working, path := place } =>
    if (d.files.lookup place).isSome then some place else none
  | _ => none

/-- Read the file at a place that was named by a written path. -/
def readAt (d : Directory) (place : Place) (path : String) : Except FileFault ByteArray :=
  if place.path.endsTooLong then .error { verb := .open, path, cause := .nameTooLong }
  else match d.entryAt? place with
    | some (.file content) => .ok content
    | some .directory => .error { verb := .read, path, cause := .isDirectory }
    | none => .error { verb := .open, path, cause := .notFound }

/-- Create or replace the file at a place in an existing directory, which was named
by a written path. Only files below the working directory are kept. -/
def writeAt (d : Directory) (place : Place) (path : String) (content : ByteArray) :
    Except FileFault Directory :=
  if place.path.endsTooLong then .error { verb := .open, path, cause := .nameTooLong }
  else match d.entryAt? place, place.origin with
    | some .directory, _ => .error { verb := .open, path, cause := .isDirectory }
    | _, .working => .ok (d.put place.path content)
    | _, _ => .ok d

/-- Read a file. -/
def read (d : Directory) (path : String) : Except FileFault ByteArray :=
  match d.locate path with
  | .error cause => .error { verb := .open, path, cause }
  | .ok place => d.readAt place path

/-- Pieces of a path without the empty ones at the end, which come from slashes. -/
def dropSlashes (pieces : List String) : List String :=
  (pieces.reverse.dropWhile (· = "")).reverse

/-- The place at which a written path asks for a file to be created. A path that ends
in a slash names a directory. -/
def locateNew (d : Directory) (path : String) : Except FileCause Place := do
  if let some cause := spellingFault? path then throw cause
  let place ← d.follow (.start path) (dropSlashes (pieces path))
  if dropSlashes (pieces path) != pieces path then throw .isDirectory
  return place

/-- Create or replace a file. -/
def write (d : Directory) (path : String) (content : ByteArray) : Except FileFault Directory :=
  match d.locateNew path with
  | .error cause => .error { verb := .open, path, cause }
  | .ok place => d.writeAt place path content

/-- The names in a directory, sorted, each once. -/
def names (d : Directory) (path : Path) : List String :=
  let below := d.files.filterMap fun (other, _) =>
    if path.isPrefixOf other then (other.drop path.length).head? else none
  below.eraseDups.mergeSort fun a b => a ≤ b

/-- The names in a directory that is given by a written path. Nothing is known of the
names outside of the working directory. -/
def list (d : Directory) (path : String) : List String :=
  match d.locate path with
  | .ok { origin := .working, path := place } => if d.isDirectory place then d.names place else []
  | _ => []

end Directory

/-- Access to files in some setting. -/
structure FileAccess (m : Type → Type) where
  read : String → m (Except FileFault ByteArray)
  write : String → ByteArray → m (Except FileFault Unit)

/-- Access to the files of a directory that is carried along. -/
def FileAccess.ofDirectory : FileAccess (StateM Directory) where
  read path := do return (← get).read path
  write path content := do
    match (← get).write path content with
    | .ok d =>
      set d
      return .ok ()
    | .error fault => return .error fault

end RiscBackend.Files
