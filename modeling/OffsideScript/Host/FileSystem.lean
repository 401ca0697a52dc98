namespace OffsideScript

/-- A file system that is not complete may lack what is at a place until it is loaded. -/
inductive FileError where
  | notFound
  | notDirectory
  | isDirectory
  | nameTooLong
  | nulInPath
  | notText
  | unloaded (place : List String)
  | refused (message : String)
  deriving DecidableEq, Repr

def FileError.message : FileError → String
  | notFound => "No such file or directory (os error 2)"
  | notDirectory => "Not a directory (os error 20)"
  | isDirectory => "Is a directory (os error 21)"
  | nameTooLong => "File name too long (os error 36)"
  | nulInPath => "file name contained an unexpected NUL byte"
  | notText => "stream did not contain valid UTF-8"
  | unloaded _ => "not loaded"
  | refused message => message

/-- The names on the way from the root directory. -/
abbrev Place := List String

/-- Some places cannot be read, and some, whether there is a file or not, cannot be written. -/
inductive FileSystem.Entry where
  | file (content : ByteArray)
  | directory
  | absent
  | unreadable (error : FileError)
  | unwritable (content : Option ByteArray) (error : FileError)
  deriving Inhabited

/-- What is known of the files, and where paths start from. -/
structure FileSystem where
  entries : List (Place × FileSystem.Entry)
  workingDirectory : Place
  complete : Bool

/-- A path as it is written: from the root or not, its names, and whether a slash ends it. -/
structure Path where
  absolute : Bool
  names : List String
  closed : Bool
  deriving DecidableEq, Repr

namespace Path

def maxNameBytes : Nat := 255

/-- A path has fewer bytes than this. -/
def maxBytes : Nat := 4096

def splitNames : List Char → List (List Char)
  | [] => [[]]
  | '/' :: rest => [] :: splitNames rest
  | character :: rest =>
      match splitNames rest with
      | [] => [[character]]
      | first :: others => (character :: first) :: others

/-- The names of a path, unless the path cannot name a file. -/
def ofString (text : String) : Except FileError Path :=
  if text.toList.contains '\x00' then .error .nulInPath
  else if text.isEmpty then .error .notFound
  else if maxBytes ≤ text.utf8ByteSize then .error .nameTooLong
  else
    .ok {
      absolute := text.toList.head? == some '/'
      names := ((splitNames text.toList).filter (!·.isEmpty)).map String.ofList
      closed := text.toList.getLast? == some '/' }

end Path

namespace FileSystem

/-- What is at a place. -/
def entry (files : FileSystem) (place : Place) : Entry :=
  if place.isEmpty then .directory
  else
    match files.entries.lookup place with
    | some entry => entry
    | none => if files.complete then .absent else .unreadable (.unloaded place)

def put (files : FileSystem) (place : Place) (entry : Entry) : FileSystem :=
  { files with entries := (place, entry) :: files.entries.filter (·.1 != place) }

/-- What a name means inside a directory. -/
def lookup (files : FileSystem) (directory : Place) (name : String) :
    Except FileError (Place × Entry) :=
  if name == "." then .ok (directory, .directory)
  else if name == ".." then .ok (directory.dropLast, .directory)
  else if Path.maxNameBytes < name.utf8ByteSize then .error .nameTooLong
  else
    let place := directory ++ [name]
    .ok (place, files.entry place)

/-- Goes down from a directory through directories. -/
def walk (files : FileSystem) (directory : Place) : List String → Except FileError Place
  | [] => .ok directory
  | name :: rest => do
      match ← files.lookup directory name with
      | (place, .directory) => files.walk place rest
      | (_, .file _) | (_, .unwritable (some _) _) => .error .notDirectory
      | (_, .absent) | (_, .unwritable none _) => .error .notFound
      | (_, .unreadable error) => .error error

/-- The directory that a path ends in. -/
def directoryOf (files : FileSystem) (path : Path) : Except FileError Place :=
  files.walk (if path.absolute then [] else files.workingDirectory) path.names.dropLast

/-- The bytes of the file that a path names. -/
def read (files : FileSystem) (text : String) : Except FileError ByteArray := do
  let path ← Path.ofString text
  let directory ← files.directoryOf path
  match path.names.getLast? with
  | none => .error .isDirectory
  | some name =>
      match ← files.lookup directory name with
      | (_, .file content) | (_, .unwritable (some content) _) =>
          if path.closed then .error .notDirectory else .ok content
      | (_, .directory) => .error .isDirectory
      | (_, .absent) | (_, .unwritable none _) => .error .notFound
      | (_, .unreadable error) => .error error

def readText (files : FileSystem) (text : String) : Except FileError String := do
  match String.fromUTF8? (← files.read text) with
  | some content => .ok content
  | none => .error .notText

/-- Changes the content of a file, which is made if it is absent. A path that a slash ends cannot
name a new file. -/
def update (files : FileSystem) (text : String) (change : ByteArray → ByteArray) :
    Except FileError FileSystem := do
  let path ← Path.ofString text
  let directory ← files.directoryOf path
  match path.names.getLast? with
  | none => .error .isDirectory
  | some name =>
      if path.closed then .error .isDirectory
      else
        match ← files.lookup directory name with
        | (place, .file content) => .ok (files.put place (.file (change content)))
        | (place, .absent) => .ok (files.put place (.file (change .empty)))
        | (_, .directory) => .error .isDirectory
        | (_, .unreadable error) | (_, .unwritable _ error) => .error error

/-- Replaces the bytes of a file. -/
def write (files : FileSystem) (text : String) (content : ByteArray) :
    Except FileError FileSystem :=
  files.update text fun _ => content

/-- Adds bytes to the end of a file. -/
def append (files : FileSystem) (text : String) (content : ByteArray) :
    Except FileError FileSystem :=
  files.update text (· ++ content)

/-- Adds an entry with the directories on the way to it. -/
def add (files : FileSystem) (place : Place) (entry : Entry) : FileSystem :=
  let ways := (List.range place.length).map place.take
  (ways.foldl (fun files way => files.put way .directory) files).put place entry

/-- A complete file system with the given paths inside the working directory. Paths without content
are directories. -/
def ofListing (workingDirectory : Place) (listing : List (String × Option ByteArray)) :
    FileSystem :=
  listing.foldl
    (fun files (text, content) =>
      let names := ((Path.splitNames text.toList).filter (!·.isEmpty)).map String.ofList
      files.add (workingDirectory ++ names)
        (match content with
          | some bytes => .file bytes
          | none => .directory))
    ((⟨[], workingDirectory, true⟩ : FileSystem).add workingDirectory .directory)

/-- The paths inside the working directory, in the form from which a file system is made. -/
def listing (files : FileSystem) : List (String × Option ByteArray) :=
  files.entries.filterMap fun (place, entry) =>
    let names := place.drop files.workingDirectory.length
    if names.isEmpty || !files.workingDirectory.isPrefixOf place then none
    else
      match entry with
      | .file content | .unwritable (some content) _ =>
          some (String.intercalate "/" names, some content)
      | .directory => some (String.intercalate "/" names ++ "/", none)
      | .absent | .unreadable _ | .unwritable none _ => none

end FileSystem

end OffsideScript
