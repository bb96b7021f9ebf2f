import StackCode.Text.Blank

namespace StackCode

/-!
# A store of files

Files and directories are kept by location, which is where a path leads: a path's
components are followed one after the other from the working directory, or from
the root where the path begins with a slash, and each component is looked up in a
directory that exists. A read gives a file's whole content; a write replaces it, or
creates the file in a directory that exists, and changes nothing else.
-/

/-- Why a path cannot be read or written. -/
inductive FileFault where
  /-- A component does not exist. -/
  | missing
  /-- A file stands where a directory is needed. -/
  | notDirectory
  /-- A directory stands where a file is needed. -/
  | isDirectory
  /-- The path or a component has too many octets. -/
  | nameTooLong
  /-- The path holds a NUL. -/
  | invalidPath
  deriving Repr, DecidableEq

/-- The code by which a fault is known. -/
def FileFault.code : FileFault → Text
  | .missing => "ENOENT"
  | .notDirectory => "ENOTDIR"
  | .isDirectory => "EISDIR"
  | .nameTooLong => "ENAMETOOLONG"
  | .invalidPath => "ERR_INVALID_ARG_VALUE"

/-- A failed action on a file: what was tried, on which path, and the code if there is one. -/
structure FileError where
  action : Text
  path : Text
  code : Option Text
  deriving Repr, DecidableEq

namespace FileError

/-- What the wording of a failed read calls it. -/
def reading : Text := "read"

/-- What the wording of a failed write calls it. -/
def writing : Text := "write"

/-- The failure of an action on a path with a known fault. -/
def ofFault (action path : Text) (fault : FileFault) : FileError where
  action := action
  path := path
  code := some fault.code

/-- The wording of a failure; a missing file reads the same whatever was tried. -/
def message (error : FileError) : Text :=
  if error.code = some FileFault.missing.code then
    Text.concat ["File not found: ", error.path]
  else
    Text.concat ["Cannot ", error.action, " file: ", error.path]

end FileError

/-- Where a location's names begin. -/
inductive Origin where
  /-- The root directory. -/
  | root
  /-- The working directory, or the directory that many levels above it. -/
  | working (above : Nat)
  deriving Repr, DecidableEq

/-- Where a path leads: names from an origin on, the innermost first. -/
structure Location where
  origin : Origin
  names : List Text := []
  deriving Repr, DecidableEq

namespace Location

/-- The location of a name in a directory. -/
def child (location : Location) (name : Text) : Location :=
  { location with names := name :: location.names }

/-- The location of the directory that holds another one; the root holds itself. -/
def parent (location : Location) : Location :=
  match location.names, location.origin with
  | _ :: names, _ => { location with names := names }
  | [], .root => location
  | [], .working above => { origin := .working (above + 1) }

end Location

/-- What is kept at a location. -/
inductive Entry where
  /-- A file with its content. -/
  | file (content : Bytes)
  /-- A directory. -/
  | directory
  deriving Repr, DecidableEq

/-- Files and directories by location. -/
structure FileStore where
  entries : List (Location × Entry) := []
  deriving Repr, DecidableEq

/-! ## Paths -/

namespace Path

/-- What separates the components of a path. -/
def separator : CodeUnit := CodeUnit.ofChar '/'

/-- The component that leads to the directory itself. -/
def current : Text := "."

/-- The component that leads to the directory above. -/
def above : Text := ".."

/-- The octets that a whole path must stay below. -/
def lengthBound : Nat := 4096

/-- The octets that a component may have. -/
def greatestNameLength : Nat := 255

/-- The number of octets of a text in UTF-8. -/
def octets (text : Text) : Nat :=
  text.toDisplay.utf8ByteSize

/-- Whether a component has more octets than it may have. -/
def isTooLong (name : Text) : Bool :=
  decide (greatestNameLength < octets name)

/-- Where a path begins. -/
def start (path : Text) : Location where
  origin := if path.startsWith separator then .root else .working 0

/-- The components of a path; an empty one stands at each end and between two slashes. -/
def components (path : Text) : List Text :=
  path.split (· == separator)

/-- What is wrong with a path whatever the files are. -/
def fault? (path : Text) : Option FileFault :=
  if path.contains 0 then
    some .invalidPath
  else if path.isEmpty then
    some .missing
  else if lengthBound ≤ octets path then
    some .nameTooLong
  else
    none

end Path

namespace FileStore

/-- What is at a location; an origin is always a directory. -/
def entry? (store : FileStore) (location : Location) : Option Entry :=
  if location.names.isEmpty then
    some .directory
  else
    store.entries.lookup location

/-- Keep an entry at a location, in place of what was there. -/
def put (location : Location) (entry : Entry) (store : FileStore) : FileStore where
  entries :=
    (location, entry) ::
      store.entries.filter fun (other, _) => other != location

/-- Whether a location holds a directory, or else why nothing can be looked up in it. -/
def requireDirectory (store : FileStore) (location : Location) :
    Except FileFault Unit :=
  match store.entry? location with
  | none => .error .missing
  | some (.file _) => .error .notDirectory
  | some .directory => .ok ()

/-- Follow components from a location on, each looked up in a directory. -/
def follow (store : FileStore) :
    Location → List Text → Except FileFault Location
  | location, [] => .ok location
  | location, name :: rest =>
      match store.requireDirectory location with
      | .error fault => .error fault
      | .ok () =>
          if name.isEmpty ∨ name = Path.current then
            follow store location rest
          else if name = Path.above then
            follow store location.parent rest
          else if Path.isTooLong name then
            .error .nameTooLong
          else
            follow store (location.child name) rest

/-- The content of the file that a path leads to. -/
def read (store : FileStore) (path : Text) : Except FileFault Bytes :=
  match Path.fault? path with
  | some fault => .error fault
  | none =>
      match store.follow (Path.start path) (Path.components path) with
      | .error fault => .error fault
      | .ok location =>
          match store.entry? location with
          | none => .error .missing
          | some .directory => .error .isDirectory
          | some (.file content) => .ok content

/--
The location of the file that a write to a path creates or replaces.

The last component names it and must not be one that only a directory has: empty,
as after a slash at the end, or one of the two that lead to directories.
-/
def target (store : FileStore) (path : Text) : Except FileFault Location :=
  match Path.fault? path with
  | some fault => .error fault
  | none =>
      let components := Path.components path
      let names := (components.reverse.dropWhile List.isEmpty)
      match names with
      | [] => .error .isDirectory
      | name :: before =>
          match store.follow (Path.start path) before.reverse with
          | .error fault => .error fault
          | .ok directory =>
              match store.requireDirectory directory with
              | .error fault => .error fault
              | .ok () =>
                  if name = Path.current ∨ name = Path.above ∨
                      path.endsWith Path.separator then
                    .error .isDirectory
                  else if Path.isTooLong name then
                    .error .nameTooLong
                  else
                    .ok (directory.child name)

/-- The store after a content has been written to a path. -/
def write (store : FileStore) (path : Text) (content : Bytes) :
    Except FileFault FileStore :=
  match store.target path with
  | .error fault => .error fault
  | .ok location =>
      if store.entry? location = some .directory then
        .error .isDirectory
      else
        .ok (store.put location (.file content))

/-- The path from the working directory to a location in it. -/
def relativePath? (location : Location) : Option Text :=
  if location.origin = .working 0 then
    some (Text.joined [Path.separator] location.names.reverse)
  else
    none

/-- The files in the working directory and below it, ordered by path. -/
def listing (store : FileStore) : List (Text × Bytes) :=
  let files := store.entries.filterMap fun (location, entry) =>
    match entry, relativePath? location with
    | .file content, some path => some (path, content)
    | _, _ => none
  files.mergeSort fun first second => !decide (second.1 < first.1)

/-- The files of a store that an earlier one lacks or has with other content. -/
def changedSince (before after : FileStore) : List (Text × Bytes) :=
  let old := before.listing
  after.listing.filter fun file => !old.contains file

end FileStore

end StackCode
