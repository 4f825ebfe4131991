import MatrixAudit.Failure

/-!
# A disk in memory

A disk holds regular files under paths, and the directories that lead to them. Paths are walked name
by name from the root or from the working directory; a dot stays and two dots go back. Names and
paths are limited in size, and only a name that is looked up can be found too long. A few devices
stand in `/dev`. They have no size, so each of them is an empty file to a reader.
-/

namespace MatrixAudit

/-- What a device does with bytes that are written to it. -/
inductive Device where
  | swallows
  | isFull
  /-- It cannot even be opened. -/
  | isAbsent

def deviceDirectory : List String := ["dev"]

def devices : List (String × Device) :=
  [("null", .swallows), ("zero", .swallows), ("random", .swallows), ("urandom", .swallows),
    ("full", .isFull), ("tty", .isAbsent)]

/-- The most bytes of a name. -/
def longestName : Nat := 255

/-- The most bytes of a path. -/
def longestPath : Nat := 4095

/-- Regular files by the names on their paths, and the directories known besides theirs. -/
structure Disk where
  files : List (List String × List UInt8) := []
  directories : List (List String) := []
  /-- Where relative paths start. -/
  here : List String := []

namespace Disk

inductive Entry where
  | regular (contents : List UInt8)
  | device (device : Device)
  | directory
  | nothing

def deviceAt? (place : List String) : Option Device :=
  if place.dropLast = deviceDirectory then devices.lookup (place.getLast?.getD "") else none

def entryAt (d : Disk) (place : List String) : Entry :=
  match d.files.find? fun file => file.1 == place with
  | some file => .regular file.2
  | none =>
    match deviceAt? place with
    | some device => .device device
    | none =>
      if place.isPrefixOf deviceDirectory || d.directories.any place.isPrefixOf ||
        d.files.any fun file => place.isPrefixOf file.1
      then .directory
      else .nothing

/-- Walks the names of a path. Every name but the last has to lead on from a directory. -/
def walk (d : Disk) (place : List String) : List String → Except Fault (List String)
  | [] => .ok place
  | name :: rest =>
    match d.entryAt place with
    | .directory =>
      if name = "" || name = "." then d.walk place rest
      else if name = ".." then d.walk place.dropLast rest
      else if longestName < name.utf8ByteSize then .error .nameTooLong
      else d.walk (place ++ [name]) rest
    | .nothing => .error .notFound
    | _ => .error .notADirectory

/-- The place where a path starts, and the names on it. -/
def route (d : Disk) (path : String) : Except Fault (List String × List String) :=
  if path.toList.contains '\x00' then .error .nulInName
  else if path.isEmpty then .error .notFound
  else if longestPath < path.utf8ByteSize then .error .nameTooLong
  else
    let names := path.splitOn "/"
    .ok (if names.head? = some "" then [] else d.here, names)

/-- The names on the way to the last one, which slashes follow. They end in a directory. -/
def wayTo (names : List String) : List String :=
  (names.reverse.dropWhile (· = "")).tail.reverse ++ [""]

/-- The place that a path leads to for writing. A name with slashes behind it could only be that of
a directory, so it is not looked up. -/
def target (d : Disk) (path : String) : Except Fault (List String) := do
  let (start, names) ← d.route path
  if names.getLast? = some "" then
    discard (d.walk start (wayTo names))
    .error .isADirectory
  else d.walk start names

/-- The contents of the file at a path. A directory can be opened but has no contents. -/
def read (d : Disk) (path : String) : Except Fault (List UInt8) := do
  let (start, names) ← d.route path
  match d.entryAt (← d.walk start names) with
  | .regular contents => .ok contents
  | .device .isAbsent => .error .noSuchDevice
  | .device _ => .ok []
  | .directory => .error .noDevice
  | .nothing => .error .notFound

/-- Writes a file in the place of what is at the path. -/
def write (d : Disk) (path : String) (contents : List UInt8) : Except Fault Disk := do
  let place ← d.target path
  match d.entryAt place with
  | .device .swallows => .ok d
  | .device .isFull => if contents.isEmpty then .ok d else .error .noSpace
  | .device .isAbsent => .error .noSuchDevice
  | .directory => .error .isADirectory
  | _ => .ok { d with files := (place, contents) :: d.files.filter fun file => file.1 != place }

end Disk

end MatrixAudit
