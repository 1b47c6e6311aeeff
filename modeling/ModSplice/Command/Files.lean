/-!
The files of a directory, and the paths that lead to them. A path is followed step by step, and
every step but the last has to arrive at a directory, also where the next one leads back. Of what
lies outside the directory only so much is known as every system has.
-/
namespace ModSplice.Command

inductive AccessFault where
  | missing
  | denied
  | notDirectory
  | isDirectory
  | nameTooLong
  /-- The bytes of the file are not a text. -/
  | notText
  | other (description : String) (number : Nat)
  deriving DecidableEq, Repr

namespace AccessFault

def description : AccessFault → String
  | .missing => "No such file or directory"
  | .denied => "Permission denied"
  | .notDirectory => "Not a directory"
  | .isDirectory => "Is a directory"
  | .nameTooLong => "File name too long"
  | .notText => "stream did not contain valid UTF-8"
  | .other description _ => description

/-- The number of the fault, if it is one of the operating system's. -/
def number? : AccessFault → Option Nat
  | .missing => some 2
  | .denied => some 13
  | .notDirectory => some 20
  | .isDirectory => some 21
  | .nameTooLong => some 36
  | .notText => none
  | .other _ number => some number

def message (fault : AccessFault) : String :=
  match fault.number? with
  | some number => fault.description ++ " (os error " ++ Nat.repr number ++ ")"
  | none => fault.description

end AccessFault

def nameLimit : Nat := 255

def pathLimit : Nat := 4095

/-- A file; one whose bytes are not UTF-8 has no text. -/
structure File where
  text? : Option String
  mayRead : Bool := true
  mayWrite : Bool := true
  deriving DecidableEq, Repr

namespace File

def ofText (text : String) : File :=
  { text? := some text }

def read (file : File) : Except AccessFault String :=
  if file.mayRead then
    match file.text? with
    | some text => .ok text
    | none => .error .notText
  else .error .denied

end File

/-- Files by name. A name with slashes lies in a directory below, which is there because of it.
Directories may be entered and written to. -/
structure Files where
  entries : List (String × File) := []
  deriving DecidableEq, Repr

inductive Place where
  /-- What lies below by these names; the directory of the files itself if there are none. -/
  | below (names : List String)
  /-- A directory above. -/
  | above
  /-- What lies below the root of the system by these names. -/
  | absolute (names : List String)
  deriving DecidableEq, Repr

namespace Place

/-- The place one step up. The root of the system is above itself. -/
def parent : Place → Place
  | .below [] => .above
  | .below names => .below names.dropLast
  | .above => .above
  | .absolute names => .absolute names.dropLast

/-- The place of a name in the directory at a place, whether or not anything is there; none if the
directory is not known. -/
def child? : Place → String → Option Place
  | .below names, name => some (.below (names ++ [name]))
  | .above, _ => none
  | .absolute names, name => some (.absolute (names ++ [name]))

end Place

/-- A step of a path; what lies between two slashes in a row is none. -/
def stepOf (chars : List Char) : List String :=
  if chars.isEmpty then [] else [String.ofList chars]

/-- The steps of a path whose rest is given, behind the beginning of a step. -/
def stepsFrom (begun : List Char) : List Char → List String
  | [] => stepOf begun
  | c :: rest =>
    if c = '/' then stepOf begun ++ stepsFrom [] rest else stepsFrom (begun ++ [c]) rest

def steps (path : String) : List String :=
  stepsFrom [] path.toList

def origin (path : String) : Place :=
  if path.toList.head? = some '/' then .absolute [] else .below []

def endsWithSlash (path : String) : Bool :=
  path.toList.getLast? == some '/'

/-- The directories below the root that are always there. -/
def systemDirectories : List (List String) :=
  [["dev"], ["tmp"]]

/-- The file that is always empty, whatever is written to it. -/
def nullDevice : List String :=
  ["dev", "null"]

namespace Files

def file? (files : Files) : Place → Option File
  | .below [] => none
  | .below names => files.entries.lookup (String.intercalate "/" names)
  | .above => none
  | .absolute names => if names = nullDevice then some (.ofText "") else none

def hasDirectory (files : Files) : Place → Bool
  | .below [] => true
  | .below names =>
    files.entries.any fun (name, _) => (String.intercalate "/" names ++ "/").isPrefixOf name
  | .above => true
  | .absolute names => names.isEmpty || systemDirectories.contains names

def enter (files : Files) (place : Place) (step : String) : Except AccessFault Place :=
  if step = "." then .ok place
  else if step = ".." then .ok place.parent
  else if nameLimit < step.utf8ByteSize then .error .nameTooLong
  else
    match place.child? step with
    | none => .error .missing
    | some next =>
      if (files.file? next).isSome || files.hasDirectory next then .ok next else .error .missing

def follow (files : Files) (place : Place) : List String → Except AccessFault Place
  | [] => .ok place
  | step :: rest =>
    if (files.file? place).isSome then .error .notDirectory
    else
      match files.enter place step with
      | .error fault => .error fault
      | .ok next => follow files next rest

/-- The text of the file that a path leads to. A slash at the end asks for a directory. -/
def read (files : Files) (path : String) : Except AccessFault String :=
  if pathLimit < path.utf8ByteSize then .error .nameTooLong
  else
    match files.follow (origin path) (steps path ++ if endsWithSlash path then ["."] else []) with
    | .error fault => .error fault
    | .ok place =>
      match files.file? place with
      | some file => file.read
      | none => .error .isDirectory

/-- A text under a name, new or in place of another. -/
def set (files : Files) (name text : String) : Files :=
  if (files.entries.lookup name).isSome then
    { entries := files.entries.map fun entry =>
        if entry.1 = name then (name, { entry.2 with text? := some text }) else entry }
  else { entries := files.entries ++ [(name, .ofText text)] }

def mayWrite (files : Files) (name : String) : Bool :=
  (files.entries.lookup name).all File.mayWrite

/-- The files after a text was written under a name in the directory at a place. What is written
elsewhere leaves them as they are. -/
def writeIn (files : Files) (place : Place) (name text : String) : Except AccessFault Files :=
  if nameLimit < name.utf8ByteSize then .error .nameTooLong
  else
    match place.child? name with
    | none => .ok files
    | some target =>
      if files.hasDirectory target then .error .isDirectory
      else
        match target with
        | .below names =>
          let name := String.intercalate "/" names
          if files.mayWrite name then .ok (files.set name text) else .error .denied
        | _ => .ok files

/-- The files after a text was written to the file that a path leads to, which need not be there
before. -/
def write (files : Files) (path text : String) : Except AccessFault Files :=
  if pathLimit < path.utf8ByteSize then .error .nameTooLong
  else
    match (steps path).getLast? with
    | none => .error .isDirectory
    | some name =>
      match files.follow (origin path) (steps path).dropLast with
      | .error fault => .error fault
      | .ok place =>
        if (files.file? place).isSome then .error .notDirectory
        else if name = "." || name = ".." || endsWithSlash path then .error .isDirectory
        else files.writeIn place name text

/-- The names and texts that are new or differ from those before. -/
def changes (before after : Files) : List (String × String) :=
  after.entries.filterMap fun (name, file) =>
    if before.entries.lookup name = some file then none else file.text?.map (name, ·)

end Files
end ModSplice.Command
