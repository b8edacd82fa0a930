/-
  TapeMachine.Console.Folder
  ──────────────────────────
  **THE WORKING FOLDER.**

  A description of the files a program finds where it is started, and of the
  paths that lead to them.  A path is walked name by name:

      .  and nothing      stay
      ..                  go to the folder above
      any other name      go to the file or folder of that name

  Each name but the last has to be that of a folder.  The working folder is
  taken to lie two levels below the root.  Of what is outside it only the
  folders and devices that every system has are known.  Some of them are
  links, which lead on to another place; `..` then goes to the folder above
  that place.
-/
import TapeMachine.Wire.Codec

namespace TapeMachine.Console

open Wire (Bytes)

/-- Why a file cannot be read or written. -/
inductive FileError where
  | notFound
  | isDirectory
  | notDirectory
  | nameTooLong
  | noSpace
  | noDevice
  | denied
  | tooManyLinks
  /-- Anything else, in the words of the system. -/
  | other (text : String)
  deriving Repr, DecidableEq

/-- The wording of a file error. -/
def FileError.message : FileError → String
  | notFound => "No such file or directory (os error 2)"
  | isDirectory => "Is a directory (os error 21)"
  | notDirectory => "Not a directory (os error 20)"
  | nameTooLong => "File name too long (os error 36)"
  | noSpace => "No space left on device (os error 28)"
  | noDevice => "No such device or address (os error 6)"
  | denied => "Permission denied (os error 13)"
  | tooManyLinks => "Too many levels of symbolic links (os error 40)"
  | other text => text

/-- The files of a folder, by name; a file in a folder below has a name with
slashes. -/
structure Folder where
  files : List (String × Bytes)
  deriving Repr, DecidableEq

/-- The devices that every system has. -/
inductive Device where
  /-- Takes everything and has nothing to be read. -/
  | sink
  /-- Takes nothing. -/
  | full
  /-- Standard input, which is empty. -/
  | input
  /-- Standard output. -/
  | output
  /-- Standard error. -/
  | complaints
  /-- The terminal, of which there is none. -/
  | terminal
  deriving Repr, DecidableEq

/-- What a path leads to. -/
inductive Place where
  /-- The folder that these names lead to from the working folder. -/
  | folder (names : List String)
  /-- A file, by its name in the working folder. -/
  | file (name : String)
  /-- The folder that the working folder lies in; nothing else in it is
  known. -/
  | above
  /-- A folder of the system, by the names that lead to it from the root. -/
  | system (names : List String)
  | device (d : Device)
  deriving Repr, DecidableEq

/-- How far a path has been walked: the place reached, and the links on the
way. -/
structure Position where
  place : Place
  links : Nat := 0
  deriving Repr, DecidableEq

/-- Where what is written to a path goes. -/
inductive Destination where
  /-- To a file of the working folder. -/
  | file (name : String)
  | output
  | complaints
  /-- To where nobody looks. -/
  | elsewhere
  deriving Repr, DecidableEq

namespace Folder

/-! ## §1. Walking a path. -/

/-- The most bytes of a name. -/
def maxName : Nat := 255

/-- The most bytes of a path. -/
def maxPath : Nat := 4095

/-- The most links on the way of a path. -/
def maxLinks : Nat := 40

/-- The folders that every system has, by the names that lead to them. -/
def systemFolders : List (List String) :=
  [["dev"], ["dev", "pts"], ["dev", "shm"], ["etc"], ["home"], ["mnt"], ["opt"], ["proc"], ["root"],
    ["run"], ["srv"], ["sys"], ["sys", "kernel"], ["tmp"], ["usr"], ["usr", "bin"], ["usr", "lib"],
    ["usr", "lib64"], ["usr", "local"], ["usr", "sbin"], ["usr", "share"], ["var"], ["var", "lib"],
    ["var", "log"], ["var", "tmp"]]

/-- The folder of the streams that a process has open. -/
def streams : List String := ["proc", "self", "fd"]

/-- The devices, by the names that lead to them. -/
def devices : List (List String × Device) :=
  [(["dev", "null"], .sink), (["dev", "full"], .full), (["dev", "tty"], .terminal)]

/-- The links: how many are followed, and where they lead. -/
def systemLinks : List (List String × Position) :=
  [(["bin"], ⟨.system ["usr", "bin"], 1⟩), (["lib"], ⟨.system ["usr", "lib"], 1⟩),
    (["lib64"], ⟨.system ["usr", "lib64"], 1⟩), (["sbin"], ⟨.system ["usr", "sbin"], 1⟩),
    (["var", "run"], ⟨.system ["run"], 1⟩), (["proc", "self"], ⟨.system ["proc", "self"], 1⟩),
    (["proc", "self", "cwd"], ⟨.folder [], 1⟩), (["proc", "self", "root"], ⟨.system [], 1⟩),
    (streams, ⟨.system streams, 0⟩), (["dev", "fd"], ⟨.system streams, 2⟩),
    (streams ++ ["0"], ⟨.device .input, 1⟩), (["dev", "stdin"], ⟨.device .input, 3⟩),
    (streams ++ ["1"], ⟨.device .output, 1⟩), (["dev", "stdout"], ⟨.device .output, 3⟩),
    (streams ++ ["2"], ⟨.device .complaints, 1⟩), (["dev", "stderr"], ⟨.device .complaints, 3⟩)]

/-- The name of a file that these names lead to. -/
def fileName (names : List String) : String := "/".intercalate names

/-- Whether there is a folder that these names lead to. -/
def hasFolder (f : Folder) (names : List String) : Bool :=
  names.isEmpty || f.files.any fun (file, _) => (fileName names ++ "/").isPrefixOf file

/-- What a name stands for in the folder that `names` lead to. -/
def child? (f : Folder) (names : List String) (name : String) : Option Place :=
  let names := names ++ [name]
  if (f.files.lookup (fileName names)).isSome then some (.file (fileName names))
  else if f.hasFolder names then some (.folder names)
  else none

/-- What a name stands for in a folder of the system. -/
def systemChild? (names : List String) (name : String) : Option Position :=
  let names := names ++ [name]
  if names ∈ systemFolders then some { place := .system names }
  else
    match devices.lookup names with
    | some d => some { place := .device d }
    | none => systemLinks.lookup names

/-- The folder above a place, which is a folder. -/
def parent : Place → Place
  | .folder [] => .above
  | .folder names => .folder names.dropLast
  | .above => .system []
  | .system names => .system names.dropLast
  | place => place

/-- What a name stands for in a place, which is a folder. -/
def find? (f : Folder) : Place → String → Option Position
  | .folder names, name => (f.child? names name).map fun place => { place }
  | .system names, name => systemChild? names name
  | _, _ => none

/-- Whether a place is a folder. -/
def isFolder : Place → Bool
  | .folder _ | .above | .system _ => true
  | .file _ | .device _ => false

/-- Whether no name is too long in a place: the system makes up what is
found there. -/
def takesAnyName : Place → Bool
  | .system ("proc" :: _) | .system ("sys" :: _) => true
  | _ => false

/-- Goes one name on. -/
def walk (f : Folder) (p : Position) (name : String) : Except FileError Position :=
  if !isFolder p.place then .error .notDirectory
  else if name ∈ ["", "."] then .ok p
  else if name = ".." then .ok { p with place := parent p.place }
  else if maxName < name.utf8ByteSize && !takesAnyName p.place then .error .nameTooLong
  else
    match f.find? p.place name with
    | none => .error .notFound
    | some next =>
      if maxLinks < p.links + next.links then .error .tooManyLinks
      else .ok { next with links := p.links + next.links }

/-- Where a path starts. -/
def start (path : String) : Position :=
  { place := if path.startsWith "/" then .system [] else .folder [] }

/-- Whether a path is fit to be walked. -/
def check (path : String) : Except FileError Unit :=
  if path.isEmpty then .error .notFound
  else if maxPath < path.utf8ByteSize then .error .nameTooLong
  else .ok ()

/-! ## §2. Reading and writing. -/

/-- The bytes of the file a path leads to. -/
def read (f : Folder) (path : String) : Except FileError Bytes := do
  check path
  match (← (path.splitOn "/").foldlM f.walk (start path)).place with
  | .file name => return (f.files.lookup name).getD []
  | .device .terminal => throw .noDevice
  | .device _ => return []
  | .folder _ | .above | .system _ => throw .isDirectory

/-- Where a new file of this name goes.  Some folders of the system take
none. -/
def newFile (name : String) : Place → Except FileError Destination
  | .folder names => .ok (.file (fileName (names ++ [name])))
  | .system ("proc" :: _) => .error .notFound
  | .system ("sys" :: _) => .error .denied
  | .system ["dev", "pts"] => .error .denied
  | _ => .ok .elsewhere

/-- Where goes what is written to a device. -/
def deviceTarget : Device → Except FileError Destination
  | .full => .error .noSpace
  | .terminal => .error .noDevice
  | .output => .ok .output
  | .complaints => .ok .complaints
  | .sink | .input => .ok .elsewhere

/-- Where goes what is written to a path.  A path with a slash at its end is
taken for that of a folder. -/
def target (f : Folder) (path : String) : Except FileError Destination := do
  check path
  let names := (path.splitOn "/").filter fun name => !name.isEmpty
  match names.getLast? with
  | none => throw .isDirectory
  | some last =>
    let p ← names.dropLast.foldlM f.walk (start path)
    if isFolder p.place && path.endsWith "/" then throw .isDirectory
    match (f.walk p last).map Position.place with
    | .ok (.file name) => return .file name
    | .ok (.device d) => deviceTarget d
    | .ok _ => throw .isDirectory
    | .error .notFound => newFile last p.place
    | .error e => throw e

/-- The files of `written` that the folder did not hold with the same bytes. -/
def changes (f : Folder) (written : List (String × Bytes)) : List (String × Bytes) :=
  written.filter fun (name, bytes) => f.files.lookup name ≠ some bytes

end Folder

end TapeMachine.Console
