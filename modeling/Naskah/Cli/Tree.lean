/-
  A directory tree in memory, so that a command line can be run without a disk. Paths are resolved
  from a working directory. Of the directories around it only those are known to hold something into
  which something was put.
-/

namespace Naskah.Cli

/-- Why a file cannot be used. -/
inductive FileError where
  | notFound
  | alreadyThere
  | notDirectory
  | isDirectory
  | nameTooLong
  | invalidText
deriving DecidableEq, Repr

def FileError.message : FileError → String
  | notFound => "No such file or directory (os error 2)"
  | alreadyThere => "File exists (os error 17)"
  | notDirectory => "Not a directory (os error 20)"
  | isDirectory => "Is a directory (os error 21)"
  | nameTooLong => "File name too long (os error 36)"
  | invalidText => "stream did not contain valid UTF-8"

/-- Why a log file cannot be opened. -/
inductive LogFileError where
  /-- The path does not end in a name. -/
  | invalidPath
  | directory (e : FileError)
  | file (e : FileError)
deriving DecidableEq, Repr

def LogFileError.message (path : String) : LogFileError → String
  | invalidPath => s!"Invalid log file path: {path}"
  | directory e =>
    s!"Cannot open log file {path}: failed to create log directory: {e.message}"
  | file e => s!"Cannot open log file {path}: failed to create log file: {e.message}"

/-- The files of a tree and its directories, each under the names that lead to it. -/
structure Tree where
  files : List (List String × ByteArray)
  directories : List (List String)

namespace Tree

/-- A path as it is written: whether it starts at the root of the disk, and its parts. -/
structure Path where
  absolute : Bool
  parts : List String
  /-- Whether a directory is demanded by a slash, or a dot behind one, at the end. -/
  wantsDirectory : Bool

def Path.ofText (s : String) : Path :=
  let pieces := s.splitOn "/"
  ⟨s.startsWith "/", pieces.filter fun p => p ≠ "" ∧ p ≠ ".",
    match pieces.getLast? with
    | some p => p = "" ∨ p = "."
    | none => false⟩

def Path.toText (p : Path) : String :=
  (if p.absolute then "/" else "") ++ "/".intercalate p.parts ++
    (if p.wantsDirectory then "/" else "")

/-- The name that a path ends in, if it ends in one. -/
def Path.name? (p : Path) : Option String :=
  p.parts.getLast?.bind fun name => if name = ".." then none else some name

/-- The path without its last part. -/
def Path.parent (p : Path) : Path :=
  ⟨p.absolute, p.parts.dropLast, false⟩

/-- A place is named by the names that lead to it from the working directory. Each `..` in front
    leads one directory up; where a path starts at the root of the disk, `/` stands in front. -/
abbrev Names : Type := List String

/-- The directory above. -/
def Names.up (names : Names) : Names :=
  if names.all (· = "..") then names ++ [".."]
  else if names = ["/"] then names
  else names.dropLast

/-- Where a path leads. -/
inductive Place where
  | directory (names : Names)
  | file (names : Names) (content : ByteArray)
  /-- Nothing, but there is a directory for it. -/
  | absent (names : Names)

/-- Whether there is a directory. The working directory is there and all that lead to it. -/
def hasDirectory (t : Tree) (names : Names) : Bool :=
  names.all (· = "..") || names = ["/"] || t.directories.contains names

/-- What has a name in a directory. -/
def entry (t : Tree) (names : Names) : Place :=
  match t.files.lookup names with
  | some content => .file names content
  | none => if t.hasDirectory names then .directory names else .absent names

/-- The bytes that a name may have. -/
def nameLimit : Nat := 255

/-- Goes on from a place along the parts of a path. -/
def walk (t : Tree) (wantsDirectory : Bool) : Place → List String → Except FileError Place
  | .file names content, [] =>
    if wantsDirectory then .error .notDirectory else .ok (.file names content)
  | place, [] => .ok place
  | .file .., _ :: _ => .error .notDirectory
  | .absent _, _ :: _ => .error .notFound
  | .directory names, part :: rest =>
    if part.utf8ByteSize > nameLimit then .error .nameTooLong
    else
      t.walk wantsDirectory
        (if part = ".." then .directory names.up else t.entry (names ++ [part])) rest

def find (t : Tree) (p : Path) : Except FileError Place :=
  t.walk p.wantsDirectory (.directory (if p.absolute then ["/"] else [])) p.parts

/-- Adds a file and the directories that lead to it. -/
def addFile (t : Tree) (path : String) (content : ByteArray) : Tree :=
  let names := (Path.ofText path).parts
  let leading := (List.range names.length).map fun n => names.take n
  ⟨t.files.filter (·.1 ≠ names) ++ [(names, content)],
    t.directories ++ leading.filter fun d => !t.directories.contains d⟩

/-- The content of a file. -/
def read (t : Tree) (path : String) : Except FileError ByteArray :=
  match t.find (.ofText path) with
  | .error e => .error e
  | .ok (.file _ content) => .ok content
  | .ok (.absent _) => .error .notFound
  | .ok _ => .error .isDirectory

/-- Makes one directory. -/
def makeDirectory (t : Tree) (p : Path) : Except FileError Tree :=
  match t.find p with
  | .error e => .error e
  | .ok (.absent names) => .ok { t with directories := t.directories ++ [names] }
  | .ok _ => .error .alreadyThere

/-- An error does not count where the directory is there. -/
def unlessDirectory (t : Tree) (p : Path) (e : FileError) : Except FileError Tree :=
  match t.find p with
  | .ok (.directory _) => .ok t
  | _ => .error e

/-- Makes a directory and those that lead to it, as far as they are missing. -/
def makeDirectories (t : Tree) (absolute : Bool) (parts : List String) : Except FileError Tree :=
  let p : Path := ⟨absolute, parts, false⟩
  if parts.isEmpty then .ok t
  else
    match t.makeDirectory p with
    | .ok t => .ok t
    | .error .notFound =>
      if _h : parts.length ≤ 1 then .error .notFound
      else
        match makeDirectories t absolute parts.dropLast with
        | .error e => .error e
        | .ok t =>
          match t.makeDirectory p with
          | .ok t => .ok t
          | .error e => t.unlessDirectory p e
    | .error e => t.unlessDirectory p e
termination_by parts.length
decreasing_by
  rw [List.length_dropLast]
  omega

/-- Opens a file for appending and makes it if it is missing. -/
def openFile (t : Tree) (p : Path) : Except FileError Tree :=
  match t.find p with
  | .error e => .error e
  | .ok (.file ..) => .ok t
  | .ok (.absent names) => .ok { t with files := t.files ++ [(names, .empty)] }
  | .ok _ => .error .isDirectory

/-- The path of a log file, which is no directory whatever is written behind its name. -/
def logPath (path : String) : Path :=
  { Path.ofText path with wantsDirectory := false }

/-- Opens a log file. If that fails, the directories that lead to it are made, and it is tried
    again. -/
def openLog (t : Tree) (path : String) : Except LogFileError Tree :=
  let p := logPath path
  match p.name? with
  | none => .error .invalidPath
  | some _ =>
    match t.openFile p with
    | .ok t => .ok t
    | .error _ =>
      match t.makeDirectories p.absolute p.parent.parts with
      | .error e => .error (.directory e)
      | .ok t => (t.openFile p).mapError .file

/-- Appends to a log file that has been opened. -/
def appendLog (t : Tree) (path : String) (content : ByteArray) : Tree :=
  match t.find (logPath path) with
  | .ok (.file names _) =>
    { t with files := t.files.map fun (n, old) => if n = names then (n, old ++ content) else (n, old) }
  | _ => t

end Tree

end Naskah.Cli
