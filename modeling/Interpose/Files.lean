import Interpose.Path

/-!
A tree of files as a value.

Files and directories are kept under their locations, the lists of names that lead to them from the
root. A path is followed segment by segment, an absolute one from the root and any other from the
working directory: every segment needs a directory to start from, and a double dot leads to the
parent, at the root back to the root.
-/

namespace Interpose

/-- What a file holds: a text, or bytes that spell no text. -/
inductive Content where
  | text (s : String)
  | bytes (bs : List UInt8)
  deriving DecidableEq, Repr

inductive Node where
  | file (content : Content)
  | directory
  deriving DecidableEq, Repr

/-- The names that lead to a node from the root. -/
abbrev Location := List String

structure Files where
  workingDirectory : Location
  nodes : List (Location × Node)
  deriving Repr

namespace Files

/-- Why a file cannot be reached, read or written. -/
inductive Failure where
  | notFound
  | notADirectory
  | isADirectory
  | nameTooLong
  | invalidName
  | notText
  deriving DecidableEq, Repr

def Failure.message : Failure → String
  | .notFound => "No such file or directory (os error 2)"
  | .notADirectory => "Not a directory (os error 20)"
  | .isADirectory => "Is a directory (os error 21)"
  | .nameTooLong => "File name too long (os error 36)"
  | .invalidName => "file name contained an unexpected NUL byte"
  | .notText => "stream did not contain valid UTF-8"

def empty : Files := ⟨["home", "project"], []⟩

/-- The node at a location; the working directory and those that it lies in are always there. -/
def node? (fs : Files) (l : Location) : Option Node :=
  if l.isPrefixOf fs.workingDirectory then some .directory
  else (fs.nodes.find? (·.1 == l)).map (·.2)

def insert (fs : Files) (l : Location) (n : Node) : Files :=
  if fs.nodes.any (·.1 == l) then
    { fs with nodes := fs.nodes.map fun e => if e.1 == l then (l, n) else e }
  else { fs with nodes := fs.nodes ++ [(l, n)] }

/-! ### Following a path -/

/-- The most bytes that a name may have. -/
def nameLimit : Nat := 255

/-- The most bytes that a path may have. -/
def pathLimit : Nat := 4095

def origin (fs : Files) (p : Path) : Location := if p.isAbsolute then [] else fs.workingDirectory

/-- Follows segments from a location; each needs a directory to start from. -/
def walk (fs : Files) (start : Location) : List String → Except Failure Location
  | [] => .ok start
  | s :: rest =>
    match fs.node? start with
    | none => .error .notFound
    | some (.file _) => .error .notADirectory
    | some .directory =>
      if Path.isIdle s then fs.walk start rest
      else if s = ".." then fs.walk start.dropLast rest
      else if nameLimit < s.utf8ByteSize then .error .nameTooLong
      else fs.walk (start ++ [s]) rest

/-- The location that a path leads to; its last name need not be there. -/
def follow (fs : Files) (p : Path) : Except Failure Location :=
  if p.text.isEmpty then .error .notFound
  else if p.text.toList.contains '\x00' then .error .invalidName
  else if pathLimit < p.text.utf8ByteSize then .error .nameTooLong
  else fs.walk (fs.origin p) p.segments

/-- The node that a path leads to, if there is one. -/
def lookup? (fs : Files) (p : Path) : Option Node :=
  match fs.follow p with
  | .ok l => fs.node? l
  | .error _ => none

def has (fs : Files) (p : Path) : Bool := (fs.lookup? p).isSome

/-! ### Reading and writing -/

def read (fs : Files) (p : Path) : Except Failure String := do
  match fs.node? (← fs.follow p) with
  | none => .error .notFound
  | some .directory => .error .isADirectory
  | some (.file (.bytes _)) => .error .notText
  | some (.file (.text s)) => .ok s

/-- The tree after a text was written to a file, which is made if only its name is missing. -/
def write (fs : Files) (p : Path) (s : String) : Except Failure Files := do
  let l ← fs.follow p
  match fs.node? l with
  | some .directory => .error .isADirectory
  | _ => .ok (fs.insert l (.file (.text s)))

/-- Makes the directories along segments that are not there yet. Keeps those that were made when
a later one cannot be. -/
def makeAlong (fs : Files) (start : Location) : List String → Files × Except Failure Unit
  | [] => (fs, .ok ())
  | s :: rest =>
    match fs.walk start [s] with
    | .error e => (fs, .error e)
    | .ok l =>
      match fs.node? l with
      | some .directory => fs.makeAlong l rest
      | some (.file _) => (fs, .error .notADirectory)
      | none => (fs.insert l .directory).makeAlong l rest

def makeDirectories (fs : Files) (p : Path) : Files × Except Failure Unit :=
  if p.text.isEmpty then (fs, .ok ())
  else if p.text.toList.contains '\x00' then (fs, .error .invalidName)
  else if pathLimit < p.text.utf8ByteSize then (fs, .error .nameTooLong)
  else fs.makeAlong (fs.origin p) p.segments

/-! ### Setting up and comparing -/

/-- The location of a path that is taken as a list of names. -/
def namedLocation (fs : Files) (p : Path) : Location :=
  fs.origin p ++ p.segments.filter (!Path.isIdle ·)

/-- Puts a node at a path and makes its parents; the path is taken as a list of names. -/
def place (fs : Files) (p : Path) (n : Node) : Files :=
  let l := fs.namedLocation p
  let parents := (List.range l.length).map (l.take ·)
  (parents.foldl (fun fs d => if fs.node? d == some .directory then fs else fs.insert d .directory)
    fs).insert l n

def remove (fs : Files) (p : Path) : Files :=
  { fs with nodes := fs.nodes.filter fun e => !(fs.namedLocation p).isPrefixOf e.1 }

/-- The segments of a path that leads to a location: those behind the working directory, or else
an empty one and then the names from the root. -/
def segmentsTo (fs : Files) (l : Location) : List String :=
  if fs.workingDirectory.isPrefixOf l then l.drop fs.workingDirectory.length else "" :: l

def content? (fs : Files) (l : Location) : Option Content :=
  match fs.node? l with
  | some (.file c) => some c
  | _ => none

/-- The files that are new or differ from those of `before`, with their contents, and those that
are gone, with none. Each is named by the segments of a path. -/
def changedSince (fs before : Files) : List (List String × Option Content) :=
  (fs.nodes.filterMap fun e =>
    match e.2 with
    | .file c => if before.content? e.1 == some c then none else some (fs.segmentsTo e.1, some c)
    | .directory => none)
  ++ before.nodes.filterMap fun e =>
    match e.2 with
    | .file _ => if (fs.content? e.1).isSome then none else some (before.segmentsTo e.1, none)
    | .directory => none

end Files

end Interpose
