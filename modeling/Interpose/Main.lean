import Interpose.CommandLine.Run

/-!
The program on the files below the directory that it is started in, which may also be named by
their absolute paths.

The files are read first, the command runs on them as a value, and then what it made is written.
-/

namespace Interpose.Machine

/-- The text that names a location to the machine. -/
def pathOf (l : Location) : String := "/" ++ "/".intercalate l

partial def nodesBelow (l : Location) : IO (List (Location × Node)) := do
  let here ← IO.FS.realPath (pathOf l)
  let mut nodes := []
  for entry in ← here.readDir do
    let inner := l ++ [entry.fileName]
    if ← entry.path.isDir then
      nodes := nodes ++ (inner, .directory) :: (← nodesBelow inner)
    else
      let bytes ← IO.FS.readBinFile entry.path
      let content : Content := match String.fromUTF8? bytes with
        | some s => .text s
        | none => .bytes bytes.toList
      nodes := nodes ++ [(inner, .file content)]
  return nodes

/-- The working directory with all that is below it. -/
def readFiles : IO Files := do
  let here : Path := ⟨toString (← IO.currentDir)⟩
  let l : Location := here.segments.filter (!Path.isIdle ·)
  return ⟨l, ← nodesBelow l⟩

/-- Writes the directories and files of `after` that `before` does not have. -/
def writeFiles (before after : Files) : IO Unit := do
  for (l, n) in after.nodes do
    if n == .directory && before.node? l != some .directory then
      IO.FS.createDirAll (pathOf l)
  for (names, content) in after.changedSince before do
    let file := "/".intercalate names
    match content with
    | some (.text s) => IO.FS.writeFile file s
    | some (.bytes bs) => IO.FS.writeBinFile file ⟨bs.toArray⟩
    | none => IO.FS.removeFile file

def run (args : List String) : IO UInt32 := do
  let before ← readFiles
  match CommandLine.respond before args with
  | .misused message =>
    IO.eprintln ("error: " ++ message)
    return CommandLine.usageCode.toUInt32
  | .finished f =>
    writeFiles before f.files
    IO.print f.stdout
    IO.eprint (f.stderr fun level => "[" ++ level.name ++ "] ")
    return f.code.toUInt32

end Interpose.Machine

def main (args : List String) : IO UInt32 := Interpose.Machine.run args
