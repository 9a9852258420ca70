import ClassHeader.Command.Run

/-!
# The program

Runs one command on a snapshot of the working directory and writes the files
that the command changed. Archives on disk are not unpacked, so only directories
serve as class path entries here.
-/

namespace ClassHeader.Program

def stringOf (s : Bytes) : String := String.ofList (Utf8.lossyChars s)

/-- Directories nested deeper than this are left out, so that links cannot lead in circles. -/
def depthLimit : Nat := 64

def snapshot : (depth : Nat) → (directory : String) → FileTree → IO FileTree
  | 0, _, t => return t
  | depth + 1, directory, t => do
    let mut t := t
    for entry in ← (← IO.FS.realPath directory).readDir do
      let path := directory ++ "/" ++ entry.fileName
      try
        if ← entry.path.isDir then
          t ← snapshot depth path (t.install (text path) .directory)
        else
          let content ← IO.FS.readBinFile entry.path
          t := t.install (text path) (.file (.data content.toList))
      catch _ => pure ()
    return t

def settingVariables : IO (List (Bytes × Bytes)) :=
  Config.variableNames.filterMapM fun name => do
    return (← IO.getEnv (stringOf name)).map fun value => (name, text value)

def writeChanges (before after : FileTree) : IO Unit := do
  for (place, node) in after.nodes do
    if before.at? place ≠ some node then
      let path := stringOf (Path.ofParts place)
      match node with
      | .directory => IO.FS.createDirAll path
      | .file content => IO.FS.writeBinFile path ⟨content.bytes.toArray⟩

end ClassHeader.Program

open ClassHeader Program in
def main (args : List String) : IO UInt32 := do
  let files ← snapshot depthLimit "." {}
  let around : Surroundings := { environment := ← settingVariables }
  let (result, world) := (Command.run around (args.map text)).run.run { files }
  let stdout ← IO.getStdout
  stdout.write ⟨world.stdout.toArray⟩
  writeChanges files world.files
  match result with
  | .ok _ => return 0
  | .error e =>
    IO.eprintln (stringOf (e.category.name ++ text ": " ++ e.message))
    return 1
