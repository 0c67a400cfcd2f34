import RepoAtlas.Command
import RepoAtlas.Text.Lines

/-!
# The program

Reads the files that its input names, one to a line that begins with a slash,
carries out the command on them and writes the snapshot and the map. The other
lines of the input answer the question that the command asks. Nothing is sent
anywhere, so no describer answers.
-/

namespace RepoAtlas.Program

/-- All that a stream still holds. -/
partial def readAll (stream : IO.FS.Stream) (before : ByteArray) : IO ByteArray := do
  let more ← stream.read 65536
  if more.isEmpty then return before else readAll stream (before ++ more)

/-- The file system with a file of the disk in it, if the file can be read. -/
def load (fs : FileSystem) (path : String) : IO FileSystem := do
  try
    let content ← IO.FS.readBinFile path
    let made := fs.makeDirectory (Path.ofNames ((Path.segments path).dropLast.filter (· ≠ [])))
    match made.bind (·.write path content.toList) with
    | .ok fs => return fs
    | .error _ => return fs
  catch _ => return fs

/-- Writes a file to the disk, if the file system has it and its path is a text. -/
def store (fs : FileSystem) (path : Bytes) : IO Unit := do
  match fs.read path, Utf8.decode? path with
  | .ok content, some path => IO.FS.writeBinFile path ⟨content.toArray⟩
  | _, _ => return

/-- No response to any request. -/
def offline : Chat.Transport Unit := fun state _ => (.error .failed, state)

/-- The program, with the words behind its name. -/
def run (words : List String) : IO UInt32 := do
  let input := (← readAll (← IO.getStdin) .empty).toList
  let files := (Text.lines (Utf8.decodeLossy input)).filter fun (line : String) =>
    Path.isAbsolute line
  let fs ← files.foldlM load {}
  let env ← keyNames.mapM fun name => return (name, ← IO.getEnv name)
  let key := (resolveKey fun name => (env.lookup name).join).1
  match Command.perform offline fs words key input () with
  | none => return 1
  | some r =>
    (← IO.getStdout).putStr r.output
    (← IO.getStderr).putStr r.complaint
    if let some run := r.run then
      store r.fs run.snapshotPath
      store r.fs run.mapPath
    return r.code

end RepoAtlas.Program

def main (words : List String) : IO UInt32 := RepoAtlas.Program.run words
