import PostingIndex.CommandLine
import Std.Time.DateTime.Timestamp

/-!
# The program

## Contents

The command line program: it loads the files that a command line names into a
directory, serves the command line there, and stores the files that changed.
-/

namespace PostingIndex

namespace Program

def now : IO UInt64 := do
  let time ← Std.Time.Timestamp.now
  let nanoseconds := time.toNanosecondsSinceUnixEpoch.val
  return UInt64.ofNat (nanoseconds / 1000).toNat

inductive Found where
  | nothing
  | folder
  | file (bytes : FileBytes)

def probe (names : List String) : IO Found := do
  try
    let bytes ← IO.FS.readBinFile (Path.text names)
    return .file bytes.data
  catch failure =>
    match failure with
    | .noFileOrDirectory _ _ _ => return .nothing
    | .invalidArgument _ _ _ => return .nothing
    | .inappropriateType _ _ _ => return .folder
    | other => throw other

/--
Loads what lies on the way along steps from a folder: folders up to the first
step that leads to a file or to nothing.
-/
def loadAlong (directory : Directory) (folder : List String) :
    List String -> IO Directory
  | [] => return directory
  | step :: rest => do
      let here := Path.take folder step
      match ← probe here with
      | .nothing => return directory
      | .folder =>
          loadAlong { directory with folders := here :: directory.folders } here rest
      | .file bytes => return directory.put here bytes

def load (directory : Directory) (text : String) : IO Directory :=
  let path := Path.ofString text
  loadAlong directory path.start path.steps

/-- Stores the files of a directory that differ from those of an earlier one. -/
def store (before after : Directory) : IO Unit :=
  after.files.forM fun (names, bytes) => do
    if before.find? names ≠ some bytes then
      IO.FS.writeBinFile (Path.text names) ⟨bytes⟩

def printNotices (verbose : Bool) (notices : List Notice) : IO Unit :=
  notices.forM fun notice => do
    if verbose ∨ notice.level = .warn then
      IO.eprintln notice.line

def serve (line : CommandLine) : IO UInt32 := do
  let before ← line.paths.foldlM load {}
  let served := line.serve before (← now)
  store before served.directory
  printNotices line.verbose served.notices
  IO.print served.output
  IO.eprint served.complaint
  return served.code.toUInt32

end Program

end PostingIndex

def main (arguments : List String) : IO UInt32 := do
  match PostingIndex.CommandLine.ofArguments? arguments with
  | none =>
      IO.eprint PostingIndex.CommandLine.usage
      return PostingIndex.CommandLine.usageCode.toUInt32
  | some line => PostingIndex.Program.serve line
