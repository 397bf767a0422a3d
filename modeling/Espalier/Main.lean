import Espalier.Cli.Execute

/-!
# The program

`main` reads the command line and runs the command over the files of the working
directory, then prints what the command printed and exits with `0` on success, `1` when
the command failed or reported failures, and `2` on a malformed command line. Help and
version requests print to standard output and exit with `0`.

Commands work on a file system held in memory. Before a command runs, it is filled from
the disk without listing directories: the settings file, the file or directory named on
the command line, and then, round after round, every file that a loaded source can reach
through its imports, below a search root or next to the importing file. Files are given
times in the order they are loaded. Files the command writes, such as side caches, are
written back to the disk afterwards.
-/

namespace Espalier.Main

open Espalier.Cli

/-- The dotted references of a line that imports: `(level, name)` for `import a.b` and
for `from ..a import b, c`, where the names after `from ... import` also count as
submodules. -/
def lineReferences (line : String) : List (Nat × String) :=
  let words := (line.trimAscii.toString.splitOn " ").filter (!·.isEmpty)
  let clean (w : String) : String := String.ofList (w.toList.filter (· ≠ ','))
  match words with
  | "import" :: rest =>
      ((rest.map clean).filter (fun w => !w.isEmpty && w ≠ "as")).map fun w => (0, w)
  | "from" :: m :: "import" :: names =>
      let level := (m.toList.takeWhile (· = '.')).length
      let base := String.ofList (m.toList.dropWhile (· = '.'))
      let subs := ((names.map clean).filter (fun w => !w.isEmpty && w ≠ "as")).map fun n =>
        if base.isEmpty then n else base ++ "." ++ n
      (level, base) :: subs.map fun s => (level, s)
  | _ => []

/-- The files that could define a module reference made from a source file: for an
absolute reference, below each search root; for a relative one, below the file's own
package directory. Package `__init__` files of every prefix are included. -/
def candidateFiles (roots : List String) (ext : String) (file : String) (ref : Nat × String) :
    List String :=
  let parts := (ref.2.splitOn ".").filter (!·.isEmpty)
  let bases : List String :=
    if ref.1 = 0 then roots
    else
      let up := (List.range (ref.1 - 1)).foldl (fun d _ => (parentPath? d).getD d)
        ((parentPath? file).getD ".")
      [if up.isEmpty then "." else up]
  bases.flatMap fun root =>
    (List.range (parts.length + 1)).flatMap fun k =>
      let dir := (parts.take k).foldl joinPath root
      (if k = parts.length && k > 0 then [withExtension dir ext] else []) ++
        [joinPath dir ("__init__." ++ ext)]

/-- The files a loaded file system leads to next: the candidates of every import of every
loaded source file. -/
def nextCandidates (c : Config) (fs : FileSystem) : List String :=
  let roots := c.searchRoots
  fs.files.flatMap fun f =>
    let path := "/".intercalate f.path
    if extension? path != some c.sourceExtension then []
    else match f.content.toText with
      | .ok text => ((text.splitOn "\n").flatMap lineReferences).flatMap
          (candidateFiles roots c.sourceExtension path)
      | .error _ => []

/-- The paths a command line names directly. -/
def namedPaths (cl : CommandLine) : List String :=
  cl.config.toList ++
    match cl.command with
    | .run f | .expand f | .ast f | .deps f => [f]
    | .check d => [d]

/-- Reads a file from the disk into the file system, if it exists and is new. -/
def loadFile (fs : FileSystem) (tried : List String) (path : String) :
    IO (FileSystem × List String) := do
  if tried.contains path then return (fs, tried)
  try
    let bytes ← IO.FS.readBinFile path
    return (fs.writePinned path (.bytes bytes.toList), path :: tried)
  catch _ => return (fs, path :: tried)

/-- Adds to the file system the files that imports reach from it, round after round, for
a bounded number of rounds. -/
def loadImported (c : Config) (start : FileSystem) (named : List String) : IO FileSystem := do
  let mut fs := start
  let mut tried := named
  for _ in [0:64] do
    let before := tried.length
    for p in nextCandidates c fs do
      (fs, tried) ← loadFile fs tried p
    if tried.length == before then break
  return fs

/-- Writes back the files a command created or changed. -/
def storeFiles (before after : FileSystem) : IO Unit := do
  for f in after.files do
    let path := "/".intercalate f.path
    let old := before.files.find? (·.path == f.path)
    if old.map (·.content.toBytes) != some f.content.toBytes then
      if let some dir := parentPath? path then
        if !dir.isEmpty then IO.FS.createDirAll dir
      IO.FS.writeBinFile path (ByteArray.mk f.content.toBytes.toArray)

/-- The text of an error and its causes, one per line. -/
def errorReport (e : Error) : List String :=
  let rec go : Nat → Error → List String
    | 0, _ => []
    | n + 1, e => e.display :: (match e.cause with
      | some c => go n c
      | none => [])
  go 64 e

end Espalier.Main

open Espalier Espalier.Cli Espalier.Main

/-- Runs the command line. -/
def main (args : List String) : IO UInt32 := do
  match parseCommandLine args with
  | .error r =>
      match r.kind with
      | .displayHelp | .displayVersion | .displayHelpOnMissingArgumentOrSubcommand =>
          IO.print r.message
          return 0
      | _ =>
          IO.eprint r.message
          return 2
  | .ok cl =>
      let searchPath ← IO.getEnv envSearchPath
      let depth ← IO.getEnv envMaxExpansionDepth
      let env : String → Option String := fun k =>
        if k = envSearchPath then searchPath else if k = envMaxExpansionDepth then depth else none
      let mut named : FileSystem := {}
      let mut tried : List String := []
      for p in namedPaths cl do
        (named, tried) ← loadFile named tried p
      let probe : Config := match baseSettings cl env named with
        | .ok c => c
        | .error _ => {}
      let roots := match cl.command with
        | .run f | .expand f | .deps f => (settingsForFile probe f).searchRoots
        | .ast _ => probe.searchRoots
        | .check d => d :: probe.searchRoots
      let files ← loadImported { probe with searchRoots := roots } named tried
      let out := execute cl env files
      IO.print out.stdout
      storeFiles files out.files
      match out.result with
      | .ok true => return 0
      | .ok false => return 1
      | .error e =>
          for l in errorReport e do IO.eprintln l
          return 1
