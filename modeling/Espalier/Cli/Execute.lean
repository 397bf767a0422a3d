import Espalier.Cli.Parse
import Espalier.Engine.Api
import Espalier.Config.File
import Espalier.Syntax.Encoding

/-!
# Running a command

The settings of a command are layered: the defaults or the settings file, then the
environment (`TRELLIS_PATH` roots first, `TRELLIS_MAX_EXPANSION_DEPTH`), then the `-I`
roots in the order given, before all others, then `--max-expansion-depth`. A command that
compiles a file also searches the file's directory, after every configured root.

* `run FILE` compiles the file as the module `__main__` and runs it.
* `expand FILE` prints the expanded source of the file, compiled as `__main__`.
* `ast FILE` prints the file's tree before any expansion, as indented JSON.
* `deps FILE` prints each macro and dialect module the file imports with the file that
  defines it, then the file's dependency time.
* `check DIR` expands every source file below the directory, each as the module its path
  names, and prints `ok` or `FAILED` for each, then a count. It succeeds when nothing
  failed.

Everything a command prints, and everything the programs it runs print, goes to one
output, in order.
-/

namespace Espalier.Cli

/-- The directory of a file, `.` for a file named without one. -/
def fileDirectory (file : String) : String :=
  match parentPath? file with
  | some d => if d.isEmpty then "." else d
  | none => "."

/-- The settings for compiling a file: its directory is searched after the configured
roots, unless it is one of them. -/
def settingsForFile (c : Config) (file : String) : Config :=
  let dir := fileDirectory file
  if c.searchRoots.any (samePath · dir) then c
  else { c with searchRoots := c.searchRoots ++ [dir] }

/-- The settings of a command line, read through the environment `env` and the files. -/
def baseSettings (cl : CommandLine) (env : String → Option String) (files : FileSystem) :
    Except Error Config := do
  let c ← match cl.config with
    | some path =>
        match files.readText path with
        | .ok text => Config.ofYaml text
        | .error e => throw (.plain .ioError ("cannot read configuration " ++ path ++ ": " ++ e))
    | none => pure {}
  let c ← c.applyEnv env
  let c := cl.searchRoots.reverse.foldl (fun c r => c.withSearchRoot r) c
  match cl.maxExpansionDepth with
  | some d => return c.withMaxExpansionDepth (← parseDepth d)
  | none => return c

/-- The dotted name of a file below a directory: its path relative to the directory,
without the extension, with a final `__init__` dropped. -/
def moduleNameBelow (root file : String) : String :=
  let rel := (stripPathPrefix? file root).getD file
  let parts := (pathParts (withExtension rel "")).map PathPart.text
  let parts := if parts.length > 1 && parts.getLast? == some "__init__" then parts.dropLast else parts
  ".".intercalate parts

namespace Run

/-- The bytes of a source file. -/
def readSource (path : String) : Run (List UInt8) := do
  match (← get).files.readBytes path with
  | .ok bytes => pure bytes
  | .error e => throw (.plain .ioError ("cannot read " ++ path ++ ": " ++ e))

/-- Prints a text made of whole lines. -/
def printLines (text : String) : Run Unit := do
  let lines := text.splitOn "\n"
  let lines := if lines.getLast? == some "" then lines.dropLast else lines
  for l in lines do Run.emit l

/-- Uses settings from now on. -/
def useSettings (c : Config) : Run Unit := modify fun s => { s with config := c }

/-- Expands every source file below a directory, reporting each. -/
def checkTree (dir : String) : Run Bool := do
  let c ← Run.config
  let files := ((← get).files.walk dir c.cacheDirName).filter
    fun f => extension? f == some c.sourceExtension
  let files := files.mergeSort fun a b => !pathLt b a
  let mut failed := 0
  for f in files do
    let expanded ← tryCatch
      (do
        let bytes ← readSource f
        let _ ← Run.expand (.bytes bytes) f (some (moduleNameBelow dir f))
        pure true)
      (fun _ => pure false)
    if expanded then Run.emit ("ok      " ++ f)
    else
      failed := failed + 1
      Run.emit ("FAILED  " ++ f)
  Run.emit ("checked " ++ toString files.length ++ " file(s), " ++ toString failed ++ " failed")
  pure (failed == 0)

/-- Runs a command with the given base settings; `false` when failures were reported. -/
def command (cmd : Command) (base : Config) : Run Bool := do
  match cmd with
  | .run file =>
      useSettings (settingsForFile base file)
      let _ ← Run.createModule (some "__main__") (some file)
      let bytes ← readSource file
      let _ ← Run.runIn (.bytes bytes) (.named "__main__")
      pure true
  | .expand file =>
      useSettings (settingsForFile base file)
      let bytes ← readSource file
      let m ← Run.expand (.bytes bytes) file (some "__main__")
      printLines (unparseModule m)
      pure true
  | .ast file =>
      let bytes ← readSource file
      let text ← match Text.decodeUtf8 bytes with
        | .ok t => pure t
        | .error flaw => throw (.plain .ioError (file ++ ": not valid UTF-8: " ++ flaw.describe))
      let m ← liftExcept (Syntax.parseModule text file)
      Run.emit (m.toJson.pretty 0)
      pure true
  | .deps file =>
      useSettings (settingsForFile base file)
      for d in ← Run.dependencies file do
        Run.emit (d.module ++ "\t" ++ d.path.getD "<builtin or not found>")
      Run.emit ("xstats\t" ++ toString (← Run.pathXstats engineFuel file))
      pure true
  | .check dir =>
      useSettings (base.withSearchRoot dir)
      checkTree dir

end Run

/-- What a command printed, how it ended (its success, or the error that stopped it),
and the files as it left them. -/
structure Outcome where
  stdout : String
  result : Except Error Bool
  files : FileSystem

/-- The printed text of a session: each line it wrote, ended by a line feed. -/
def printed (s : Session) : String := String.join (s.output.toList.map (· ++ "\n"))

/-- Runs an accepted command line over the files, with the environment `env`. -/
def execute (cl : CommandLine) (env : String → Option String) (files : FileSystem) : Outcome :=
  match baseSettings cl env files with
  | .error e => ⟨"", .error e, files⟩
  | .ok base =>
    match (Run.command cl.command base).run { config := base, files } with
    | .ok ok s => ⟨printed s, .ok ok, s.files⟩
    | .error e s => ⟨printed s, .error e, s.files⟩

end Espalier.Cli
