import Espalier.Import.Locate
import Espalier.Import.Lines
import Espalier.Syntax.Parse
import Espalier.Syntax.Encoding
import Espalier.Phase

/-!
# Dependencies and their times

A source file *depends* on the modules its macro-imports and dialect-imports name. Its
*dependency time* is the latest modification time of the file and, through those imports,
of every definition file it reaches; compiled code is reused only while that time stays
the same. A file met again while its own time is being computed counts as 0, so cycles
end.

The imports of a file are kept in a side record next to it,
`<dir>/<cache>/<name>.deps.json`, which is read back instead of parsing the file as long
as it names the same file and modification time. A file that does not parse still yields
the import lines of its raw text.
-/

namespace Espalier

/-- The macro- and dialect-imports of a source file, as kept in its side record. -/
structure DepsRecord where
  source : String
  mtimeNs : Nat
  macroImports : List Stmt
  dialectImports : List Stmt
  hasRelativeMacroImports : Bool
deriving Inhabited

namespace DepsRecord

/-- The record as JSON. -/
def toJson (r : DepsRecord) : Json :=
  .obj [("source", .str r.source), ("mtime_ns", .num r.mtimeNs),
    ("macroimports", .arr (Stmt.listToJson r.macroImports)),
    ("dialectimports", .arr (Stmt.listToJson r.dialectImports)),
    ("has_relative_macroimports", .bool r.hasRelativeMacroImports)]

/-- Reads a record back from JSON, as strictly as trees are read back: each field given
once, the time a whole number of 64 bits. -/
def ofJson? (j : Json) : Option DepsRecord := do
  let [source, mtime, macros, dialects, relative] ← j.fields?
      ["source", "mtime_ns", "macroimports", "dialectimports", "has_relative_macroimports"]
    | none
  let fuel := j.depth + 1
  pure { source := ← Json.required? Json.asStr? source
         mtimeNs := ← Json.required? (Json.asNatBelow? (Nat.pow 2 64)) mtime
         macroImports := ← Stmt.listOfJson? fuel (← Json.elements? macros)
         dialectImports := ← Stmt.listOfJson? fuel (← Json.elements? dialects)
         hasRelativeMacroImports := ← Json.required? Json.asBool? relative }

end DepsRecord

/-- The top-level statements of a module, with the bodies of top-level phase blocks in
place of the blocks. -/
def importCandidates (m : Module) : List Stmt :=
  m.body.flatMap fun s =>
    match s with
    | .mk (.withBlock _ _ body) _ => if s.isPhaseBlock then body else [s]
    | _ => [s]

/-- Scans a source text for its imports. -/
def DepsRecord.scan (source : String) (mtimeNs : Nat) (text : String) : DepsRecord :=
  let stmts := match Syntax.parseModule text source with
    | .ok m => importCandidates m
    | .error _ => (importLines text).filterMap fun l =>
        match Syntax.parseStatement l source with
        | .ok s => some s
        | .error _ => none
  let macroImports := stmts.filter (Stmt.isMagicImport macrosMagic)
  let dialectImports := stmts.filter (Stmt.isMagicImport dialectsMagic)
  let hasRelativeMacroImports := macroImports.any fun s =>
    match s with
    | .mk (.importFrom _ level _) _ => level > 0
    | _ => false
  { source, mtimeNs, macroImports, dialectImports, hasRelativeMacroImports }

/-- Where the side record of a file is kept. -/
def sideRecordPath (path : String) (cacheDir : String) : Option String := do
  let dir ← parentPath? path
  let name ← fileName? path
  pure (joinPath (joinPath dir cacheDir) (name ++ ".deps.json"))

/-- A direct macro or dialect dependency: the absolute module name, and its file unless
it is an engine module or was not found. -/
structure Dependency where
  module : String
  path : Option String

/-- What the dependency-time walk reads of the files: the canonical path a path names, the
modification time of a file, and the files a file depends on. -/
structure DepsReads where
  canonical : String → Run String
  mtime : String → Run Nat
  dependsOn : String → Run (List String)

namespace Run

/-- The modification time of a file, in nanoseconds. -/
def fileMtime (path : String) : Run Nat := do
  match (← get).files.mtime path with
  | .ok t => pure t
  | .error e => throw (.plain .ioError ("cannot stat " ++ path ++ ": " ++ e))

/-- The text of a file. -/
def readText (path : String) : Run String := do
  match (← get).files.readText path with
  | .ok t => pure t
  | .error e => throw (.plain .ioError ("cannot read " ++ path ++ ": " ++ e))

/-- The side record of a file, read back when it is current, rebuilt and written
otherwise. -/
def depsRecord (path : String) : Run DepsRecord := do
  let own ← fileMtime path
  let s ← get
  let cachePath := sideRecordPath path s.config.cacheDirName
  if let some cp := cachePath then
    if let .ok text := s.files.readText cp then
      if let .ok j := Json.parse text then
        if let some r := DepsRecord.ofJson? j then
          if r.mtimeNs = own ∧ samePath r.source path then return r
  let text ← readText path
  let record := DepsRecord.scan path own text
  if s.config.writeSideCache then
    if let some cp := cachePath then
      match (← get).files.writeUntimed cp (.text (record.toJson.pretty 0)) with
      | .ok fs => modify fun s => { s with files := fs }
      | .error _ => pure ()
  pure record

/-- Whether a module is one of the engine's own. -/
def isEngineModule (name : String) : Bool :=
  name = "trellis" ∨ name = "trellis.ast" ∨ name = "trellis.debug"

/-- The direct macro and dialect dependencies of a file, in import order; imports of the
module's own next phase are left out. -/
def dependencies (path : String) : Run (List Dependency) := do
  let record ← depsRecord path
  let mut out : List Dependency := []
  for stmt in record.macroImports ++ record.dialectImports do
    let .mk (.importFrom module level _) loc := stmt | continue
    let some module := module
      | throw (.atLoc .syntaxError path loc "missing module name in macro-import")
    if level = 0 ∧ module = selfModule then continue
    let absolute ← if level > 0 then do
        let package ← resolvePackage path loc
        match resolveName level (some module) package with
        | .ok n => pure n
        | .error e => throw (e.located path loc)
      else pure module
    let depPath ← if isEngineModule absolute then pure none else findModule absolute
    out := out ++ [{ module := absolute, path := depPath }]
  pure out

/-- The readings of the session's files: a dependency counts when its module was found as
a file. -/
def filesReads : DepsReads where
  canonical path := do
    match (← get).files.canonicalize path with
    | .ok c => pure c
    | .error e => throw (.plain .ioError ("cannot resolve " ++ path ++ ": " ++ e))
  mtime := fileMtime
  dependsOn path := do return (← dependencies path).filterMap (·.path)

mutual
/-- The dependency time of a file, read through `R`: the latest modification time over it
and everything its imports reach, remembered per canonical path. -/
def xstatsWith (R : DepsReads) : Nat → String → Run Nat
  | 0, _ => throw (.plain .internalError "dependency chain too long")
  | f + 1, path => do
    let canonical ← R.canonical path
    if let some t := (← get).xstats.lookup canonical then return t
    if (← get).inProgress.contains canonical then return 0
    modify fun s => { s with inProgress := canonical :: s.inProgress }
    let result ← tryCatch (Except.ok <$> computeXstatsWith R f canonical)
      (fun e => pure (Except.error e))
    modify fun s => { s with inProgress := s.inProgress.filter (· != canonical) }
    match result with
    | .ok t =>
        modify fun s => { s with xstats := assocSet s.xstats canonical t }
        pure t
    | .error e => throw e

/-- The dependency time of a canonical path, computed afresh. -/
def computeXstatsWith (R : DepsReads) : Nat → String → Run Nat
  | 0, _ => throw (.plain .internalError "dependency chain too long")
  | f + 1, path => do
    let mut latest ← R.mtime path
    for p in ← R.dependsOn path do
      latest := max latest (← xstatsWith R f p)
    pure latest
end

/-- The dependency time of a file of the session. -/
def pathXstats (f : Nat) (path : String) : Run Nat := xstatsWith filesReads f path

end Run

end Espalier
