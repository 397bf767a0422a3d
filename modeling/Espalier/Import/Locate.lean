import Espalier.Session
import Espalier.Macro.Basic

/-!
# Finding modules

A module `a.b.c` is the file `a/b/c.<ext>` or `a/b/c/__init__.<ext>` below the first search
root that has one; a directory `a/b/c` without such a file stands for a namespace package.

A relative import resolves against the package of the importing file, which is the
file's directory relative to the first search root that contains it. A file directly in a
search root is in no package.

`resolveImport` reads a macro- or dialect-import: the module it names, made absolute, and
the names it imports after the magic first name. `from __self__ import ...` names the
module of the next higher phase, which only exists while compiling in phases.
-/

namespace Espalier

namespace Run

/-- The file of module `name` on the search roots. -/
def findModule (name : String) : Run (Option String) := do
  let s ← get
  let parts := dottedParts name
  if parts.any (·.isEmpty) then return none
  let ext := s.config.sourceExtension
  for root in s.config.searchRoots do
    let base := parts.foldl joinPath root
    let file := withExtension base ext
    if s.files.isFile file then return some file
    let init := joinPath base ("__init__." ++ ext)
    if s.files.isFile init then return some init
  pure none

/-- A directory standing for package `name`, which has no `__init__` file. -/
def findNamespaceDir (name : String) : Run (Option String) := do
  let s ← get
  for root in s.config.searchRoots do
    let dir := (dottedParts name).foldl joinPath root
    if s.files.isDir dir then return some dir
  pure none

/-- The package of the file named `filename`, for a relative import at `loc`. -/
def resolvePackage (filename : String) (loc : Option Loc) : Run String := do
  let s ← get
  let noPackage : Error := .atLoc .importError filename loc
    "could not determine containing package to resolve relative import"
  let dir ← match parentPath? filename with
    | some d =>
        match s.files.canonicalize (if d.isEmpty then "." else d) with
        | .ok c => pure c
        | .error _ => throw noPackage
    | none => throw noPackage
  for root in s.config.searchRoots do
    match s.files.canonicalize root with
    | .error _ => pure ()
    | .ok r =>
        if samePath dir r then
          throw (.atLoc .syntaxError filename loc "relative import outside any package")
        match stripPathPrefix? dir r with
        | some rel => return ".".intercalate ((pathParts rel).map PathPart.text)
        | none => pure ()
  throw noPackage

end Run

/-- Where a macro- or dialect-import points. -/
structure ImportTarget where
  /-- The absolute dotted module name. -/
  module : String
  /-- The imported names after the magic first name. -/
  names : List Alias
  /-- Whether the import was `from __self__ import ...`. -/
  isSelf : Bool

namespace Run

/-- Resolves the module a macro- or dialect-import names. `allowAs` permits renamed
names, which only macro-imports may have. -/
def resolveImport (stmt : Stmt) (filename : String) (selfName : Option String) (allowAs : Bool) :
    Run ImportTarget := do
  let .mk (.importFrom module level names) loc := stmt
    | throw (.plain .internalError ("resolve_import expects a from-import, got " ++ stmt.typeName))
  let some module := module.filter (!·.isEmpty)
    | throw (.atLoc .syntaxError filename loc "missing module name in macro-import")
  let names := names.drop 1
  if !allowAs then
    if let some a := names.find? (·.asname.isSome) then
      throw (.atLoc .syntaxError filename loc
        ("'" ++ a.name ++ "' may not be imported with 'as' in a dialect-import"))
  if level = 0 ∧ module = selfModule then
    match selfName with
    | some m => return { module := m, names, isSelf := true }
    | none => throw (.atLoc .importError filename loc
        ("'" ++ selfModule ++ "' is only available in multi-phase compilation"))
  let absolute ← if level > 0 then do
      let package ← resolvePackage filename loc
      match resolveName level (some module) package with
      | .ok n => pure n
      | .error e => throw (e.located filename loc)
    else pure module
  pure { module := absolute, names, isSelf := false }

end Run

end Espalier
