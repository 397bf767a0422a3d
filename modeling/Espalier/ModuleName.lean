import Espalier.Diagnostic

/-!
# Dotted module names

Modules are named by dotted paths such as `pkg.sub.mod`. A relative import names a module
by a number of leading dots and an optional rest: one dot is the importing module's own
package, each further dot one package up.
-/

namespace Espalier

/-- The components of a dotted name. -/
def dottedParts (name : String) : List String := name.splitOn "."

/-- The parent of a dotted name and its last component, if it has a parent. -/
def splitLast? (name : String) : Option (String × String) :=
  match (dottedParts name).reverse with
  | last :: init@(_ :: _) => some (".".intercalate init.reverse, last)
  | _ => none

/-- The package part of a dotted name: everything before its last component, or the
empty name. -/
def parentName (name : String) : String :=
  match splitLast? name with
  | some (p, _) => p
  | none => ""

/-- Resolves a possibly relative import against the importing module's package. -/
def resolveName (level : Nat) (module : Option String) (package : String) :
    Except Error String :=
  if level = 0 then
    match module with
    | some m => if m.isEmpty then .error (.plain .importError "empty module name") else .ok m
    | none => .error (.plain .importError "empty module name")
  else if package.isEmpty then
    .error (.plain .importError "attempted relative import with no known parent package")
  else
    let parts := dottedParts package
    if level > parts.length then
      .error (.plain .importError "attempted relative import beyond top-level package")
    else
      let base := ".".intercalate (parts.take (parts.length - (level - 1)))
      match module with
      | some m => if m.isEmpty then .ok base else .ok (base ++ "." ++ m)
      | none => .ok base

/-- Whether a string is an identifier: a letter or underscore, then letters, digits and
underscores, all ASCII. -/
def isIdentifier (s : String) : Bool :=
  match s.toList with
  | c :: cs => (c.isAlpha || c == '_') && cs.all (fun c => c.isAlphanum || c == '_')
  | [] => false

end Espalier
