import Espalier.Diagnostic
import Espalier.Text.Blank

/-!
# Engine settings

The settings are layered: defaults, then a settings file, then the environment, then what
the command line sets. A depth bound is a machine word (at most `2^64 - 1`) or `none` for
unbounded.
-/

namespace Espalier

/-- The largest machine word. -/
def wordMaxValue : Nat := Nat.pow 2 64 - 1

/-- Engine settings. -/
structure Config where
  /-- Directories searched, in order, for `a/b/c.trl` and `a/b/c/__init__.trl`. -/
  searchRoots : List String := ["."]
  /-- The source file extension, without the dot. -/
  sourceExtension : String := "trl"
  /-- The bound on nested macro applications; `none` means unbounded. -/
  maxExpansionDepth : Option Nat := some 1000
  /-- The bound on nested function calls. -/
  maxCallDepth : Nat := 200
  /-- Whether macro-import data is kept in a side cache next to source files. -/
  writeSideCache : Bool := true
  /-- The name of the side-cache directory. -/
  cacheDirName : String := "__trellis_cache__"
deriving Repr, Inhabited

/-- The environment variable whose entries are prepended to the search roots. -/
def envSearchPath : String := "TRELLIS_PATH"

/-- The environment variable that sets the expansion depth bound. -/
def envMaxExpansionDepth : String := "TRELLIS_MAX_EXPANSION_DEPTH"

/-- The value of a nonempty run of ASCII digits. -/
def decimalValue? : List Char → Option Nat
  | [] => none
  | cs => if cs.all Char.isDigit then some (cs.foldl (fun n c => 10 * n + (c.toNat - '0'.toNat)) 0)
    else none

/-- Reads a machine word written in decimal, with an optional plus sign. -/
def parseWord? (cs : List Char) : Option Nat :=
  let digits := match cs with
    | '+' :: rest => rest
    | _ => cs
  match decimalValue? digits with
  | some n => if n ≤ wordMaxValue then some n else none
  | none => none

/-- Whether two texts are equal when ASCII letters are compared without case. -/
def eqIgnoreAsciiCase (a b : String) : Bool :=
  a.length == b.length && (a.toList.zip b.toList).all fun (x, y) => x.toLower == y.toLower

/-- Reads a depth setting: a machine word, or `none` in any case for unbounded. Blanks
around it are ignored. -/
def parseDepth (text : String) : Except Error (Option Nat) :=
  let t := String.ofList (Text.trim text.toList)
  if eqIgnoreAsciiCase t "none" then .ok none
  else match parseWord? t.toList with
    | some n => .ok (some n)
    | none => .error (.plain .ioError
        ("invalid expansion depth '" ++ t ++ "': expected an integer or 'none'"))

namespace Config

/-- Puts a search root in front of the others. -/
def withSearchRoot (c : Config) (root : String) : Config :=
  { c with searchRoots := root :: c.searchRoots }

/-- Sets the expansion depth bound. -/
def withMaxExpansionDepth (c : Config) (d : Option Nat) : Config :=
  { c with maxExpansionDepth := d }

/-- Applies the environment, read through `lookup`: the nonempty entries of the
colon-separated search path go in front of the search roots, and the depth variable sets
the depth bound. -/
def applyEnv (c : Config) (lookup : String → Option String) : Except Error Config := do
  let c := match lookup envSearchPath with
    | some paths => { c with searchRoots := (paths.splitOn ":").filter (!·.isEmpty) ++ c.searchRoots }
    | none => c
  match lookup envMaxExpansionDepth with
  | some d => pure { c with maxExpansionDepth := ← parseDepth d }
  | none => pure c

end Config

end Espalier
