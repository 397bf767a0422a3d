/-!
# File paths

Paths are texts whose parts are separated by `/`. A path is compared and taken apart by
its *components*: empty parts and `.` parts inside the path are not components, a leading
`.` is one, and a leading `/` marks the path as rooted.

Joining, the parent, the file name, its stem and extension behave as usual for paths:
joining a rooted path replaces, and the parent of a path is its text before the last
component with the separators before it removed.
-/

namespace Espalier

/-- A component of a path. -/
inductive PathPart where
  /-- The root of a rooted path, `/`. -/
  | root
  | current
  | parent
  | normal (name : String)
deriving DecidableEq, Repr, Inhabited

namespace PathPart

/-- The rank of a component's kind in the order of paths. -/
def rank : PathPart → Nat
  | .root => 0 | .current => 1 | .parent => 2 | .normal _ => 3

/-- The text of a component. -/
def text : PathPart → String
  | .root => "/" | .current => "." | .parent => ".."
  | .normal n => n

/-- Orders components: by kind, then names by their bytes. -/
def lt (a b : PathPart) : Bool :=
  match a, b with
  | .normal x, .normal y => decide (x < y)
  | _, _ => a.rank < b.rank

end PathPart

/-- The components of a path. -/
def pathParts (p : String) : List PathPart :=
  let raw := p.splitOn "/"
  let (lead, rest) : List PathPart × List String :=
    match raw with
    | "" :: rest => if p.isEmpty then ([], []) else ([.root], rest)
    | "." :: rest => ([.current], rest)
    | first :: rest => ([], first :: rest)
    | [] => ([], [])
  lead ++ rest.filterMap fun s =>
    if s.isEmpty || s = "." then none else if s = ".." then some .parent else some (.normal s)

/-- Whether a path is rooted. -/
def isRooted (p : String) : Bool :=
  match pathParts p with
  | .root :: _ => true
  | _ => false

/-- Appends a path: a rooted one replaces, otherwise a separator is put between. -/
def joinPath (a b : String) : String :=
  if isRooted b then b
  else if a.isEmpty then b
  else if a.endsWith "/" then a ++ b
  else a ++ "/" ++ b

/-- Whether two paths have the same components. -/
def samePath (a b : String) : Bool := pathParts a == pathParts b

/-- The text of a path without its trailing separators, keeping a lone `/`. -/
def trimSeparators (p : String) : String :=
  let cs := p.toList.reverse.dropWhile (· = '/') |>.reverse
  if cs.isEmpty && p.startsWith "/" then "/" else String.ofList cs

/-- The parent of a path: its text before the last component, or `none` for a root or an
empty path. -/
def parentPath? (p : String) : Option String :=
  match (pathParts p).getLast? with
  | none | some .root => none
  | some _ =>
    -- drop the last component's text, then the separators and `.` parts before it
    let t := trimSeparators p
    let cs := t.toList.reverse
    let afterLast := cs.dropWhile (· ≠ '/')
    let stripDots : List Char → List Char := fun rs =>
      match rs with
      | '/' :: rest => rest.dropWhile (· = '/')
      | other => other
    let kept := (stripDots afterLast).reverse
    -- interior `.` parts are not components: a parent that ends in one loses it
    let rec dropCurrent (fuel : Nat) (r : List Char) : List Char :=
      match fuel with
      | 0 => r
      | f + 1 =>
        match r.reverse with
        | '.' :: '/' :: more => dropCurrent f ((more.dropWhile (· = '/')).reverse)
        | _ => r
    let kept := dropCurrent kept.length kept
    if kept.isEmpty && p.startsWith "/" then some "/" else some (String.ofList kept)

/-- The last component when it is a name. -/
def fileName? (p : String) : Option String :=
  match (pathParts p).getLast? with
  | some (.normal n) => some n
  | _ => none

/-- A file name's stem and extension: split at the last dot, unless that dot starts the
name. -/
def splitExtension (name : String) : String × Option String :=
  if name = ".." then (name, none)
  else
    match (name.splitOn ".").reverse with
    | ext :: init@(_ :: _) =>
        let stem := ".".intercalate init.reverse
        if stem.isEmpty then (name, none) else (stem, some ext)
    | _ => (name, none)

/-- The extension of a path's file name. -/
def extension? (p : String) : Option String := (fileName? p).bind fun n => (splitExtension n).2

/-- The stem of a path's file name. -/
def fileStem? (p : String) : Option String := (fileName? p).map fun n => (splitExtension n).1

/-- Replaces the extension of a path's file name; an empty extension removes it. -/
def withExtension (p : String) (ext : String) : String :=
  match fileName? p with
  | none => p
  | some name =>
    let base := (trimSeparators p).dropEnd name.length |>.toString
    let stem := (splitExtension name).1
    if ext.isEmpty then base ++ stem else base ++ stem ++ "." ++ ext

/-- The rest of a path after a prefix of whole components, if it has that prefix. -/
def stripPathPrefix? (p pre : String) : Option String :=
  let ps := pathParts p
  let qs := pathParts pre
  if qs.isPrefixOf ps then some ("/".intercalate ((ps.drop qs.length).map PathPart.text)) else none

/-- Orders paths by their components. -/
def pathLt (a b : String) : Bool :=
  let rec go : List PathPart → List PathPart → Bool
    | [], [] => false
    | [], _ :: _ => true
    | _ :: _, [] => false
    | x :: xs, y :: ys => if x = y then go xs ys else x.lt y
  go (pathParts a) (pathParts b)

end Espalier
