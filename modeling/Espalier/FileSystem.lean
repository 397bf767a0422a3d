import Espalier.Path
import Espalier.Text.Utf8

/-!
# Files

The files a program sees: a finite tree below the working directory, each file with its
bytes and a modification time in nanoseconds. Directories are the proper prefixes of file
paths, and the working directory itself, whose absolute path is `workDir`. Outside the
working directory only the directories on the way from the root to it exist.

Relative paths start at the working directory, rooted ones at the root. A path is followed
one name at a time, as the operating system follows it: every name before the last, and a
last name followed by a separator, must be a directory that exists, and `..` goes back up
from there (the root is its own parent).

Failures are described by the usual operating-system texts.
-/

namespace Espalier

/-- What a file holds: text, or raw bytes that may not be text. -/
inductive Content where
  | text (s : String)
  | bytes (bs : List UInt8)
deriving Repr, Inhabited

namespace Content

/-- The bytes of a file. -/
def toBytes : Content → List UInt8
  | .text s => Text.encodeUtf8 s
  | .bytes bs => bs

/-- The text of a file, or the flaw that keeps its bytes from being text. -/
def toText : Content → Except Text.Utf8Flaw String
  | .text s => .ok s
  | .bytes bs => Text.decodeUtf8 bs

end Content

/-- A file: where it is below the working directory, what it holds, when it changed. -/
structure FileEntry where
  path : List String
  content : Content
  mtime : Nat
deriving Repr, Inhabited

/-- The files below the working directory, and how many pinned writes have happened. -/
structure FileSystem where
  files : List FileEntry := []
  clock : Nat := 0
deriving Repr, Inhabited

/-- The text of a missing file. -/
def notFoundText : String := "No such file or directory (os error 2)"

/-- The text of reading a directory as a file. -/
def isDirectoryText : String := "Is a directory (os error 21)"

/-- The text of going through a file as if it were a directory. -/
def notDirectoryText : String := "Not a directory (os error 20)"

/-- The text of reading bytes that are not UTF-8 as text. -/
def notUtf8Text : String := "stream did not contain valid UTF-8"

/-- The first pinned modification time, in seconds: the `k`-th pinned write gets this plus
`k` seconds. -/
def pinnedEpoch : Nat := 1600000000

/-- The names from the root to the working directory. -/
def workParts : List String := ["tmp", "trellis-work"]

/-- The text of an absolute location, given by its names from the root. -/
def absoluteText (abs : List String) : String :=
  if abs.isEmpty then "/" else String.join (abs.map ("/" ++ ·))

/-- The absolute path of the working directory. -/
def workDir : String := absoluteText workParts

/-- The names below the working directory of an absolute location inside it. -/
def insideWork? (abs : List String) : Option (List String) :=
  if workParts.isPrefixOf abs then some (abs.drop workParts.length) else none

/-- The names below the working directory that a path leads to, taking `..` by the text
alone, if it ends inside the working directory. -/
def resolvePath (p : String) : Option (List String) :=
  let step : List String → PathPart → List String
    | _, .root => []
    | abs, .current => abs
    | abs, .parent => abs.dropLast
    | abs, .normal n => abs ++ [n]
  insideWork? ((pathParts p).foldl step workParts)

namespace FileSystem

/-- The file at a resolved location. -/
def find? (fs : FileSystem) (loc : List String) : Option FileEntry :=
  fs.files.find? (·.path == loc)

/-- Whether a resolved location is a directory. -/
def isDirAt (fs : FileSystem) (loc : List String) : Bool :=
  loc.isEmpty || fs.files.any fun f => loc.isPrefixOf f.path && loc.length < f.path.length

/-- The file at an absolute location. -/
def fileAt? (fs : FileSystem) (abs : List String) : Option FileEntry :=
  (insideWork? abs).bind fs.find?

/-- Whether an absolute location is a directory: one on the way to the working directory, or
one of the tree below it. -/
def isDirectory (fs : FileSystem) (abs : List String) : Bool :=
  abs.isPrefixOf workParts || ((insideWork? abs).map fs.isDirAt).getD false

/-- Goes one name further along a path from `here`, which has to be a directory: from a
file that fails with `notDirectoryText`, from nothing with `notFoundText`. An empty name and
`.` stay, `..` goes up. -/
def step (fs : FileSystem) (here : List String) (name : String) : Except String (List String) :=
  if !fs.isDirectory here then
    .error (if (fs.fileAt? here).isSome then notDirectoryText else notFoundText)
  else if name.isEmpty || name = "." then .ok here
  else if name = ".." then .ok here.dropLast
  else .ok (here ++ [name])

/-- Follows a path one name at a time to the absolute location it names, which need not
exist itself. The empty path names nothing. -/
def locate (fs : FileSystem) (p : String) : Except String (List String) :=
  match p.splitOn "/" with
  | "" :: rest => if p.isEmpty then .error notFoundText else rest.foldlM fs.step []
  | parts => parts.foldlM fs.step workParts

/-- Whether a path names a file. -/
def isFile (fs : FileSystem) (p : String) : Bool :=
  match fs.locate p with
  | .ok abs => (fs.fileAt? abs).isSome
  | .error _ => false

/-- Whether a path names a directory. -/
def isDir (fs : FileSystem) (p : String) : Bool :=
  match fs.locate p with
  | .ok abs => fs.isDirectory abs
  | .error _ => false

/-- The absolute path of what a path names. -/
def canonicalize (fs : FileSystem) (p : String) : Except String String := do
  let abs ← fs.locate p
  if (fs.fileAt? abs).isSome || fs.isDirectory abs then pure (absoluteText abs)
  else throw notFoundText

/-- The file a path names, or why there is none. -/
def entry (fs : FileSystem) (p : String) : Except String FileEntry := do
  let abs ← fs.locate p
  match fs.fileAt? abs with
  | some f => pure f
  | none => throw (if fs.isDirectory abs then isDirectoryText else notFoundText)

/-- The bytes of a file. -/
def readBytes (fs : FileSystem) (p : String) : Except String (List UInt8) :=
  (·.content.toBytes) <$> fs.entry p

/-- The text of a file. -/
def readText (fs : FileSystem) (p : String) : Except String String := do
  let f ← fs.entry p
  match f.content.toText with
  | .ok s => .ok s
  | .error _ => .error notUtf8Text

/-- The modification time of a file or directory, in nanoseconds; directories have 0. -/
def mtime (fs : FileSystem) (p : String) : Except String Nat := do
  let abs ← fs.locate p
  match fs.fileAt? abs with
  | some f => pure f.mtime
  | none => if fs.isDirectory abs then pure 0 else throw notFoundText

/-- Stores a file at a resolved location with the given time, replacing one there. -/
def put (fs : FileSystem) (loc : List String) (c : Content) (t : Nat) : FileSystem :=
  let f : FileEntry := ⟨loc, c, t⟩
  if fs.files.any (·.path == loc) then
    { fs with files := fs.files.map fun g => if g.path == loc then f else g }
  else { fs with files := fs.files ++ [f] }

/-- Writes a file with the next pinned modification time. -/
def writePinned (fs : FileSystem) (p : String) (c : Content) : FileSystem :=
  match resolvePath p with
  | some loc =>
      let k := fs.clock + 1
      { fs.put loc c ((pinnedEpoch + k) * 1000000000) with clock := k }
  | none => fs

/-- Writes a file whose time nobody reads. -/
def writeUntimed (fs : FileSystem) (p : String) (c : Content) : Except String FileSystem :=
  match resolvePath p with
  | some loc =>
      if loc.isEmpty || fs.isDirAt loc then .error isDirectoryText
      else if (List.range loc.length).any (fun k => (fs.find? (loc.take k)).isSome) then
        .error notDirectoryText
      else .ok (fs.put loc c 0)
  | none => .error notFoundText

/-- The files below a directory, as paths that start with the directory's own text,
leaving out every file below a directory named `skip`; the directory itself is left out
when its name, or its whole text if it has no name, is `skip`. A file given as the
directory stands for itself; a path that cannot be followed has no files. -/
def walk (fs : FileSystem) (dir : String) (skip : String) : List String :=
  match fs.locate dir with
  | .error _ => []
  | .ok abs =>
      if (fileName? dir).getD dir = skip then []
      else match fs.fileAt? abs with
        | some _ => [dir]
        | none =>
            fs.files.filterMap fun f =>
              let full := workParts ++ f.path
              if abs.isPrefixOf full && abs.length < full.length then
                let below := full.drop abs.length
                if below.contains skip then none
                else some (below.foldl joinPath dir)
              else none

end FileSystem

end Espalier
