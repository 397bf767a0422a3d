import Espalier.Yaml.Basic

/-!
# The scanner's state

The scanner reads a stream of characters once, front to back. Besides its position it keeps
what YAML's token rules depend on:

* the tokens scanned but not yet handed out, in order (a key found late is put back in front of
  the tokens that make it up);
* the indentation of each open block collection, the innermost first;
* the depth of flow collections (`[` and `{`) around the position;
* for each flow depth, the place where a *simple key* (a key without `?`) may have started,
  and whether a new one may start here.

`ScanM` is a state monad over the scanner that stops at the first error. Its primitive moves
keep the mark in step with the position: a character moves one column, a line break moves to
the start of the next line.
-/

namespace Espalier.Yaml

/-- A place where a simple key may start: seen, not yet confirmed by a `:`. A required key is
one at the indentation of its block mapping, which must be a key. -/
structure SimpleKey where
  possible : Bool := false
  required : Bool := false
  /-- The number of the token the key would stand in front of. -/
  tokenNumber : Nat := 0
  mark : Mark := {}
deriving Repr, Inhabited

/-- The state of the scanner. -/
structure Scanner where
  input : Array Char
  mark : Mark := {}
  /-- Tokens scanned and not yet handed out. -/
  queue : List Token := []
  /-- How many tokens were handed out. -/
  tokensParsed : Nat := 0
  /-- Whether the front token is final: no key can still be put in front of it. -/
  tokenAvailable : Bool := false
  streamStartProduced : Bool := false
  streamEndProduced : Bool := false
  flowLevel : Nat := 0
  /-- The indentation of the innermost block collection, `-1` outside any. -/
  indent : Int := -1
  /-- The indentations of the enclosing block collections, innermost first. -/
  indents : List Int := []
  simpleKeyAllowed : Bool := false
  /-- One possible simple key per flow depth, the innermost first. -/
  simpleKeys : List SimpleKey := []
  /-- Bytes before the input that decoding skipped: a byte order mark. -/
  skippedBytes : Nat := 0
deriving Repr, Inhabited

/-- A computation of the scanner that may fail. -/
abbrev ScanM := StateT Scanner (Except YamlError)

namespace Scanner

/-- A scanner at the start of a text; a leading byte order mark is not part of the stream. -/
def ofString (text : String) : Scanner :=
  match text.toList with
  | '\uFEFF' :: rest => { input := rest.toArray, skippedBytes := 3 }
  | cs => { input := cs.toArray }

/-- The character `k` places ahead, `none` past the end. -/
def charAt (k : Nat) : ScanM (Option Char) := do
  let s ← get
  pure s.input[s.mark.index + k]?

/-- The character at the position. -/
def current : ScanM (Option Char) := charAt 0

/-- Whether the character `k` places ahead is `c`. -/
def isAt (k : Nat) (c : Char) : ScanM Bool := return (← charAt k) == some c

/-- Whether the character at the position is `c`. -/
def isCurrent (c : Char) : ScanM Bool := isAt 0 c

/-- The mark of the position. -/
def here : ScanM Mark := return (← get).mark

/-- A bound on the steps of a loop that reads a character at each step. -/
def budget : ScanM Nat := return (← get).input.size + 2

/-- Moves one character along the line. -/
def skip : ScanM Unit :=
  modify fun s => { s with mark := { s.mark with index := s.mark.index + 1,
                                                  column := s.mark.column + 1 } }

/-- Moves over `width` characters that end a line. -/
def nextLine (width : Nat) : ScanM Unit :=
  modify fun s => { s with mark := { index := s.mark.index + width, line := s.mark.line + 1,
                                      column := 0 } }

/-- Moves over a line break, a carriage return and line feed counting once; does nothing
elsewhere. -/
def skipLine : ScanM Unit := do
  let c0 ← charAt 0
  let c1 ← charAt 1
  if c0 == some '\r' && c1 == some '\n' then nextLine 2
  else match c0 with
    | some c => if isBreak c then nextLine 1
    | none => pure ()

/-- Moves over a line break and gives its text in a scalar: carriage return, line feed and
next line become a line feed, the line and paragraph separators stay. -/
def readLine : ScanM String := do
  let c0 ← charAt 0
  let c1 ← charAt 1
  match c0 with
  | some '\r' => if c1 == some '\n' then nextLine 2 *> pure "\n" else nextLine 1 *> pure "\n"
  | some '\n' => nextLine 1 *> pure "\n"
  | some '\x85' => nextLine 1 *> pure "\n"
  | some '\u2028' => nextLine 1 *> pure "\u2028"
  | some '\u2029' => nextLine 1 *> pure "\u2029"
  | _ => pure ""

/-- Moves over the character at the position and gives it. -/
def readChar : ScanM String := do
  match ← current with
  | some c => skip *> pure (String.singleton c)
  | none => pure ""

/-- Moves over blanks. -/
def skipBlanks : ScanM Unit := do
  for _ in [0:← budget] do
    match ← current with
    | some c => if isBlank c then skip else break
    | none => break

/-- Moves over a comment up to the end of its line. -/
def skipComment : ScanM Unit := do
  if ← isCurrent '#' then
    for _ in [0:← budget] do
      if breakOrEnd (← current) then break
      skip

/-- Whether the position starts a line with a document marker `---` or `...` followed by a
blank, a break or the end. -/
def atDocumentMarker : ScanM Bool := do
  let s ← get
  if s.mark.column != 0 then return false
  let c0 ← charAt 0
  let c1 ← charAt 1
  let c2 ← charAt 2
  let c3 ← charAt 3
  let dashes := c0 == some '-' && c1 == some '-' && c2 == some '-'
  let dots := c0 == some '.' && c1 == some '.' && c2 == some '.'
  return (dashes || dots) && blankOrEnd c3

/-- Fails at the position, while reading the construct `what` that started at `start`. -/
def failIn {α : Type} (what : String) (start : Mark) (problem : String) : ScanM α := do
  throw { problem, problemMark := (← get).mark, context := some (what, start) }

/-- Fails at the position without a construct. -/
def failHere {α : Type} (problem : String) : ScanM α := do
  throw { problem, problemMark := (← get).mark }

end Scanner

end Espalier.Yaml
