/-!
# YAML streams: positions, tokens and errors

A YAML stream is read in three layers: a scanner turns characters into tokens, a parser turns
tokens into events, and a loader gathers the events of a document. This module holds what the
layers share.

* A `Mark` is a position: the number of characters before it, and its line and column, both
  counted from zero. A line ends at a line feed, a carriage return (a carriage return and line
  feed together count once), a next-line character or a line or paragraph separator.
* A `Token` is a `TokenKind` between two marks.
* A `YamlError` says what went wrong and where, optionally with the construct being read and
  where that started. Its text names positions counted from one, and leaves out a position at
  the very start of the stream: `problem at line L column C, context at line L' column C'`.
  The context's position is also left out when it is the problem's own. An error found while
  decoding the input has no position but a byte offset, written `at position N`.
-/

namespace Espalier.Yaml

/-- A position in a stream: characters before it, line and column, all from zero. -/
structure Mark where
  index : Nat := 0
  line : Nat := 0
  column : Nat := 0
deriving Repr, Inhabited, DecidableEq

namespace Mark

/-- Whether a mark is the start of the stream, which messages leave unnamed. -/
def isOrigin (m : Mark) : Bool := m.line == 0 && m.column == 0

/-- The text of a mark, counted from one. -/
def text (m : Mark) : String :=
  "line " ++ toString (m.line + 1) ++ " column " ++ toString (m.column + 1)

end Mark

/-- How a scalar was written. -/
inductive ScalarStyle where
  | plain
  | singleQuoted
  | doubleQuoted
  | literal
  | folded
deriving Repr, Inhabited, DecidableEq

/-- What a token is. -/
inductive TokenKind where
  | streamStart
  | streamEnd
  | versionDirective (major minor : Nat)
  | tagDirective (handle pfx : String)
  | documentStart
  | documentEnd
  | blockSequenceStart
  | blockMappingStart
  | blockEnd
  | flowSequenceStart
  | flowSequenceEnd
  | flowMappingStart
  | flowMappingEnd
  | blockEntry
  | flowEntry
  | key
  | value
  | alias (name : String)
  | anchor (name : String)
  | tag (handle suffix : String)
  | scalar (text : String) (style : ScalarStyle)
deriving Repr, Inhabited

/-- A token with the marks where it starts and where it stops. -/
structure Token where
  kind : TokenKind
  start : Mark
  stop : Mark
deriving Repr, Inhabited

/-- Why a stream could not be read. -/
structure YamlError where
  problem : String
  problemMark : Mark := {}
  /-- The byte offset of a character that decoding refused. -/
  offset : Nat := 0
  /-- The construct being read, and where it started. -/
  context : Option (String × Mark) := none
deriving Repr, Inhabited

namespace YamlError

/-- The text of an error. -/
def message (e : YamlError) : String :=
  let place :=
    if !e.problemMark.isOrigin then " at " ++ e.problemMark.text
    else if e.offset != 0 then " at position " ++ toString e.offset
    else ""
  let context := match e.context with
    | none => ""
    | some (what, m) =>
        let sameSpot := m.line == e.problemMark.line && m.column == e.problemMark.column
        ", " ++ what ++ (if !m.isOrigin && !sameSpot then " at " ++ m.text else "")
  e.problem ++ place ++ context

end YamlError

/-! ## Characters -/

/-- A line break: line feed, carriage return, next line, line or paragraph separator. -/
def isBreak (c : Char) : Bool :=
  c = '\n' || c = '\r' || c = '\x85' || c = '\u2028' || c = '\u2029'

/-- A blank: space or tab. -/
def isBlank (c : Char) : Bool := c = ' ' || c = '\t'

/-- A character of anchors, directive names and tag handles: an ASCII letter or digit, `_`
or `-`. -/
def isWordChar (c : Char) : Bool :=
  ('0' ≤ c && c ≤ '9') || ('a' ≤ c && c ≤ 'z') || ('A' ≤ c && c ≤ 'Z') || c = '_' || c = '-'

/-- A hexadecimal digit. -/
def isHexDigit (c : Char) : Bool :=
  ('0' ≤ c && c ≤ '9') || ('a' ≤ c && c ≤ 'f') || ('A' ≤ c && c ≤ 'F')

/-- The value of a hexadecimal digit. -/
def hexValue (c : Char) : Nat :=
  if '0' ≤ c && c ≤ '9' then c.toNat - '0'.toNat
  else if 'a' ≤ c && c ≤ 'f' then c.toNat - 'a'.toNat + 10
  else c.toNat - 'A'.toNat + 10

/-- A line break or the end of the stream (`none`). -/
def breakOrEnd : Option Char → Bool
  | none => true
  | some c => isBreak c

/-- A blank, a line break or the end of the stream. -/
def blankOrEnd : Option Char → Bool
  | none => true
  | some c => isBlank c || isBreak c

/-- Whether a character may appear in a stream: tab, line feed, carriage return, printable
ASCII, next line, and the rest of Unicode apart from the other control characters, the
surrogates and the two non-characters at the end of the basic plane. -/
def isStreamChar (c : Char) : Bool :=
  let v := c.toNat
  v = 0x09 || v = 0x0A || v = 0x0D || (0x20 ≤ v && v ≤ 0x7E) || v = 0x85 ||
    (0xA0 ≤ v && v ≤ 0xD7FF) || (0xE000 ≤ v && v ≤ 0xFFFD) || (0x10000 ≤ v && v ≤ 0x10FFFF)

end Espalier.Yaml
