import Espalier.Syntax.Tree

/-!
# Diagnostics

Every failure of reading, expanding, compiling or running a program is an `Error`: a kind,
a message, where it happened, and optionally the source text it points into, a help line
and the error that caused it.

A *located* error's message starts with `file:line: `; `Error.located` adds that prefix only
to an error that has no file yet, so the innermost location wins.
-/

namespace Espalier

/-- The classes of failure. -/
inductive ErrorKind where
  /-- Malformed invocation shapes, missing module names, bad phase markers. -/
  | syntaxError
  /-- Surface text the reader cannot read. -/
  | parseError
  /-- Modules or dialects that cannot be resolved. -/
  | importError
  /-- Macro names missing from their defining module. -/
  | bindingError
  /-- Expansion met a macro that discovery never bound. -/
  | unboundMacro
  /-- The bound on nested macro applications was reached. -/
  | depthExceeded
  /-- Failures while evaluating a program. -/
  | evalError
  /-- Operations applied to values of the wrong type. -/
  | typeError
  /-- Files that cannot be read, or a configuration that cannot be used. -/
  | ioError
  /-- Broken engine invariants and API misuse. -/
  | internalError
deriving DecidableEq, Repr, Inhabited

namespace ErrorKind

/-- The name of the kind, as error objects and diagnostic codes carry it. -/
def name : ErrorKind → String
  | .syntaxError => "Syntax" | .parseError => "Parse" | .importError => "Import"
  | .bindingError => "MacroBinding" | .unboundMacro => "UnboundMacro"
  | .depthExceeded => "ExpansionDepthExceeded" | .evalError => "Eval" | .typeError => "Type"
  | .ioError => "Io" | .internalError => "Internal"

/-- The human heading that precedes the message in a rendered error. -/
def heading : ErrorKind → String
  | .syntaxError => "Syntax error" | .parseError => "Parse error" | .importError => "Import error"
  | .bindingError => "Macro binding error" | .unboundMacro => "Unbound macro"
  | .depthExceeded => "Expansion depth exceeded" | .evalError => "Evaluation error"
  | .typeError => "Type error" | .ioError => "I/O error" | .internalError => "Internal error"

end ErrorKind

/-- Prefixes a message with `file:line: `, or with `file: ` when no location is known. -/
def formatLocated (file : String) (loc : Option Loc) (msg : String) : String :=
  match loc with
  | some l => file ++ ":" ++ toString l.line ++ ": " ++ msg
  | none => file ++ ": " ++ msg

/-- A failure, with its context and its cause. -/
structure Error where
  kind : ErrorKind
  message : String
  filename : Option String := none
  loc : Option Loc := none
  /-- The text of the file the location points into, when the raiser still had it. -/
  source : Option String := none
  help : Option String := none
  cause : Option Error := none
deriving Inhabited

namespace Error

/-- An error with a bare message and no context. -/
def plain (kind : ErrorKind) (msg : String) : Error := { kind, message := msg }

/-- An error located at `loc` in `file`; the message gets the location prefix. -/
def atLoc (kind : ErrorKind) (file : String) (loc : Option Loc) (msg : String) : Error :=
  { kind, message := formatLocated file loc msg, filename := some file, loc }

/-- Locates an error that has no file yet; an error that has one is returned unchanged. -/
def located (e : Error) (file : String) (loc : Option Loc) : Error :=
  match e.filename with
  | some _ => e
  | none => { e with message := formatLocated file loc e.message, filename := some file, loc }

/-- Attaches the source text, unless the error already carries one. -/
def withSource (e : Error) (text : String) : Error :=
  match e.source with
  | some _ => e
  | none => { e with source := some text }

/-- Attaches a help line. -/
def withHelp (e : Error) (h : String) : Error := { e with help := some h }

/-- Chains `c` as the error that caused `e`. -/
def causedBy (e : Error) (c : Error) : Error := { e with cause := some c }

/-- The rendered one-line form: heading, colon, message. -/
def display (e : Error) : String := e.kind.heading ++ ": " ++ e.message

/-- The diagnostic code of the error's kind. -/
def code (e : Error) : String := "trellis::" ++ e.kind.name

end Error

/-- Byte offset of the start of 1-based line `line` in `cs`, counting `off` bytes already
passed. Line 1 and line 0 both start at the beginning. -/
def lineStart : List Char → Nat → Nat → Option Nat
  | _, 0, off => some off
  | _, 1, off => some off
  | [], _ + 2, _ => none
  | c :: cs, n + 2, off =>
      if c = '\n' then lineStart cs (n + 1) (off + c.utf8Size)
      else lineStart cs (n + 2) (off + c.utf8Size)

/-- Byte offset of a location inside `text`, if it lies within the text (its end included). -/
def offsetOf (text : String) (loc : Loc) : Option Nat :=
  match lineStart text.toList loc.line 0 with
  | some start => if start + loc.col ≤ text.utf8ByteSize then some (start + loc.col) else none
  | none => none

/-- The labelled spans of an error: one byte under its location, carrying the message,
when both the source text and the location are known and agree. -/
def Error.labels (e : Error) : List (Nat × Nat × String) :=
  match e.source, e.loc with
  | some text, some l =>
      match offsetOf text l with
      | some off => [(off, 1, e.message)]
      | none => []
  | _, _ => []

end Espalier
