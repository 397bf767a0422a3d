import Espalier.Config
import Espalier.Config.Scalar
import Espalier.Yaml.Document

/-!
# Settings files

A settings file is a YAML document holding a mapping from setting names to values. It is read
from the events of its first document, node by node, the way a value of each setting's type is
built:

* a list of paths is a sequence of scalars, and the empty plain scalar is the empty list;
* a text is any scalar, read as its text;
* a machine word is a scalar that reads as an unsigned integer of 64 bits; a depth bound is
  also the unit value for "unbounded";
* a flag is a scalar that reads as a boolean.

How a scalar reads follows its tag: `!!bool`, `!!int`, `!!float` and `!!null` require their
spelling, a plain scalar with no tag or a local tag `!...` reads by its spelling
(`Espalier.Config.Scalar`), and every other scalar is a string.

A key must be the name of a setting, and each setting may be given once. The whole document
may also be the empty plain scalar, or a stream with no document, for all defaults.

An error about a node names where it is, such as `search_roots[1]`, and ends with the 1-based
line and column of the node, unless that is the start of the text. Errors are found in
document order, so a malformed part of the text is reported only when reading reaches it; a
second document is refused after the first was read.
-/

namespace Espalier

open Yaml

/-- Where a node of the settings document sits, as errors name it. -/
inductive SettingPath where
  | root
  | field (parent : SettingPath) (key : String)
  | item (parent : SettingPath) (index : Nat)
  /-- The node an alias names, reached from the alias's place. -/
  | alias (parent : SettingPath)
  /-- The value of a key that is not a scalar. -/
  | unknown (parent : SettingPath)

/-- The text of a place: `.` for the whole document, then keys joined by `.`, items as
`[i]`, and `?` for a key that is not a scalar. -/
def SettingPath.text : SettingPath → String
  | .root => "."
  | .field .root key => key
  | .field p key => p.text ++ "." ++ key
  | .item p i => p.text ++ "[" ++ toString i ++ "]"
  | .alias p => p.text
  | .unknown .root => "?"
  | .unknown p => p.text ++ ".?"

/-- Why a settings document was refused. -/
inductive SettingError where
  /-- A refusal, with the mark and place of the node it is about once these are known. -/
  | message (text : String) (place : Option (Mark × SettingPath))
  /-- The document stopped before reading could finish. -/
  | load (e : LoadError)
  | endOfStream
  | repetitionLimit
  | severalDocuments

namespace SettingError

/-- The text of an error. -/
def text : SettingError → String
  | .message t none => t
  | .message t (some (m, p)) =>
      let lead := if p.text == "." then "" else p.text ++ ": "
      lead ++ t ++ (if m.isOrigin then "" else " at " ++ m.text)
  | .load e => e.message
  | .endOfStream => "EOF while parsing a value"
  | .repetitionLimit => "repetition limit exceeded"
  | .severalDocuments =>
      "deserializing from YAML containing more than one document is not supported"

/-- Gives a refusal the place of the node being read, unless it already has one. -/
def placed (m : Mark) (p : SettingPath) : SettingError → SettingError
  | .message t none => .message t (some (m, p))
  | e => e

end SettingError

/-! ## Reading nodes -/

/-- A reading of a settings document: the number of aliases followed so far is its state. -/
abbrev SettingM := StateT Nat (Except SettingError)

/-- Places the refusals of a step at a node. -/
def atNode {α : Type} (m : Mark) (p : SettingPath) (x : SettingM α) : SettingM α :=
  tryCatch x fun e => throw (e.placed m p)

/-- The event at a position; past the last one, what cut the document short. -/
def eventAt (doc : Document) (pos : Nat) : SettingM (DocEvent × Mark) :=
  match doc.events[pos]? with
  | some e => pure e
  | none => throw (match doc.error with
    | some e => .load e
    | none => .endOfStream)

/-- Counts an alias followed; a document that makes reading follow more than a hundred per
event is refused. -/
def countJump (doc : Document) : SettingM Unit := do
  let n := (← get) + 1
  set n
  if n > doc.events.size * 100 then throw .repetitionLimit

/-- The tag that names a type of the core schema. -/
def coreTag (name : String) : String := "tag:yaml.org,2002:" ++ name

/-- The refusal of a scalar's text for a type that its tag demands. -/
def invalidValue (text expected : String) : SettingError :=
  .message ("invalid value: string " ++ Text.quoteEscaped text ++ ", expected " ++ expected) none

/-- How a scalar reads, following its tag. -/
def scalarKind (tag : Option String) (text : String) (style : ScalarStyle) :
    Except SettingError PlainKind :=
  match tag with
  | some t =>
      if t == coreTag "bool" then
        match PlainKind.boolean? text with
        | some b => .ok (.bool b)
        | none => .error (invalidValue text "a boolean")
      else if t == coreTag "int" then
        match PlainKind.integer? text.toList with
        | some k => .ok k
        | none => .error (invalidValue text "an integer")
      else if t == coreTag "float" then
        match PlainKind.float? text.toList with
        | some f => .ok (.float f)
        | none => .error (invalidValue text "a float")
      else if t == coreTag "null" then
        if PlainKind.isNullWord text then .ok .unit else .error (invalidValue text "null")
      else if t.startsWith "!" && style == .plain then .ok (PlainKind.ofPlain text)
      else .ok .str
  | none => .ok (if style == .plain then PlainKind.ofPlain text else .str)

/-- The refusal of a node where a value of the type described by `expected` was wanted. -/
def invalidType (ev : DocEvent) (expected : String) : SettingError :=
  let refuse := fun (what : String) =>
    SettingError.message ("invalid type: " ++ what ++ ", expected " ++ expected) none
  match ev with
  | .scalar tag text style =>
      match scalarKind tag text style with
      | .ok k => refuse (k.describe text)
      | .error e => e
  | .sequenceStart _ => refuse "sequence"
  | .mappingStart _ => refuse "map"
  | _ => .endOfStream

/-- Reads the node at `pos` with `read`, following an alias to the node it names; gives the
value and the position after the node's first event. -/
def readNode {α : Type} (doc : Document) (pos : Nat) (path : SettingPath)
    (read : Nat → SettingPath → SettingM (α × Nat)) : SettingM (α × Nat) := do
  match (← eventAt doc pos).1 with
  | .alias target =>
      countJump doc
      let (a, _) ← read target (.alias path)
      pure (a, pos + 1)
  | _ => read pos path

/-- Reads a scalar as its text; `expected` describes the wanted type. -/
def readText (expected : String) (doc : Document) (pos : Nat) (path : SettingPath) :
    SettingM (String × Nat) :=
  readNode doc pos path fun loc p => do
    let (ev, m) ← eventAt doc loc
    atNode m p do
      match ev with
      | .scalar _ text _ => pure (text, loc + 1)
      | _ => throw (invalidType ev expected)

/-- Reads a scalar with a check on how it reads; `expected` describes the wanted type. -/
def readScalar {α : Type} (expected : String) (accept : PlainKind → Option α) (doc : Document)
    (pos : Nat) (path : SettingPath) : SettingM (α × Nat) :=
  readNode doc pos path fun loc p => do
    let (ev, m) ← eventAt doc loc
    atNode m p do
      match ev with
      | .scalar tag text style =>
          match scalarKind tag text style with
          | .ok k =>
              match accept k with
              | some a => pure (a, loc + 1)
              | none => throw (invalidType ev expected)
          | .error e => throw e
      | _ => throw (invalidType ev expected)

/-- Reads a machine word. -/
def readWord : Document → Nat → SettingPath → SettingM (Nat × Nat) :=
  readScalar "usize" fun
    | .int i => if i ≥ 0 then some i.toNat else none
    | _ => none

/-- Reads a flag. -/
def readFlag : Document → Nat → SettingPath → SettingM (Bool × Nat) :=
  readScalar "a boolean" fun
    | .bool b => some b
    | _ => none

/-- Reads a depth bound: the unit value (a plain scalar that is empty or a spelling of null,
with no tag or the null tag) is "unbounded", anything else must be a machine word. A null tag
on another text is refused without a place of its own. -/
def readBound (doc : Document) (pos : Nat) (path : SettingPath) :
    SettingM (Option Nat × Nat) :=
  readNode doc pos path fun loc p => do
    let (ev, _) ← eventAt doc loc
    let present ← match ev with
      | .scalar tag text style =>
          if style != .plain then pure true
          else match tag with
            | some t =>
                if t == coreTag "null" then
                  if PlainKind.isNullWord text then pure false
                  else throw (invalidValue text "null")
                else pure true
            | none => pure !(text.isEmpty || PlainKind.isNullWord text)
      | .sequenceStart _ | .mappingStart _ => pure true
      | _ => pure false
    if present then
      let (n, next) ← readWord doc loc p
      pure (some n, next)
    else pure (none, loc + 1)

/-- Reads a list of paths. -/
def readPaths (doc : Document) (pos : Nat) (path : SettingPath) :
    SettingM (List String × Nat) :=
  readNode doc pos path fun loc p => do
    let (ev, m) ← eventAt doc loc
    atNode m p do
      match ev with
      | .sequenceStart _ =>
          let mut items : Array String := #[]
          let mut q := loc + 1
          for _ in [0:doc.events.size] do
            match (← eventAt doc q).1 with
            | .sequenceEnd | .void => break
            | _ =>
                let (item, next) ← readText "path string" doc q (.item p items.size)
                items := items.push item
                q := next
          let _ ← eventAt doc q
          pure (items.toList, q + 1)
      | .scalar _ "" .plain | .void => pure ([], loc + 1)
      | _ => throw (invalidType ev "a sequence")

/-! ## The settings -/

/-- The names of the settings, in the order a settings file documents them. -/
def settingNames : List String :=
  ["search_roots", "source_extension", "max_expansion_depth", "max_call_depth",
   "write_side_cache", "cache_dir_name"]

/-- Reads a key: a scalar naming a setting. -/
def readKey (doc : Document) (pos : Nat) (path : SettingPath) : SettingM (String × Nat) :=
  readNode doc pos path fun loc p => do
    let (ev, m) ← eventAt doc loc
    atNode m p do
      match ev with
      | .scalar _ key _ =>
          if settingNames.contains key then pure (key, loc + 1)
          else throw (.message ("unknown field " ++ "\x60" ++ key ++ "\x60" ++ ", expected one of " ++
            ", ".intercalate (settingNames.map fun n => "\x60" ++ n ++ "\x60")) none)
      | _ => throw (invalidType ev "field identifier")

/-- Reads the value of a setting into `c`. -/
def Config.readField (c : Config) (name : String) (doc : Document) (pos : Nat)
    (path : SettingPath) : SettingM (Config × Nat) := do
  match name with
  | "search_roots" =>
      let (v, next) ← readPaths doc pos path
      pure ({ c with searchRoots := v }, next)
  | "source_extension" =>
      let (v, next) ← readText "a string" doc pos path
      pure ({ c with sourceExtension := v }, next)
  | "max_expansion_depth" =>
      let (v, next) ← readBound doc pos path
      pure ({ c with maxExpansionDepth := v }, next)
  | "max_call_depth" =>
      let (v, next) ← readWord doc pos path
      pure ({ c with maxCallDepth := v }, next)
  | "write_side_cache" =>
      let (v, next) ← readFlag doc pos path
      pure ({ c with writeSideCache := v }, next)
  | _ =>
      let (v, next) ← readText "a string" doc pos path
      pure ({ c with cacheDirName := v }, next)

/-- Reads the entries of a mapping whose first entry is at `pos`, up to its end. -/
def readEntries (doc : Document) (pos : Nat) (path : SettingPath) : SettingM (Config × Nat) := do
  let mut c : Config := {}
  let mut seen : List String := []
  let mut q := pos
  for _ in [0:doc.events.size] do
    let (ev, _) ← eventAt doc q
    match ev with
    | .mappingEnd | .void => break
    | _ =>
        let (name, afterKey) ← readKey doc q path
        if seen.contains name then
          throw (.message ("duplicate field " ++ "\x60" ++ name ++ "\x60") none)
        let valuePath := match ev with
          | .scalar _ key _ => .field path key
          | _ => .unknown path
        let (c', next) ← c.readField name doc afterKey valuePath
        c := c'
        seen := name :: seen
        q := next
  let _ ← eventAt doc q
  pure (c, q + 1)

/-- Reads the settings from a loaded document. -/
def Config.ofDocument (doc : Document) : SettingM Config := do
  let (c, _) ← readNode doc 0 .root fun loc p => do
    let (ev, m) ← eventAt doc loc
    atNode m p do
      match ev with
      | .mappingStart _ => readEntries doc (loc + 1) p
      | .scalar _ "" .plain | .void => pure ({}, loc + 1)
      | _ => throw (invalidType ev "struct Config")
  pure c

/-- Reads a settings document; fields it does not set keep their defaults. -/
def Config.ofYaml (text : String) : Except Error Config :=
  let fail (e : SettingError) : Error := .plain .ioError ("invalid configuration: " ++ e.text)
  let (doc, loader) := (Loader.ofString text).next
  let doc := doc.getD {}
  match (Config.ofDocument doc).run' 0 with
  | .error e => .error (fail e)
  | .ok c =>
      match doc.error with
      | some e => .error (fail (.load e))
      | none =>
          match loader.next.1 with
          | some _ => .error (fail .severalDocuments)
          | none => .ok c

end Espalier
