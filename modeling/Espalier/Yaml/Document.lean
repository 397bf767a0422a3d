import Espalier.Yaml.Event

/-!
# Loading YAML documents

A document is loaded as the list of its node events, each with the mark where it starts.
Anchors are resolved while loading: an alias becomes a pointer to the event of the node that
the latest anchor of its name is on, and an alias to a name not yet anchored in the document
stops the document with "unknown anchor". A syntax error stops the document too; the events
before it are kept.

A stream with no document at all loads as one document holding a single `void` event. A
stream is read one document at a time: after the first, the next call tells whether a second
document follows.
-/

namespace Espalier.Yaml

/-- An event of a loaded document. -/
inductive DocEvent where
  /-- An alias: the position of the event of the node it names. -/
  | alias (target : Nat)
  | scalar (tag : Option String) (text : String) (style : ScalarStyle)
  | sequenceStart (tag : Option String)
  | sequenceEnd
  | mappingStart (tag : Option String)
  | mappingEnd
  /-- The content of a stream with no document. -/
  | void
deriving Repr, Inhabited

/-- Why a document stopped before its end. -/
inductive LoadError where
  | malformed (e : YamlError)
  | unknownAnchor (m : Mark)
deriving Repr, Inhabited

/-- The text of a load error. -/
def LoadError.message : LoadError → String
  | .malformed e => e.message
  | .unknownAnchor m => "unknown anchor" ++ (if m.isOrigin then "" else " at " ++ m.text)

/-- A loaded document: its events, and what stopped it early, if anything did. -/
structure Document where
  events : Array (DocEvent × Mark) := #[]
  error : Option LoadError := none
deriving Repr, Inhabited

/-- Reads a stream document by document. -/
structure Loader where
  parser : Parser
  /-- Whether the end of the stream was read. -/
  ended : Bool := false
  /-- The syntax error the parser stopped at; it stops every later document too. -/
  failed : Option YamlError := none
  /-- How many documents were asked for. -/
  count : Nat := 0
deriving Inhabited

namespace Loader

/-- A loader at the start of a text. -/
def ofString (text : String) : Loader := { parser := Parser.ofString text }

/-- Records an anchor on the node whose event is about to be added. -/
def anchorAt (anchors : List (String × Nat)) (targets : Array Nat) (anchor : Option String)
    (position : Nat) : List (String × Nat) × Array Nat :=
  match anchor with
  | some name => ((name, targets.size) :: anchors, targets.push position)
  | none => (anchors, targets)

/-- The next document, or `none` when the stream has no more. -/
def next (l : Loader) : Option Document × Loader := Id.run do
  if l.ended then return (none, l)
  let first := l.count == 0
  let l := { l with count := l.count + 1 }
  if let some e := l.failed then return (some { error := some (.malformed e) }, l)
  let mut parser := l.parser
  let mut events : Array (DocEvent × Mark) := #[]
  let mut anchors : List (String × Nat) := []
  let mut targets : Array Nat := #[]
  for _ in [0:4 * parser.scanner.input.size + 16] do
    match Parser.nextEvent.run parser with
    | .error e =>
        return (some { events, error := some (.malformed e) }, { l with failed := some e })
    | .ok (none, p) =>
        return (if first then some { events } else none, { l with parser := p, ended := true })
    | .ok (some (event, m), p) =>
        parser := p
        match event with
        | .streamStart | .documentStart _ => pure ()
        | .streamEnd =>
            let whole := if events.isEmpty then events.push (.void, m) else events
            let l := { l with parser := p, ended := true }
            return (if first then some { events := whole } else none, l)
        | .documentEnd _ => return (some { events }, { l with parser := p })
        | .alias name =>
            match anchors.find? (·.1 == name) with
            | some (_, id) => events := events.push (.alias (targets[id]?.getD 0), m)
            | none =>
                return (some { events, error := some (.unknownAnchor m) }, { l with parser := p })
        | .scalar anchor tag text style =>
            (anchors, targets) := anchorAt anchors targets anchor events.size
            events := events.push (.scalar tag text style, m)
        | .sequenceStart anchor tag =>
            (anchors, targets) := anchorAt anchors targets anchor events.size
            events := events.push (.sequenceStart tag, m)
        | .mappingStart anchor tag =>
            (anchors, targets) := anchorAt anchors targets anchor events.size
            events := events.push (.mappingStart tag, m)
        | .sequenceEnd => events := events.push (.sequenceEnd, m)
        | .mappingEnd => events := events.push (.mappingEnd, m)
  return (some { events }, { l with parser := parser })

end Loader

end Espalier.Yaml
