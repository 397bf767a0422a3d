import Espalier.Yaml.Scanner

/-!
# Events of a YAML stream

The parser turns tokens into events: the start and end of the stream, of each document, of
each sequence and mapping, and the scalars and aliases in between, each with the mark where it
starts. A node's properties (an anchor and a tag, in either order) come before it; a tag's
handle is replaced by its prefix from the document's `%TAG` directives or the defaults (`!`
for `!`, `tag:yaml.org,2002:` for `!!`).

Where the grammar allows a node to be left out (a key with no value, an entry `-` with nothing
after it, an empty document) the parser gives the empty plain scalar.

The parser is a machine whose state says what may come next, with a stack of states to go
back to when a node is complete and a stack of the marks where the open collections started,
which its errors name as their context.
-/

namespace Espalier.Yaml

/-- An event, with the properties of its node. -/
inductive Event where
  | streamStart
  | streamEnd
  | documentStart (implicit : Bool)
  | documentEnd (implicit : Bool)
  | alias (name : String)
  | scalar (anchor tag : Option String) (text : String) (style : ScalarStyle)
  | sequenceStart (anchor tag : Option String)
  | sequenceEnd
  | mappingStart (anchor tag : Option String)
  | mappingEnd
deriving Repr, Inhabited

/-- What the parser expects next. -/
inductive ParseState where
  | streamStart
  | implicitDocumentStart
  | documentStart
  | documentContent
  | documentEnd
  | blockNode
  | blockNodeOrIndentlessSequence
  | flowNode
  | blockSequenceFirstEntry
  | blockSequenceEntry
  | indentlessSequenceEntry
  | blockMappingFirstKey
  | blockMappingKey
  | blockMappingValue
  | flowSequenceFirstEntry
  | flowSequenceEntry
  | flowSequenceEntryMappingKey
  | flowSequenceEntryMappingValue
  | flowSequenceEntryMappingEnd
  | flowMappingFirstKey
  | flowMappingKey
  | flowMappingValue
  | flowMappingEmptyValue
  | finished
deriving Repr, Inhabited, DecidableEq

/-- The state of the parser, with the scanner it reads from. -/
structure Parser where
  scanner : Scanner
  state : ParseState := .streamStart
  states : List ParseState := []
  marks : List Mark := []
  /-- The tag handles of the document and their prefixes. -/
  tagDirectives : List (String × String) := []
deriving Inhabited

/-- A computation of the parser that may fail. -/
abbrev ParseM := StateT Parser (Except YamlError)

namespace Parser

/-- A parser at the start of a text. -/
def ofString (text : String) : Parser := { scanner := Scanner.ofString text }

/-- Runs a step of the scanner. -/
def liftScan {α : Type} (m : ScanM α) : ParseM α := do
  let p ← get
  match m.run p.scanner with
  | .ok (a, sc) => set { p with scanner := sc } *> pure a
  | .error e => throw e

/-- The token at the front. -/
def peek : ParseM Token := liftScan Scanner.peekToken

/-- Passes the token at the front. -/
def skipToken : ParseM Unit := liftScan Scanner.skipToken

/-- Goes back to the state below the top of the stack. -/
def popState : ParseM Unit :=
  modify fun p => match p.states with
    | s :: rest => { p with state := s, states := rest }
    | [] => { p with state := .finished }

/-- Remembers a state to go back to. -/
def pushState (s : ParseState) : ParseM Unit := modify fun p => { p with states := s :: p.states }

/-- Remembers where a collection started. -/
def pushMark (m : Mark) : ParseM Unit := modify fun p => { p with marks := m :: p.marks }

/-- Forgets where the innermost collection started, giving it. -/
def popMark : ParseM Mark := do
  let p ← get
  match p.marks with
  | m :: rest => set { p with marks := rest } *> pure m
  | [] => pure {}

/-- Sets what is expected next. -/
def goTo (s : ParseState) : ParseM Unit := modify fun p => { p with state := s }

/-- The empty plain scalar, at `m`. -/
def emptyScalar (m : Mark) : Event × Mark := (.scalar none none "" .plain, m)

/-- Fails at `m`. -/
def fail {α : Type} (problem : String) (m : Mark) : ParseM α :=
  throw { problem, problemMark := m }

/-- Fails at `m`, while reading the construct `what` that started at `start`. -/
def failIn {α : Type} (what : String) (start : Mark) (problem : String) (m : Mark) :
    ParseM α :=
  throw { problem, problemMark := m, context := some (what, start) }

/-! ## Documents -/

/-- The default tag handles. -/
def defaultTagDirectives : List (String × String) :=
  [("!", "!"), ("!!", "tag:yaml.org,2002:")]

/-- Reads the directives before a document and installs the default tag handles that they
do not redefine. -/
def processDirectives : ParseM Unit := do
  let mut versionSeen := false
  for _ in [0:(← get).scanner.input.size + 2] do
    let t ← peek
    match t.kind with
    | .versionDirective major minor =>
        if versionSeen then fail "found duplicate %YAML directive" t.start
        if major != 1 || (minor != 1 && minor != 2) then
          fail "found incompatible YAML document" t.start
        versionSeen := true
        skipToken
    | .tagDirective handle pfx =>
        if (← get).tagDirectives.any (·.1 == handle) then
          fail "found duplicate %TAG directive" t.start
        modify fun p => { p with tagDirectives := p.tagDirectives ++ [(handle, pfx)] }
        skipToken
    | _ => break
  for (handle, pfx) in defaultTagDirectives do
    if !(← get).tagDirectives.any (·.1 == handle) then
      modify fun p => { p with tagDirectives := p.tagDirectives ++ [(handle, pfx)] }

/-- Whether a token may start a document explicitly or ends the stream. -/
def TokenKind.opensDocument : TokenKind → Bool
  | .versionDirective .. | .tagDirective .. | .documentStart | .streamEnd => true
  | _ => false

/-- Starts a document, or ends the stream. The first document may start without `---`;
later ones must, and stray `...` markers before them are passed over. -/
def parseDocumentStart (implicit : Bool) : ParseM (Event × Mark) := do
  let mut t ← peek
  if !implicit then
    for _ in [0:(← get).scanner.input.size + 2] do
      match t.kind with
      | .documentEnd => skipToken; t ← peek
      | _ => break
  if implicit && !TokenKind.opensDocument t.kind then
    processDirectives
    pushState .documentEnd
    goTo .blockNode
    return (.documentStart true, t.start)
  match t.kind with
  | .streamEnd =>
      goTo .finished
      skipToken
      return (.streamEnd, t.start)
  | _ =>
      let start := t.start
      processDirectives
      let opening ← peek
      match opening.kind with
      | .documentStart =>
          pushState .documentEnd
          goTo .documentContent
          skipToken
          return (.documentStart false, start)
      | _ => fail "did not find expected <document start>" opening.start

/-- Ends a document, at `...` or where the next one starts. -/
def parseDocumentEnd : ParseM (Event × Mark) := do
  let t ← peek
  let explicit := match t.kind with
    | .documentEnd => true
    | _ => false
  if explicit then skipToken
  modify fun p => { p with tagDirectives := [] }
  goTo .documentStart
  return (.documentEnd !explicit, t.start)

/-! ## Nodes -/

/-- The tag of a node from its handle and suffix. -/
def resolveTag (handle suffix : String) (start tagMark : Mark) : ParseM String := do
  if handle.isEmpty then return suffix
  match (← get).tagDirectives.find? (·.1 == handle) with
  | some (_, pfx) => return pfx ++ suffix
  | none => failIn "while parsing a node" start "found undefined tag handle" tagMark

/-- Reads a node: an alias, or a scalar or the start of a collection with its properties.
`block` allows block collections; `indentless` allows a block sequence whose `-` entries sit
at the indentation of the mapping around it. -/
def parseNode (block indentless : Bool) : ParseM (Event × Mark) := do
  let first ← peek
  match first.kind with
  | .alias name =>
      popState
      skipToken
      return (.alias name, first.start)
  | _ =>
      let mut t := first
      let mut anchor : Option String := none
      let mut tagParts : Option (String × String) := none
      let mut tagMark := first.start
      match first.kind with
      | .anchor name =>
          anchor := some name
          skipToken
          t ← peek
          match t.kind with
          | .tag h s =>
              tagParts := some (h, s)
              tagMark := t.start
              skipToken
              t ← peek
          | _ => pure ()
      | .tag h s =>
          tagParts := some (h, s)
          skipToken
          t ← peek
          match t.kind with
          | .anchor name =>
              anchor := some name
              skipToken
              t ← peek
          | _ => pure ()
      | _ => pure ()
      let start := first.start
      let tag ← match tagParts with
        | some (h, s) => some <$> resolveTag h s start tagMark
        | none => pure none
      match t.kind with
      | .blockEntry =>
          if indentless then
            goTo .indentlessSequenceEntry
            return (.sequenceStart anchor tag, start)
      | _ => pure ()
      match t.kind with
      | .scalar text style =>
          popState
          skipToken
          return (.scalar anchor tag text style, start)
      | .flowSequenceStart =>
          goTo .flowSequenceFirstEntry
          return (.sequenceStart anchor tag, start)
      | .flowMappingStart =>
          goTo .flowMappingFirstKey
          return (.mappingStart anchor tag, start)
      | .blockSequenceStart =>
          if block then
            goTo .blockSequenceFirstEntry
            return (.sequenceStart anchor tag, start)
      | .blockMappingStart =>
          if block then
            goTo .blockMappingFirstKey
            return (.mappingStart anchor tag, start)
      | _ => pure ()
      if anchor.isSome || tag.isSome then
        popState
        return (.scalar anchor tag "" .plain, start)
      failIn (if block then "while parsing a block node" else "while parsing a flow node") start
        "did not find expected node content" t.start

/-- Reads the content of an explicit document; an empty one is the empty scalar. -/
def parseDocumentContent : ParseM (Event × Mark) := do
  let t ← peek
  match t.kind with
  | .versionDirective .. | .tagDirective .. | .documentStart | .documentEnd | .streamEnd =>
      popState
      return emptyScalar t.start
  | _ => parseNode true false

/-! ## Block collections -/

/-- Opens a block collection at its start token, remembering where it started. -/
def openCollection : ParseM Unit := do
  let t ← peek
  pushMark t.start
  skipToken

/-- Reads an entry of a block sequence, or its end. -/
def parseBlockSequenceEntry (first : Bool) : ParseM (Event × Mark) := do
  if first then openCollection
  let t ← peek
  match t.kind with
  | .blockEntry =>
      let m := t.stop
      skipToken
      let t ← peek
      match t.kind with
      | .blockEntry | .blockEnd =>
          goTo .blockSequenceEntry
          return emptyScalar m
      | _ =>
          pushState .blockSequenceEntry
          parseNode true false
  | .blockEnd =>
      popState
      let _ ← popMark
      skipToken
      return (.sequenceEnd, t.start)
  | _ =>
      failIn "while parsing a block collection" (← popMark) "did not find expected '-' indicator"
        t.start

/-- Reads an entry of a sequence whose entries sit at the indentation of its mapping, or its
end, which no token marks. -/
def parseIndentlessSequenceEntry : ParseM (Event × Mark) := do
  let t ← peek
  match t.kind with
  | .blockEntry =>
      let m := t.stop
      skipToken
      let t ← peek
      match t.kind with
      | .blockEntry | .key | .value | .blockEnd =>
          goTo .indentlessSequenceEntry
          return emptyScalar m
      | _ =>
          pushState .indentlessSequenceEntry
          parseNode true false
  | _ =>
      popState
      return (.sequenceEnd, t.start)

/-- Reads a key of a block mapping, or its end. -/
def parseBlockMappingKey (first : Bool) : ParseM (Event × Mark) := do
  if first then openCollection
  let t ← peek
  match t.kind with
  | .key =>
      let m := t.stop
      skipToken
      let t ← peek
      match t.kind with
      | .key | .value | .blockEnd =>
          goTo .blockMappingValue
          return emptyScalar m
      | _ =>
          pushState .blockMappingValue
          parseNode true true
  | .blockEnd =>
      popState
      let _ ← popMark
      skipToken
      return (.mappingEnd, t.start)
  | _ =>
      failIn "while parsing a block mapping" (← popMark) "did not find expected key" t.start

/-- Reads a value of a block mapping; a missing one is the empty scalar. -/
def parseBlockMappingValue : ParseM (Event × Mark) := do
  let t ← peek
  match t.kind with
  | .value =>
      let m := t.stop
      skipToken
      let t ← peek
      match t.kind with
      | .key | .value | .blockEnd =>
          goTo .blockMappingKey
          return emptyScalar m
      | _ =>
          pushState .blockMappingKey
          parseNode true true
  | _ =>
      goTo .blockMappingKey
      return emptyScalar t.start

/-! ## Flow collections -/

/-- Reads an entry of a flow sequence, or its end; an entry `k: v` is a mapping of one pair. -/
def parseFlowSequenceEntry (first : Bool) : ParseM (Event × Mark) := do
  if first then openCollection
  let mut t ← peek
  match t.kind with
  | .flowSequenceEnd => pure ()
  | _ =>
      if !first then
        match t.kind with
        | .flowEntry =>
            skipToken
            t ← peek
        | _ =>
            failIn "while parsing a flow sequence" (← popMark) "did not find expected ',' or ']'"
              t.start
      match t.kind with
      | .key =>
          goTo .flowSequenceEntryMappingKey
          skipToken
          return (.mappingStart none none, t.start)
      | .flowSequenceEnd => pure ()
      | _ =>
          pushState .flowSequenceEntry
          return ← parseNode false false
  popState
  let _ ← popMark
  skipToken
  return (.sequenceEnd, t.start)

/-- Reads the key of a pair in a flow sequence. -/
def parseFlowSequenceEntryMappingKey : ParseM (Event × Mark) := do
  let t ← peek
  match t.kind with
  | .value | .flowEntry | .flowSequenceEnd =>
      goTo .flowSequenceEntryMappingValue
      return emptyScalar t.stop
  | _ =>
      pushState .flowSequenceEntryMappingValue
      parseNode false false

/-- Reads the value of a pair in a flow sequence. -/
def parseFlowSequenceEntryMappingValue : ParseM (Event × Mark) := do
  let t ← peek
  match t.kind with
  | .value =>
      skipToken
      let t ← peek
      match t.kind with
      | .flowEntry | .flowSequenceEnd =>
          goTo .flowSequenceEntryMappingEnd
          return emptyScalar t.start
      | _ =>
          pushState .flowSequenceEntryMappingEnd
          parseNode false false
  | _ =>
      goTo .flowSequenceEntryMappingEnd
      return emptyScalar t.start

/-- Ends a pair in a flow sequence. -/
def parseFlowSequenceEntryMappingEnd : ParseM (Event × Mark) := do
  let t ← peek
  goTo .flowSequenceEntry
  return (.mappingEnd, t.start)

/-- Reads a key of a flow mapping, or its end. -/
def parseFlowMappingKey (first : Bool) : ParseM (Event × Mark) := do
  if first then openCollection
  let mut t ← peek
  match t.kind with
  | .flowMappingEnd => pure ()
  | _ =>
      if !first then
        match t.kind with
        | .flowEntry =>
            skipToken
            t ← peek
        | _ =>
            failIn "while parsing a flow mapping" (← popMark) "did not find expected ',' or '\x7d'"
              t.start
      match t.kind with
      | .key =>
          skipToken
          let after ← peek
          match after.kind with
          | .value | .flowEntry | .flowMappingEnd =>
              goTo .flowMappingValue
              return emptyScalar after.start
          | _ =>
              pushState .flowMappingValue
              return ← parseNode false false
      | .flowMappingEnd => pure ()
      | _ =>
          pushState .flowMappingEmptyValue
          return ← parseNode false false
  popState
  let _ ← popMark
  skipToken
  return (.mappingEnd, t.start)

/-- Reads a value of a flow mapping; `empty` when the key stood alone. -/
def parseFlowMappingValue (empty : Bool) : ParseM (Event × Mark) := do
  let t ← peek
  if empty then
    goTo .flowMappingKey
    return emptyScalar t.start
  match t.kind with
  | .value =>
      skipToken
      let t ← peek
      match t.kind with
      | .flowEntry | .flowMappingEnd =>
          goTo .flowMappingKey
          return emptyScalar t.start
      | _ =>
          pushState .flowMappingKey
          parseNode false false
  | _ =>
      goTo .flowMappingKey
      return emptyScalar t.start

/-! ## The machine -/

/-- Starts the stream. -/
def parseStreamStart : ParseM (Event × Mark) := do
  let t ← peek
  match t.kind with
  | .streamStart =>
      goTo .implicitDocumentStart
      skipToken
      return (.streamStart, t.start)
  | _ => fail "did not find expected <stream-start>" t.start

/-- The next event, or `none` after the end of the stream. -/
def nextEvent : ParseM (Option (Event × Mark)) := do
  match (← get).state with
  | .finished => return none
  | .streamStart => some <$> parseStreamStart
  | .implicitDocumentStart => some <$> parseDocumentStart true
  | .documentStart => some <$> parseDocumentStart false
  | .documentContent => some <$> parseDocumentContent
  | .documentEnd => some <$> parseDocumentEnd
  | .blockNode => some <$> parseNode true false
  | .blockNodeOrIndentlessSequence => some <$> parseNode true true
  | .flowNode => some <$> parseNode false false
  | .blockSequenceFirstEntry => some <$> parseBlockSequenceEntry true
  | .blockSequenceEntry => some <$> parseBlockSequenceEntry false
  | .indentlessSequenceEntry => some <$> parseIndentlessSequenceEntry
  | .blockMappingFirstKey => some <$> parseBlockMappingKey true
  | .blockMappingKey => some <$> parseBlockMappingKey false
  | .blockMappingValue => some <$> parseBlockMappingValue
  | .flowSequenceFirstEntry => some <$> parseFlowSequenceEntry true
  | .flowSequenceEntry => some <$> parseFlowSequenceEntry false
  | .flowSequenceEntryMappingKey => some <$> parseFlowSequenceEntryMappingKey
  | .flowSequenceEntryMappingValue => some <$> parseFlowSequenceEntryMappingValue
  | .flowSequenceEntryMappingEnd => some <$> parseFlowSequenceEntryMappingEnd
  | .flowMappingFirstKey => some <$> parseFlowMappingKey true
  | .flowMappingKey => some <$> parseFlowMappingKey false
  | .flowMappingValue => some <$> parseFlowMappingValue false
  | .flowMappingEmptyValue => some <$> parseFlowMappingValue true

end Parser

end Espalier.Yaml
