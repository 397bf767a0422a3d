import Espalier.Yaml.Scanner.Scalar
import Espalier.Yaml.Scanner.Property

/-!
# Tokens of a YAML stream

The scanner hands out tokens one at a time, on demand. The token at the front is handed out
only when it is final, that is when no simple key can still be put in front of it.

Indentation is turned into explicit tokens: a block sequence or mapping starts with
`blockSequenceStart` or `blockMappingStart` when an entry or key appears deeper than the
innermost block collection, and every collection deeper than a new line's first token is
closed by `blockEnd`.

A *simple key* is a key written without `?`: a scalar, alias, anchor, tag or flow collection
followed by `:` on the same line and within 1024 characters. Where one may start, the place
is remembered; when the `:` comes, a `key` token (and perhaps a `blockMappingStart`) is put
in front of it. A place at the indentation of a block mapping is *required* to be a key, and
a required place that goes stale fails with "could not find expected ':'".

Before the first token, the whole input is checked for characters a stream may not hold.
-/

namespace Espalier.Yaml.Scanner

/-! ## The token queue -/

/-- Puts a token at the back of the queue. -/
def enqueue (kind : TokenKind) (start stop : Mark) : ScanM Unit :=
  modify fun s => { s with queue := s.queue ++ [{ kind, start, stop }] }

/-- Puts a token in front of the one numbered `number`. -/
def insertBefore (number : Nat) (kind : TokenKind) (m : Mark) : ScanM Unit :=
  modify fun s =>
    { s with queue := s.queue.insertIdx (number - s.tokensParsed) { kind, start := m, stop := m } }

/-! ## Simple keys -/

/-- The error of a required key whose `:` did not come. -/
def missingColon (key : SimpleKey) : ScanM Unit := do
  throw { problem := "could not find expected ':'", problemMark := (← here),
          context := some ("while scanning a simple key", key.mark) }

/-- Forgets the possible keys that can no longer be keys: those on an earlier line or more
than 1024 characters back. The outermost is looked at first. -/
def staleSimpleKeys : ScanM Unit := do
  let s ← get
  let m := s.mark
  let mut kept : List SimpleKey := []
  for k in s.simpleKeys.reverse do
    if k.possible && (k.mark.line < m.line || k.mark.index + 1024 < m.index) then
      if k.required then missingColon k
      kept := { k with possible := false } :: kept
    else kept := k :: kept
  set { s with simpleKeys := kept }

/-- Forgets the possible key of the innermost flow depth; a required one fails. -/
def removeSimpleKey : ScanM Unit := do
  let s ← get
  match s.simpleKeys with
  | k :: rest =>
      if k.possible && k.required then missingColon k
      set { s with simpleKeys := { k with possible := false } :: rest }
  | [] => pure ()

/-- Remembers the position as a possible key, if a key may start here. -/
def saveSimpleKey : ScanM Unit := do
  let s ← get
  if s.simpleKeyAllowed then
    let key : SimpleKey :=
      { possible := true
        required := s.flowLevel == 0 && s.indent == (s.mark.column : Int)
        tokenNumber := s.tokensParsed + s.queue.length
        mark := s.mark }
    removeSimpleKey
    modify fun s => { s with simpleKeys := match s.simpleKeys with
      | _ :: rest => key :: rest
      | [] => [key] }

/-- Enters a flow collection. -/
def increaseFlowLevel : ScanM Unit :=
  modify fun s => { s with simpleKeys := {} :: s.simpleKeys, flowLevel := s.flowLevel + 1 }

/-- Leaves a flow collection, if inside one. -/
def decreaseFlowLevel : ScanM Unit :=
  modify fun s =>
    if s.flowLevel > 0 then { s with flowLevel := s.flowLevel - 1, simpleKeys := s.simpleKeys.drop 1 }
    else s

/-! ## Indentation -/

/-- Opens a block collection at `column` if it is deeper than the innermost one, putting its
start token at the back or in front of token `number`. Does nothing in a flow collection. -/
def rollIndent (column : Int) (number : Option Nat) (kind : TokenKind) (m : Mark) :
    ScanM Unit := do
  let s ← get
  if s.flowLevel == 0 && s.indent < column then
    set { s with indents := s.indent :: s.indents, indent := column }
    match number with
    | none => enqueue kind m m
    | some n => insertBefore n kind m

/-- Closes the block collections deeper than `column`. Does nothing in a flow collection. -/
def unrollIndent (column : Int) : ScanM Unit := do
  if (← get).flowLevel == 0 then
    for _ in [0:(← get).indents.length + 1] do
      let s ← get
      if s.indent > column then
        enqueue .blockEnd s.mark s.mark
        modify fun s => match s.indents with
          | i :: rest => { s with indent := i, indents := rest }
          | [] => { s with indent := -1 }
      else break

/-! ## Fetching tokens -/

/-- The error for a character that decoding refuses: the byte offset of the first one. -/
def checkInput : ScanM Unit := do
  let s ← get
  let mut offset := s.skippedBytes
  for c in s.input do
    if !isStreamChar c then
      throw { problem := "control characters are not allowed", offset }
    offset := offset + c.utf8Size

/-- Starts the stream. -/
def fetchStreamStart : ScanM Unit := do
  checkInput
  modify fun s => { s with indent := -1, simpleKeys := [{}], simpleKeyAllowed := true,
                           streamStartProduced := true }
  let m ← here
  enqueue .streamStart m m

/-- Ends the stream, on a fresh line. -/
def fetchStreamEnd : ScanM Unit := do
  let s ← get
  if s.mark.column != 0 then
    set { s with mark := { s.mark with column := 0, line := s.mark.line + 1 } }
  unrollIndent (-1)
  removeSimpleKey
  modify fun s => { s with simpleKeyAllowed := false }
  let m ← here
  enqueue .streamEnd m m

/-- Reads a directive. -/
def fetchDirective : ScanM Unit := do
  unrollIndent (-1)
  removeSimpleKey
  modify fun s => { s with simpleKeyAllowed := false }
  let t ← scanDirective
  enqueue t.kind t.start t.stop

/-- Reads a document marker `---` or `...`. -/
def fetchDocumentIndicator (kind : TokenKind) : ScanM Unit := do
  unrollIndent (-1)
  removeSimpleKey
  modify fun s => { s with simpleKeyAllowed := false }
  let start ← here
  skip
  skip
  skip
  enqueue kind start (← here)

/-- Reads `[` or `{`. -/
def fetchFlowCollectionStart (kind : TokenKind) : ScanM Unit := do
  saveSimpleKey
  increaseFlowLevel
  modify fun s => { s with simpleKeyAllowed := true }
  let start ← here
  skip
  enqueue kind start (← here)

/-- Reads `]` or `}`. -/
def fetchFlowCollectionEnd (kind : TokenKind) : ScanM Unit := do
  removeSimpleKey
  decreaseFlowLevel
  modify fun s => { s with simpleKeyAllowed := false }
  let start ← here
  skip
  enqueue kind start (← here)

/-- Reads `,` in a flow collection. -/
def fetchFlowEntry : ScanM Unit := do
  removeSimpleKey
  modify fun s => { s with simpleKeyAllowed := true }
  let start ← here
  skip
  enqueue .flowEntry start (← here)

/-- Reads `-` that starts an entry of a block sequence. -/
def fetchBlockEntry : ScanM Unit := do
  let s ← get
  if s.flowLevel == 0 then
    if !s.simpleKeyAllowed then
      failHere "block sequence entries are not allowed in this context"
    rollIndent s.mark.column none .blockSequenceStart s.mark
  removeSimpleKey
  modify fun s => { s with simpleKeyAllowed := true }
  let start ← here
  skip
  enqueue .blockEntry start (← here)

/-- Reads `?` that starts a complex key. -/
def fetchKey : ScanM Unit := do
  let s ← get
  if s.flowLevel == 0 then
    if !s.simpleKeyAllowed then
      failHere "mapping keys are not allowed in this context"
    rollIndent s.mark.column none .blockMappingStart s.mark
  removeSimpleKey
  modify fun s => { s with simpleKeyAllowed := s.flowLevel == 0 }
  let start ← here
  skip
  enqueue .key start (← here)

/-- Reads `:`: the value of the possible simple key, whose `key` token is put in front of it,
or of a complex key. -/
def fetchValue : ScanM Unit := do
  let s ← get
  match s.simpleKeys with
  | top :: rest =>
      if top.possible then
        insertBefore top.tokenNumber .key top.mark
        rollIndent top.mark.column (some top.tokenNumber) .blockMappingStart top.mark
        modify fun s => { s with simpleKeys := { top with possible := false } :: rest,
                                 simpleKeyAllowed := false }
      else
        if s.flowLevel == 0 then
          if !s.simpleKeyAllowed then
            failHere "mapping values are not allowed in this context"
          rollIndent s.mark.column none .blockMappingStart s.mark
        modify fun s => { s with simpleKeyAllowed := s.flowLevel == 0 }
  | [] => pure ()
  let start ← here
  skip
  enqueue .value start (← here)

/-- Saves a possible key and reads a token that may start one but not be followed by one. -/
def fetchKeyStart (scan : ScanM Token) : ScanM Unit := do
  saveSimpleKey
  modify fun s => { s with simpleKeyAllowed := false }
  let t ← scan
  enqueue t.kind t.start t.stop

/-- Reads a block scalar. -/
def fetchBlockScalar (literal : Bool) : ScanM Unit := do
  removeSimpleKey
  modify fun s => { s with simpleKeyAllowed := true }
  let t ← scanBlockScalar literal
  enqueue t.kind t.start t.stop

/-- Moves to the next token: over spaces, over tabs where they cannot be indentation, over
comments and line breaks. A line break in a block collection allows a simple key. -/
def scanToNextToken : ScanM Unit := do
  for _ in [0:← budget] do
    if (← here).column == 0 && (← isCurrent '\uFEFF') then skip
    for _ in [0:← budget] do
      let s ← get
      let c ← current
      if c == some ' ' || ((s.flowLevel > 0 || !s.simpleKeyAllowed) && c == some '\t') then skip
      else break
    skipComment
    match ← current with
    | some c =>
        if isBreak c then
          skipLine
          if (← get).flowLevel == 0 then modify fun s => { s with simpleKeyAllowed := true }
        else break
    | none => break

/-- Whether a character starts a plain scalar, given the one after it. -/
def startsPlain (flow : Bool) (c : Char) (next : Option Char) : Bool :=
  let indicator := isBlank c || isBreak c || c = '-' || c = '?' || c = ':' || c = ',' ||
    c = '[' || c = ']' || c = '{' || c = '}' || c = '#' || c = '&' || c = '*' || c = '!' ||
    c = '|' || c = '>' || c = '\'' || c = '"' || c = '%' || c = '@' || c = '\x60'
  !indicator || (c = '-' && !(next.map isBlank).getD false) ||
    (!flow && (c = '?' || c = ':') && !blankOrEnd next)

/-- Reads the next token, with the block ends that come before it. -/
def fetchNextToken : ScanM Unit := do
  if !(← get).streamStartProduced then fetchStreamStart
  else
    scanToNextToken
    staleSimpleKeys
    unrollIndent (← here).column
    let s ← get
    let column := s.mark.column
    let flow := s.flowLevel > 0
    let next ← charAt 1
    match ← current with
    | none => fetchStreamEnd
    | some c =>
        if column == 0 && c == '%' then fetchDirective
        else if ← atDocumentMarker then
          fetchDocumentIndicator (if c == '-' then .documentStart else .documentEnd)
        else if c == '[' then fetchFlowCollectionStart .flowSequenceStart
        else if c == '{' then fetchFlowCollectionStart .flowMappingStart
        else if c == ']' then fetchFlowCollectionEnd .flowSequenceEnd
        else if c == '}' then fetchFlowCollectionEnd .flowMappingEnd
        else if c == ',' then fetchFlowEntry
        else if c == '-' && blankOrEnd next then fetchBlockEntry
        else if c == '?' && (flow || blankOrEnd next) then fetchKey
        else if c == ':' && (flow || blankOrEnd next) then fetchValue
        else if c == '*' then fetchKeyStart (scanAnchor false)
        else if c == '&' then fetchKeyStart (scanAnchor true)
        else if c == '!' then fetchKeyStart scanTag
        else if c == '|' && !flow then fetchBlockScalar true
        else if c == '>' && !flow then fetchBlockScalar false
        else if c == '\'' then fetchKeyStart (scanFlowScalar true)
        else if c == '"' then fetchKeyStart (scanFlowScalar false)
        else if startsPlain flow c next then fetchKeyStart scanPlainScalar
        else
          let m ← here
          throw { problem := "found character that cannot start any token", problemMark := m,
                  context := some ("while scanning for the next token", m) }

/-- Reads tokens until the front one is final. -/
def fetchMoreTokens : ScanM Unit := do
  for _ in [0:(← budget) + 4] do
    let s ← get
    let needMore ← do
      if s.queue.isEmpty then pure true
      else
        staleSimpleKeys
        let s ← get
        pure (s.simpleKeys.any fun k => k.possible && k.tokenNumber == s.tokensParsed)
    if !needMore then break
    fetchNextToken
  modify fun s => { s with tokenAvailable := true }

/-- The token at the front, once it is final. -/
def peekToken : ScanM Token := do
  if !(← get).tokenAvailable then fetchMoreTokens
  match (← get).queue with
  | t :: _ => pure t
  | [] => let m ← here; pure { kind := .streamEnd, start := m, stop := m }

/-- Hands out the token at the front. -/
def skipToken : ScanM Unit :=
  modify fun s =>
    let ended := match s.queue with
      | { kind := .streamEnd, .. } :: _ => true
      | _ => false
    { s with tokenAvailable := false, tokensParsed := s.tokensParsed + 1,
             streamEndProduced := ended, queue := s.queue.drop 1 }

end Espalier.Yaml.Scanner
