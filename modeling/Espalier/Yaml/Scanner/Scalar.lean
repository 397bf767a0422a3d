import Espalier.Yaml.Scanner.State

/-!
# Scanning scalars

A scalar is written in one of five styles, each read here into its text.

* **Plain**: runs of non-blank characters, ended by `: ` (or `:` before a break or the end),
  by ` #`, and in a flow collection also by `,`, `[`, `]`, `{` and `}`. It may continue on
  following lines that are indented deeper than the enclosing block collection. Line breaks
  fold: a single break becomes a space, and each further break of a run stays a line feed.
* **Single-quoted**: `''` stands for `'`; breaks fold as in plain scalars, and blanks around
  breaks are dropped.
* **Double-quoted**: as single-quoted, with backslash escapes, among them `\x`, `\u` and `\U`
  followed by two, four or eight hexadecimal digits naming a code point; a backslash before a
  break joins the lines without a space.
* **Literal** (`|`) and **folded** (`>`): the lines below the indicator that are indented at
  least as deep as the first non-empty one, or as deep as an indentation indicator `1`–`9`
  says. Literal keeps the breaks; folded joins lines that do not start with a blank by a
  space. The final breaks are kept as one (default), dropped (`-`) or all kept (`+`).

A scalar that cannot be read fails with the construct's start as context and the position of
the fault as the problem's place.
-/

namespace Espalier.Yaml.Scanner

/-- Joins the breaks read after a line of a plain or quoted scalar: a single line feed
becomes a space, further breaks stay; a first break that is a separator is kept as it is. -/
def foldBreaks (leadingBreak trailingBreaks : String) : String :=
  if leadingBreak.startsWith "\n" then
    if trailingBreaks.isEmpty then " " else trailingBreaks
  else leadingBreak ++ trailingBreaks

/-! ## Block scalars -/

/-- Moves over the indentation and the empty lines before a line of a block scalar, giving
the breaks read, the indentation (found from the deepest of these lines when it was `0`, not
yet known) and where the breaks end. -/
def blockScalarBreaks (indent : Nat) (start : Mark) : ScanM (Nat × String × Mark) := do
  let mut maxIndent := 0
  let mut breaks := ""
  let mut endMark ← here
  for _ in [0:← budget] do
    for _ in [0:← budget] do
      let col := (← here).column
      if (indent == 0 || col < indent) && (← isCurrent ' ') then skip else break
    let col := (← here).column
    maxIndent := max maxIndent col
    if (indent == 0 || col < indent) && (← isCurrent '\t') then
      failIn "while scanning a block scalar" start
        "found a tab character where an indentation space is expected"
    match ← current with
    | some c =>
        if isBreak c then
          breaks := breaks ++ (← readLine)
          endMark ← here
        else break
    | none => break
  let s ← get
  let indent :=
    if indent != 0 then indent
    else
      let least : Int := s.indent + 1
      let found : Int := max (max (maxIndent : Int) least) 1
      found.toNat
  return (indent, breaks, endMark)

/-- Reads a block scalar at the position, `literal` for `|` and folded for `>`. -/
def scanBlockScalar (literal : Bool) : ScanM Token := do
  let start ← here
  skip
  let mut chomping : Int := 0
  let mut increment : Nat := 0
  let first ← current
  if first == some '+' || first == some '-' then
    chomping := if first == some '+' then 1 else -1
    skip
    match ← current with
    | some d =>
        if '0' ≤ d && d ≤ '9' then
          if d == '0' then
            failIn "while scanning a block scalar" start "found an indentation indicator equal to 0"
          increment := d.toNat - '0'.toNat
          skip
    | none => pure ()
  else
    match first with
    | some d =>
        if '0' ≤ d && d ≤ '9' then
          if d == '0' then
            failIn "while scanning a block scalar" start "found an indentation indicator equal to 0"
          increment := d.toNat - '0'.toNat
          skip
          let c ← current
          if c == some '+' || c == some '-' then
            chomping := if c == some '+' then 1 else -1
            skip
    | none => pure ()
  skipBlanks
  skipComment
  if !breakOrEnd (← current) then
    failIn "while scanning a block scalar" start "did not find expected comment or line break"
  skipLine
  let s ← get
  let indent : Nat :=
    if increment == 0 then 0
    else if s.indent ≥ 0 then (s.indent + increment).toNat else increment
  let (indent, firstBreaks, firstEnd) ← blockScalarBreaks indent start
  let mut text := ""
  let mut leadingBreak := ""
  let mut trailingBreaks := firstBreaks
  let mut endMark := firstEnd
  let mut leadingBlank := false
  for _ in [0:← budget] do
    let col := (← here).column
    let c ← current
    if col != indent || c.isNone then break
    let trailingBlank := (c.map isBlank).getD false
    if !literal && leadingBreak.startsWith "\n" && !leadingBlank && !trailingBlank then
      if trailingBreaks.isEmpty then text := text ++ " "
      leadingBreak := ""
    else
      text := text ++ leadingBreak
      leadingBreak := ""
    text := text ++ trailingBreaks
    trailingBreaks := ""
    leadingBlank := (c.map isBlank).getD false
    for _ in [0:← budget] do
      if breakOrEnd (← current) then break
      text := text ++ (← readChar)
    leadingBreak ← readLine
    let (_, more, moreEnd) ← blockScalarBreaks indent start
    trailingBreaks := more
    endMark := moreEnd
  if chomping != -1 then text := text ++ leadingBreak
  if chomping == 1 then text := text ++ trailingBreaks
  let style := if literal then ScalarStyle.literal else ScalarStyle.folded
  return { kind := .scalar text style, start, stop := endMark }

/-! ## Quoted scalars -/

/-- The text of a one-character escape in a double-quoted scalar, or the number of
hexadecimal digits that follow `x`, `u` and `U`. -/
def escapeText : Char → Option (String ⊕ Nat)
  | '0' => some (.inl "\x00")
  | 'a' => some (.inl "\x07")
  | 'b' => some (.inl "\x08")
  | 't' => some (.inl "\t")
  | '\t' => some (.inl "\t")
  | 'n' => some (.inl "\n")
  | 'v' => some (.inl "\x0B")
  | 'f' => some (.inl "\x0C")
  | 'r' => some (.inl "\r")
  | 'e' => some (.inl "\x1B")
  | ' ' => some (.inl " ")
  | '"' => some (.inl "\"")
  | '/' => some (.inl "/")
  | '\'' => some (.inl "'")
  | '\\' => some (.inl "\\")
  | 'N' => some (.inl "\x85")
  | '_' => some (.inl "\xA0")
  | 'L' => some (.inl "\u2028")
  | 'P' => some (.inl "\u2029")
  | 'x' => some (.inr 2)
  | 'u' => some (.inr 4)
  | 'U' => some (.inr 8)
  | _ => none

/-- Reads the code point written by `width` hexadecimal digits at the position, after an
escape; the digits are checked before any is passed. -/
def hexEscape (width : Nat) (start : Mark) : ScanM String := do
  let mut value := 0
  for k in [0:width] do
    match ← charAt k with
    | some d =>
        if isHexDigit d then value := value * 16 + hexValue d
        else failIn "while parsing a quoted scalar" start "did not find expected hexadecimal number"
    | none => failIn "while parsing a quoted scalar" start "did not find expected hexadecimal number"
  if (0xD800 ≤ value && value ≤ 0xDFFF) || value > 0x10FFFF then
    failIn "while parsing a quoted scalar" start "found invalid Unicode character escape code"
  for _ in [0:width] do skip
  return String.singleton (Char.ofNat value)

/-- Reads a quoted scalar at the position, `single` for `'` and double for `"`. -/
def scanFlowScalar (single : Bool) : ScanM Token := do
  let start ← here
  let quote := if single then '\'' else '"'
  skip
  let mut text := ""
  for _ in [0:← budget] do
    if ← atDocumentMarker then
      failIn "while scanning a quoted scalar" start "found unexpected document indicator"
    if (← current).isNone then
      failIn "while scanning a quoted scalar" start "found unexpected end of stream"
    let mut leadingBlanks := false
    for _ in [0:← budget] do
      let c ← current
      if blankOrEnd c then break
      let next ← charAt 1
      if single && c == some '\'' && next == some '\'' then
        text := text ++ "'"
        skip
        skip
      else if c == some quote then break
      else if !single && c == some '\\' && (next.map isBreak).getD false then
        skip
        skipLine
        leadingBlanks := true
        break
      else if !single && c == some '\\' then
        match next.bind escapeText with
        | some (.inl t) =>
            text := text ++ t
            skip
            skip
        | some (.inr width) =>
            skip
            skip
            text := text ++ (← hexEscape width start)
        | none => failIn "while parsing a quoted scalar" start "found unknown escape character"
      else
        text := text ++ (← readChar)
    if ← isCurrent quote then break
    let mut whitespaces := ""
    let mut leadingBreak := ""
    let mut trailingBreaks := ""
    for _ in [0:← budget] do
      match ← current with
      | some c =>
          if isBlank c then
            if !leadingBlanks then whitespaces := whitespaces ++ (← readChar) else skip
          else if isBreak c then
            if !leadingBlanks then
              whitespaces := ""
              leadingBreak ← readLine
              leadingBlanks := true
            else trailingBreaks := trailingBreaks ++ (← readLine)
          else break
      | none => break
    if leadingBlanks then text := text ++ foldBreaks leadingBreak trailingBreaks
    else text := text ++ whitespaces
  skip
  let style := if single then ScalarStyle.singleQuoted else ScalarStyle.doubleQuoted
  return { kind := .scalar text style, start, stop := ← here }

/-! ## Plain scalars -/

/-- Whether a character ends a plain scalar inside a flow collection. -/
def isFlowIndicator (c : Char) : Bool := c = ',' || c = '[' || c = ']' || c = '{' || c = '}'

/-- Reads a plain scalar at the position. A scalar that ends after a line break allows a
simple key to start where it ends. -/
def scanPlainScalar : ScanM Token := do
  let s ← get
  let indent : Int := s.indent + 1
  let start := s.mark
  let mut endMark := start
  let mut text := ""
  let mut leadingBreak := ""
  let mut trailingBreaks := ""
  let mut whitespaces := ""
  let mut leadingBlanks := false
  for _ in [0:← budget] do
    if ← atDocumentMarker then break
    if ← isCurrent '#' then break
    for _ in [0:← budget] do
      let c ← current
      if blankOrEnd c then break
      let next ← charAt 1
      let flow := (← get).flowLevel > 0
      if flow && c == some ':' &&
          (next == some ',' || next == some '?' || next == some '[' || next == some ']' ||
            next == some '{' || next == some '}') then
        failIn "while scanning a plain scalar" start "found unexpected ':'"
      if (c == some ':' && blankOrEnd next) || (flow && (c.map isFlowIndicator).getD false) then
        break
      if leadingBlanks then
        text := text ++ foldBreaks leadingBreak trailingBreaks
        leadingBreak := ""
        trailingBreaks := ""
        leadingBlanks := false
      else if !whitespaces.isEmpty then
        text := text ++ whitespaces
        whitespaces := ""
      text := text ++ (← readChar)
      endMark ← here
    let c ← current
    if !(c.map fun x => isBlank x || isBreak x).getD false then break
    for _ in [0:← budget] do
      match ← current with
      | some c =>
          if isBlank c then
            if leadingBlanks && ((← here).column : Int) < indent && c == '\t' then
              failIn "while scanning a plain scalar" start
                "found a tab character that violates indentation"
            if !leadingBlanks then whitespaces := whitespaces ++ (← readChar) else skip
          else if isBreak c then
            if !leadingBlanks then
              whitespaces := ""
              leadingBreak ← readLine
              leadingBlanks := true
            else trailingBreaks := trailingBreaks ++ (← readLine)
          else break
      | none => break
    if (← get).flowLevel == 0 && ((← here).column : Int) < indent then break
  if leadingBlanks then modify fun s => { s with simpleKeyAllowed := true }
  return { kind := .scalar text .plain, start, stop := endMark }

end Espalier.Yaml.Scanner
