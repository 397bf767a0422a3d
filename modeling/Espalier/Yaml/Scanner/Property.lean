import Espalier.Yaml.Scanner.State

/-!
# Scanning anchors, tags and directives

* An anchor `&name` or alias `*name` is a nonempty run of letters, digits, `_` and `-`,
  followed by a blank, a break, the end, or one of `?`, `:`, `,`, `]`, `}`, `%`, `@` and the
  backquote.
* A tag is verbatim (`!<uri>`), or a handle followed by a suffix: `!suffix`, `!!suffix`, or
  `!name!suffix`. A lone `!` is the non-specific tag. The suffix is made of URI characters,
  where `%` starts an escaped UTF-8 sequence of bytes. A tag ends at a blank, a break or the
  end (in a flow collection also at `,`).
* A directive starts a line with `%`: `%YAML major.minor` or `%TAG handle prefix`; any other
  name is refused. Only a comment may follow on its line.
-/

namespace Espalier.Yaml.Scanner

/-- Reads an anchor (`anchor`) or an alias at the position. -/
def scanAnchor (anchor : Bool) : ScanM Token := do
  let start ← here
  skip
  let mut name := ""
  for _ in [0:← budget] do
    match ← current with
    | some c => if isWordChar c then name := name ++ (← readChar) else break
    | none => break
  let stop ← here
  let c ← current
  let ends := blankOrEnd c ||
    (c.map fun x => x = '?' || x = ':' || x = ',' || x = ']' || x = '}' || x = '%' ||
      x = '@' || x = '\x60').getD false
  if name.isEmpty || !ends then
    failIn (if anchor then "while scanning an anchor" else "while scanning an alias") start
      "did not find expected alphabetic or numeric character"
  let kind := if anchor then TokenKind.anchor name else TokenKind.alias name
  return { kind, start, stop }

/-- Reads a tag handle: `!`, then letters, digits, `_` and `-`, then `!` if there is one. In a
directive the handle must be `!` or end with `!`. -/
def scanTagHandle (directive : Bool) (start : Mark) : ScanM String := do
  unless ← isCurrent '!' do
    failIn (if directive then "while scanning a tag directive" else "while scanning a tag") start
      "did not find expected '!'"
  let mut handle := "!"
  skip
  for _ in [0:← budget] do
    match ← current with
    | some c => if isWordChar c then handle := handle ++ (← readChar) else break
    | none => break
  if ← isCurrent '!' then
    handle := handle ++ "!"
    skip
  else if directive && handle != "!" then
    failIn "while parsing a tag directive" start "did not find expected '!'"
  return handle

/-- Whether a character may appear in a tag's URI; inside `!<...>` also `,`, `[` and `]`. -/
def isUriChar (verbatim : Bool) (c : Char) : Bool :=
  isWordChar c || c = ';' || c = '/' || c = '?' || c = ':' || c = '@' || c = '&' || c = '=' ||
    c = '+' || c = '$' || c = '.' || c = '%' || c = '!' || c = '~' || c = '*' || c = '\'' ||
    c = '(' || c = ')' || (verbatim && (c = ',' || c = '[' || c = ']'))

/-- The character of a well-formed UTF-8 sequence of bytes, and the replacement character for
one that names no character. -/
def decodeOctets (bytes : List Nat) : Char :=
  let cont := fun (b : Nat) => b % 64
  let v := match bytes with
    | [a] => a
    | [a, b] => (a % 32) * 64 + cont b
    | [a, b, c] => (a % 16) * 4096 + cont b * 64 + cont c
    | [a, b, c, d] => (a % 8) * 262144 + cont b * 4096 + cont c * 64 + cont d
    | _ => 0xFFFD
  if v > 0x10FFFF || (0xD800 ≤ v && v ≤ 0xDFFF) then '\uFFFD' else Char.ofNat v

/-- Reads the escaped octets `%hh` of one UTF-8 sequence at the position. -/
def scanUriEscapes (directive : Bool) (start : Mark) : ScanM Char := do
  let what := if directive then "while parsing a %TAG directive" else "while parsing a tag"
  let mut width := 0
  let mut bytes : List Nat := []
  for _ in [0:4] do
    let c0 ← charAt 0
    let c1 ← charAt 1
    let c2 ← charAt 2
    let octet ← match c0, c1, c2 with
      | some '%', some h, some l =>
          if isHexDigit h && isHexDigit l then pure (hexValue h * 16 + hexValue l)
          else failIn what start "did not find URI escaped octet"
      | _, _, _ => failIn what start "did not find URI escaped octet"
    if width == 0 then
      width :=
        if octet < 0x80 then 1 else if octet / 32 == 6 then 2 else if octet / 16 == 14 then 3
        else if octet / 8 == 30 then 4 else 0
      if width == 0 then failIn what start "found an incorrect leading UTF-8 octet"
    else if octet / 64 != 2 then failIn what start "found an incorrect trailing UTF-8 octet"
    bytes := bytes ++ [octet]
    skip
    skip
    skip
    if bytes.length == width then break
  return decodeOctets bytes

/-- Reads the URI of a tag, after `head` (a handle that turned out to start the suffix, whose
`!` is dropped). An empty URI is refused. -/
def scanTagUri (verbatim directive : Bool) (head : String) (start : Mark) : ScanM String := do
  let mut length := head.length
  let mut uri := if head.length > 1 then (head.drop 1).toString else ""
  for _ in [0:← budget] do
    match ← current with
    | some c =>
        if !isUriChar verbatim c then break
        if c == '%' then uri := uri.push (← scanUriEscapes directive start)
        else uri := uri ++ (← readChar)
        length := length + 1
    | none => break
  if length == 0 then
    failIn (if directive then "while parsing a %TAG directive" else "while parsing a tag") start
      "did not find expected tag URI"
  return uri

/-- Reads a tag at the position. -/
def scanTag : ScanM Token := do
  let start ← here
  let (handle, suffix) ← do
    if ← isAt 1 '<' then
      skip
      skip
      let suffix ← scanTagUri true false "" start
      unless ← isCurrent '>' do
        failIn "while scanning a tag" start "did not find the expected '>'"
      skip
      pure ("", suffix)
    else
      let handle ← scanTagHandle false start
      if handle.length > 1 && handle.endsWith "!" then
        pure (handle, ← scanTagUri false false "" start)
      else
        let suffix ← scanTagUri false false handle start
        if suffix.isEmpty then pure ("", "!") else pure ("!", suffix)
  let c ← current
  if !blankOrEnd c then
    if (← get).flowLevel == 0 || c != some ',' then
      failIn "while scanning a tag" start "did not find expected whitespace or line break"
  return { kind := .tag handle suffix, start, stop := ← here }

/-- Reads a version number of at most nine digits. -/
def versionNumber (start : Mark) : ScanM Nat := do
  let mut value := 0
  let mut length := 0
  for _ in [0:← budget] do
    match ← current with
    | some d =>
        if '0' ≤ d && d ≤ '9' then
          length := length + 1
          if length > 9 then
            failIn "while scanning a %YAML directive" start "found extremely long version number"
          value := value * 10 + (d.toNat - '0'.toNat)
          skip
        else break
    | none => break
  if length == 0 then
    failIn "while scanning a %YAML directive" start "did not find expected version number"
  return value

/-- Reads a directive at the position, up to and including its line break. -/
def scanDirective : ScanM Token := do
  let start ← here
  skip
  let mut name := ""
  for _ in [0:← budget] do
    match ← current with
    | some c => if isWordChar c then name := name ++ (← readChar) else break
    | none => break
  if name.isEmpty then
    failIn "while scanning a directive" start "could not find expected directive name"
  if !blankOrEnd (← current) then
    failIn "while scanning a directive" start "found unexpected non-alphabetical character"
  let kind ← do
    if name == "YAML" then
      skipBlanks
      let major ← versionNumber start
      unless ← isCurrent '.' do
        failIn "while scanning a %YAML directive" start
          "did not find expected digit or '.' character"
      skip
      let minor ← versionNumber start
      pure (TokenKind.versionDirective major minor)
    else if name == "TAG" then
      skipBlanks
      let handle ← scanTagHandle true start
      unless ((← current).map isBlank).getD false do
        failIn "while scanning a %TAG directive" start "did not find expected whitespace"
      skipBlanks
      let pfx ← scanTagUri true true "" start
      if !blankOrEnd (← current) then
        failIn "while scanning a %TAG directive" start
          "did not find expected whitespace or line break"
      pure (TokenKind.tagDirective handle pfx)
    else failIn "while scanning a directive" start "found unknown directive name"
  let stop ← here
  skipBlanks
  skipComment
  if !breakOrEnd (← current) then
    failIn "while scanning a directive" start "did not find expected comment or line break"
  skipLine
  return { kind, start, stop }

end Espalier.Yaml.Scanner
