import Espalier.Diagnostic
import Espalier.Text.Blank

/-!
# Logical lines

The grammar reads one *logical line* at a time; block structure comes from indentation,
which this module measures. A logical line ends at a line break that stands outside
brackets and strings. Line breaks inside brackets or triple-quoted strings, and backslash
continuations, stay in the line's text, so the grammar can skip them as blanks and the reader
can still compute exact locations. Comments are dropped, and blank or comment-only lines
produce nothing.

The scanner is a machine that reads one character per step, with a two-character lookahead
for triple quotes and continuations; `split` is structural recursion on the input.

`LogicalLine.locAt` maps a byte offset of a line's text back to a source location: on the
first physical line the column is the indentation plus the offset, on a later one it is the
byte offset after the last line break.
-/

namespace Espalier

/-- One logical source line. -/
structure LogicalLine where
  /-- The 1-based physical line it starts on. -/
  line : Nat
  /-- The number of leading blanks and tabs; a tab counts as one. -/
  indent : Nat
  /-- The text after the indentation, comments removed and trailing blanks trimmed. -/
  text : String
deriving DecidableEq, Repr, Inhabited

namespace LogicalLine

/-- The location of the line's first character. -/
def start (ln : LogicalLine) : Loc := ⟨ln.line, ln.indent⟩

/-- Scans the characters that lie wholly before byte `offset`, counting line breaks and
remembering the byte just after the last one. -/
def breaksBefore (offset : Nat) : List Char → Nat → Nat → Option Nat → Nat × Option Nat
  | [], _, n, last => (n, last)
  | c :: cs, pos, n, last =>
      if pos + c.utf8Size ≤ offset then
        if c = '\n' then breaksBefore offset cs (pos + 1) (n + 1) (some (pos + 1))
        else breaksBefore offset cs (pos + c.utf8Size) n last
      else (n, last)

/-- The source location of byte `offset` of the line's text. -/
def locAt (ln : LogicalLine) (offset : Nat) : Loc :=
  match breaksBefore offset ln.text.toList 0 0 none with
  | (n, some after) => ⟨ln.line + n, offset - after⟩
  | (_, none) => ⟨ln.line, ln.indent + offset⟩

end LogicalLine

namespace LogicalLine.Scan

/-- A logical line being collected: where it starts, its indentation, the bracket depth
and the text so far, last character first. -/
structure Part where
  start : Nat
  indent : Nat
  depth : Int := 0
  acc : List Char := []

/-- Appends a character to the collected text. -/
def Part.push (p : Part) (c : Char) : Part := { p with acc := c :: p.acc }

/-- Where the scanner stands between two characters. -/
inductive State where
  /-- Measuring the indentation of a fresh physical line. -/
  | indent (n : Nat)
  /-- Inside a comment on a line that holds nothing else. -/
  | blankComment
  /-- Collecting code. -/
  | code (p : Part)
  /-- Inside a comment that ends a line of code. -/
  | lineComment (p : Part)
  /-- Inside a string opened by `q`, triple-quoted or not. -/
  | quoted (p : Part) (q : Char) (triple : Bool)
  /-- Just after a backslash inside a string: the next character is taken as it is. -/
  | escaped (p : Part) (q : Char) (triple : Bool)
  /-- Copying the last `left` characters of a triple quote; then inside the string when it
  opens one, in code when it closes one. -/
  | quoteRun (p : Part) (q : Char) (left : Nat) (opens : Bool)
  /-- Just after a backslash that continues the line. -/
  | joined (p : Part)

/-- Whether the next two characters repeat the quote `q`. -/
def closesTriple (q : Char) : List Char → Bool
  | a :: b :: _ => a == q && b == q
  | _ => false

/-- Ends a logical line: its text is trimmed, and an empty one is dropped. -/
def finishLine (p : Part) : Option LogicalLine :=
  let text := Text.trimEnd p.acc.reverse
  if text.isEmpty then none else some ⟨p.start, p.indent, String.ofList text⟩

/-- One result of a step: the next state, the line number after it and a finished line. -/
abbrev Step := State × Nat × Option LogicalLine

/-- A line break in code: inside brackets it joins the line, otherwise it ends it. -/
def lineBreak (p : Part) (l : Nat) : Step :=
  if p.depth > 0 then (.code (p.push '\n'), l + 1, none)
  else (.indent 0, l + 1, finishLine p)

/-- One step of code: character `c`, followed by `rest`, on line `l`. -/
def codeStep (p : Part) (l : Nat) (c : Char) (rest : List Char) : Step :=
  if c = '"' ∨ c = '\'' then
    if closesTriple c rest then (.quoteRun (p.push c) c 2 true, l, none)
    else (.quoted (p.push c) c false, l, none)
  else if c = '#' then (.lineComment p, l, none)
  else if c = '\\' ∧ rest.head? = some '\n' then (.joined (p.push c), l, none)
  else if c = '\n' then lineBreak p l
  else if c = '(' ∨ c = '[' ∨ c = '{' then (.code { p.push c with depth := p.depth + 1 }, l, none)
  else if c = ')' ∨ c = ']' ∨ c = '}' then (.code { p.push c with depth := p.depth - 1 }, l, none)
  else (.code (p.push c), l, none)

/-- The error for a string that a line break or the end of the text leaves open. -/
def unterminated (file : String) (loc : Loc) : Error :=
  .atLoc .parseError file (some loc) "unterminated string literal"

/-- One step of the scanner. -/
def step (file : String) (s : State) (l : Nat) (c : Char) (rest : List Char) :
    Except Error Step :=
  match s with
  | .indent n =>
      if c = ' ' ∨ c = '\t' then .ok (.indent (n + 1), l, none)
      else if c = '\n' then .ok (.indent 0, l + 1, none)
      else if c = '#' then .ok (.blankComment, l, none)
      else .ok (codeStep { start := l, indent := n } l c rest)
  | .blankComment => .ok (if c = '\n' then (.indent 0, l + 1, none) else (.blankComment, l, none))
  | .code p => .ok (codeStep p l c rest)
  | .lineComment p => .ok (if c = '\n' then lineBreak p l else (.lineComment p, l, none))
  | .joined p => .ok (.code (p.push c), if c = '\n' then l + 1 else l, none)
  | .quoteRun p q left opens =>
      let p := p.push c
      match left with
      | 0 | 1 => .ok (if opens then .quoted p q true else .code p, l, none)
      | k + 2 => .ok (.quoteRun p q (k + 1) opens, l, none)
  | .escaped p q triple => .ok (.quoted (p.push c) q triple, if c = '\n' then l + 1 else l, none)
  | .quoted p q triple =>
      if c = '\\' ∧ rest ≠ [] then .ok (.escaped (p.push c) q triple, l, none)
      else if c = '\n' ∧ !triple then .error (unterminated file ⟨l, 0⟩)
      else
        let l' := if c = '\n' then l + 1 else l
        if c = q ∧ (!triple || closesTriple q rest) then
          if triple then .ok (.quoteRun (p.push c) q 2 false, l', none)
          else .ok (.code (p.push c), l', none)
        else .ok (.quoted (p.push c) q triple, l', none)

/-- The end of the text: a pending line is finished, an open string is an error. -/
def finish (file : String) : State → Except Error (Option LogicalLine)
  | .indent _ | .blankComment => .ok none
  | .code p | .lineComment p | .joined p => .ok (finishLine p)
  | .quoted p _ _ | .escaped p _ _ | .quoteRun p _ _ _ => .error (unterminated file ⟨p.start, p.indent⟩)

/-- Runs the scanner over the rest of the text, collecting finished lines. -/
def run (file : String) : State → Nat → List Char → Array LogicalLine →
    Except Error (Array LogicalLine)
  | s, _, [], out => do
      match ← finish file s with
      | some ln => pure (out.push ln)
      | none => pure out
  | s, l, c :: rest, out => do
      let (s', l', done) ← step file s l c rest
      run file s' l' rest (match done with | some ln => out.push ln | none => out)

end LogicalLine.Scan

/-- Replaces each carriage return that precedes a line feed by nothing. -/
def normalizeBreaks : List Char → List Char
  | [] => []
  | '\r' :: '\n' :: rest => '\n' :: normalizeBreaks rest
  | c :: rest => c :: normalizeBreaks rest

/-- Splits a source text into logical lines; `file` names it in errors. -/
def splitLogicalLines (source : String) (file : String) : Except Error (List LogicalLine) :=
  (LogicalLine.Scan.run file (.indent 0) 1 (normalizeBreaks source.toList) #[]).map Array.toList

end Espalier
