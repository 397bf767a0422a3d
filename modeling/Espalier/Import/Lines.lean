import Espalier.Text.Blank

/-!
# Import lines in raw text

Two scanners find import lines in source text without parsing it, so that they also work
on text that does not parse yet. Both look only at the start of a line, and a blank in
the patterns below is any run of one or more blanks, line breaks included.

* `importLines` finds `from M import macros,…` and `from M import dialects,…`, each to the
  end of its line;
* `dialectLines` finds `from M import dialects, N…`, where the names after the blank that
  follows the comma run to the end of the line and hold no `(`, `\` or line break.

`M` is a run of letters, digits, underscores and dots. Matches do not overlap; the scan
goes on after the end of each match.
-/

namespace Espalier

/-- Characters of a dotted module reference. -/
def isModuleRefChar (c : Char) : Bool := c.isAlphanum || c == '_' || c == '.'

/-- The length of a leading run of characters satisfying `p`, if it is not empty. -/
def runLength (p : Char → Bool) (cs : List Char) : Option Nat :=
  match (cs.takeWhile p).length with
  | 0 => none
  | n => some n

/-- The length of `lit` if `cs` starts with it. -/
def literalLength (lit : String) (cs : List Char) : Option Nat :=
  if lit.toList.isPrefixOf cs then some lit.length else none

/-- Matches `from`, blanks, a module reference, blanks and `import` at the head of `cs`,
giving the length matched. -/
def matchFromImport (cs : List Char) : Option Nat := do
  let a ← literalLength "from" cs
  let b ← runLength Text.isBlank (cs.drop a)
  let c ← runLength isModuleRefChar (cs.drop (a + b))
  let d ← runLength Text.isBlank (cs.drop (a + b + c))
  let e ← literalLength "import" (cs.drop (a + b + c + d))
  pure (a + b + c + d + e)

/-- The length of an import line of macros or dialects at the head of `cs`. -/
def matchImportLine (cs : List Char) : Option Nat := do
  let a ← matchFromImport cs
  let b ← runLength Text.isBlank (cs.drop a)
  let rest := cs.drop (a + b)
  let c ← (literalLength "macros," rest).orElse fun _ => literalLength "dialects," rest
  pure (a + b + c + ((cs.drop (a + b + c)).takeWhile (· ≠ '\n')).length)

/-- Whether a character may stand in the names of a dialect line. -/
def isDialectNameChar (c : Char) : Bool := c ≠ '(' && c ≠ '\\' && c ≠ '\n'

/-- Blanks, then names to the end of the line: the longest blank run that leaves a
nonempty run of name characters ending the line wins. -/
def matchDialectTail (t : List Char) : Option Nat :=
  let k := (t.takeWhile Text.isBlank).length
  let tryAt (s : Nat) : Option Nat :=
    let e := s + ((t.drop s).takeWhile isDialectNameChar).length
    if e > s && (t.drop e).head?.all (· = '\n') then some e else none
  ((List.range k).reverse.map (· + 1)).findSome? tryAt

/-- The length of a dialect-import line at the head of `cs`. -/
def matchDialectLine (cs : List Char) : Option Nat := do
  let a ← matchFromImport cs
  let b ← literalLength " dialects," (cs.drop a)
  let c ← matchDialectTail (cs.drop (a + b))
  pure (a + b + c)

/-- The texts of the non-overlapping matches of `m` that start a line, in order. -/
def scanLineStarts (m : List Char → Option Nat) : List Char → Nat → Bool → List String
  | [], _, _ => []
  | cs@(c :: rest), fuel, atStart =>
    match fuel with
    | 0 => []
    | f + 1 =>
      match (if atStart then m cs else none) with
      | some n =>
          if n = 0 then scanLineStarts m rest f (c == '\n')
          else
            let after := cs.drop n
            let lastIsBreak := (cs.take n).getLast? == some '\n'
            String.ofList (cs.take n) :: scanLineStarts m after f lastIsBreak
      | none => scanLineStarts m rest f (c == '\n')

/-- The import lines of macros and dialects in a text. -/
def importLines (text : String) : List String :=
  scanLineStarts matchImportLine text.toList (text.length + 1) true

/-- The dialect-import lines of a text. -/
def dialectLines (text : String) : List String :=
  scanLineStarts matchDialectLine text.toList (text.length + 1) true

end Espalier
