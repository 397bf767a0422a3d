import Espalier.Syntax.Reader

/-!
# Block structure and the reading entry points

Read lines become statements by indentation. A block holds the lines of one indentation;
a deeper line directly after a header opens the header's body, a deeper line anywhere else
is an error, and a shallower line ends the block. Decorator lines gather onto the `def` or
`class` that follows them; `if`, `elif` and `else` lines at one indentation form one chain,
in which each `elif` becomes an `if` nested in the `else` branch of the one before.

`parseModule` reads a whole file; `parseStatement` and `parseExpr` read text that must hold
exactly one statement, or one expression.
-/

namespace Espalier.Syntax

/-- Builds a compound statement from its header, body and decorators. -/
def compound (h : Header) (body : List Stmt) (decorators : List Expr) (loc : Loc) :
    Except Error Stmt :=
  match h with
  | .defn name params => pure (.mk (.functionDef name params body decorators) (some loc))
  | .classDef name => pure (.mk (.classDef name body decorators) (some loc))
  | .withItem item asName => pure (.mk (.withBlock item asName body) (some loc))
  | .whileTest test => pure (.mk (.whileLoop test body) (some loc))
  | .forEach target iter => pure (.mk (.forLoop target iter body) (some loc))
  | .ifTest _ | .elifTest _ | .elseClause =>
      throw (malformed "conditional header outside an if-chain")

/-- Nests the clauses of an if-chain: each clause's `else` branch holds the rest. -/
def nestClauses (orelse : List Stmt) : List (Expr × List Stmt × Loc) → List Stmt
  | [] => orelse
  | (test, body, loc) :: rest => [.mk (.ifElse test body (nestClauses orelse rest)) (some loc)]

section
variable (file : String)

/-- The error at a line's start. -/
def lineError (ln : ReadLine) (msg : String) : Error := .atLoc .parseError file (some ln.loc) msg

mutual
/-- Reads the statements of a block at indentation `indent`, up to the first shallower line;
`fuel` bounds the number of steps. -/
def block : Nat → Nat → List ReadLine → Array Stmt → Except Error (List Stmt × List ReadLine)
  | 0, _, _, _ => throw (malformed "block structure too deep")
  | _ + 1, _, [], acc => pure (acc.toList, [])
  | n + 1, indent, ln :: rest, acc =>
      if ln.indent < indent then pure (acc.toList, ln :: rest)
      else if ln.indent > indent then throw (lineError file ln "unexpected indent")
      else
        match ln.item with
        | .simple ss => block n indent rest (acc ++ ss.toArray)
        | .decorator _ => do
            let (s, rest') ← decorated n indent (ln :: rest) #[]
            block n indent rest' (acc.push s)
        | .header (.ifTest _) _ => do
            let (s, rest') ← ifChain n indent (ln :: rest) #[]
            block n indent rest' (acc.push s)
        | .header (.elifTest _) _ | .header .elseClause _ =>
            throw (lineError file ln "'elif' or 'else' without a matching 'if'")
        | .header h inline => do
            let (body, rest') ← suite n ln inline indent rest
            let s ← compound h body [] ln.loc
            block n indent rest' (acc.push s)

/-- The body of the header on line `ln`: its inline statements, or the deeper block that
follows it. -/
def suite : Nat → ReadLine → List Stmt → Nat → List ReadLine → Except Error (List Stmt × List ReadLine)
  | 0, _, _, _, _ => throw (malformed "block structure too deep")
  | n + 1, ln, inline, indent, rest =>
      if !inline.isEmpty then pure (inline, rest)
      else
        match rest with
        | next :: _ =>
            if next.indent > indent then block n next.indent rest #[]
            else throw (lineError file ln "expected an indented block")
        | [] => throw (lineError file ln "expected an indented block")

/-- Gathers decorator lines at indentation `indent` onto the definition that follows. -/
def decorated : Nat → Nat → List ReadLine → Array Expr → Except Error (Stmt × List ReadLine)
  | 0, _, _, _ => throw (malformed "block structure too deep")
  | n + 1, indent, lines, decs =>
      match lines with
      | ⟨_, i, .decorator e⟩ :: rest =>
          if i = indent then decorated n indent rest (decs.push e)
          else finishDecorated n indent lines decs
      | _ => finishDecorated n indent lines decs

/-- The definition that decorators at indentation `indent` apply to. -/
def finishDecorated : Nat → Nat → List ReadLine → Array Expr → Except Error (Stmt × List ReadLine)
  | 0, _, _, _ => throw (malformed "block structure too deep")
  | n + 1, indent, lines, decs =>
      match lines with
      | [] => throw (.plain .parseError (file ++ ": unexpected end of file after decorator"))
      | ln :: rest =>
          let bad := lineError file ln "decorators must be followed by 'def' or 'class'"
          if ln.indent ≠ indent then throw bad
          else
            match ln.item with
            | .header h inline =>
                match h with
                | .defn .. | .classDef _ => do
                    let (body, rest') ← suite n ln inline indent rest
                    let s ← compound h body decs.toList ln.loc
                    pure (s, rest')
                | _ => throw bad
            | _ => throw bad

/-- Reads an if-chain at indentation `indent`: an `if` line, then `elif` lines, then at most
one `else` line. -/
def ifChain : Nat → Nat → List ReadLine → Array (Expr × List Stmt × Loc) → Except Error (Stmt × List ReadLine)
  | 0, _, _, _ => throw (malformed "block structure too deep")
  | n + 1, indent, lines, clauses =>
      let finish (orelse : List Stmt) (rest : List ReadLine) : Except Error (Stmt × List ReadLine) :=
        match nestClauses orelse clauses.toList with
        | s :: _ => pure (s, rest)
        | [] => throw (malformed "if-chain without an 'if' clause")
      match lines with
      | [] => finish [] []
      | ln :: rest =>
          if ln.indent ≠ indent then finish [] lines
          else
            match ln.item with
            | .header (.ifTest test) inline =>
                if clauses.isEmpty then do
                  let (body, rest') ← suite n ln inline indent rest
                  ifChain n indent rest' (clauses.push (test, body, ln.loc))
                else finish [] lines
            | .header (.elifTest test) inline =>
                if !clauses.isEmpty then do
                  let (body, rest') ← suite n ln inline indent rest
                  ifChain n indent rest' (clauses.push (test, body, ln.loc))
                else finish [] lines
            | .header .elseClause inline =>
                if !clauses.isEmpty then do
                  let (orelse, rest') ← suite n ln inline indent rest
                  finish orelse rest'
                else finish [] lines
            | _ => finish [] lines
end

end

/-- Reads a whole file: its logical lines, each line's item, then the blocks. -/
def readModule (source file : String) : Except Error Module := do
  let lines ← splitLogicalLines source file
  let read ← lines.mapM (readLine file)
  let (body, _) ← block file (8 * read.length + 8) 0 read #[]
  pure ⟨body⟩

/-- Parses source text into a module; errors carry the text they point into. -/
def parseModule (source file : String) : Except Error Module :=
  (readModule source file).mapError (·.withSource source)

/-- Parses text that must hold exactly one statement. -/
def parseStatement (source file : String) : Except Error Stmt := do
  let m ← parseModule source file
  match m.body with
  | [s] => pure s
  | body => throw (.plain .parseError
      (file ++ ": expected a single statement, found " ++ toString body.length))

/-- Parses text that must hold exactly one expression. -/
def parseExpr (source file : String) : Except Error Expr := do
  let s ← parseStatement source file
  match s with
  | .mk (.expr e) _ => pure e
  | other => throw (.plain .parseError
      (file ++ ": expected an expression, found a " ++ other.typeName ++ " statement"))

end Espalier.Syntax
