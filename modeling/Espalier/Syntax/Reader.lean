import Espalier.Syntax.Grammar
import Espalier.Syntax.LogicalLine

/-!
# Reading source text

`parseModule` turns source text into a `Module` with a location on every node, in three
passes: the text is split into logical lines, each line is matched by the grammar and read
into a *line item* (simple statements, a decorator, or a compound header with its inline
body), and the block structure is rebuilt from the indentation of the items.

Reading a line follows the match forest. Operator chains fold to the left, and every node
built from one rule's match carries the location where that match starts. A list of
expressions is a tuple when it has a comma; one expression without a comma is itself.
-/

namespace Espalier.Syntax

open Peg

/-- A node of the line grammar's match forest. -/
abbrev Node := Pair Rule

/-- An error of the engine's own invariants: the grammar produced a shape the reader does
not know. -/
def malformed (what : String) : Error := .plain .internalError what

/-- The largest value of a signed 64-bit word. -/
def wordMax : Int := 9223372036854775807

/-- The smallest value of a signed 64-bit word. -/
def wordMin : Int := -9223372036854775808

/-- Resolves the escapes of a string body: the usual one-letter escapes, an escaped quote
or backslash, and an escaped line break, which vanishes; any other escape keeps its
backslash, and so does a backslash at the very end. -/
def unescapeBody : List Char → List Char
  | [] => []
  | '\\' :: c :: rest =>
      let tail := unescapeBody rest
      match c with
      | 'n' => '\n' :: tail
      | 't' => '\t' :: tail
      | 'r' => '\r' :: tail
      | '0' => '\x00' :: tail
      | '\\' => '\\' :: tail
      | '\'' => '\'' :: tail
      | '"' => '"' :: tail
      | '\n' => tail
      | other => '\\' :: other :: tail
  | c :: rest => c :: unescapeBody rest

/-- The value of a string literal: quotes stripped (three when the literal opens with a
triple quote, else one) and escapes resolved. -/
def unescapeString (raw : List Char) : String :=
  let width :=
    if raw.take 3 = ['"', '"', '"'] ∨ raw.take 3 = ['\'', '\'', '\''] then 3 else 1
  let body := if 2 * width ≤ raw.length then (raw.drop width).take (raw.length - 2 * width)
    else []
  String.ofList (unescapeBody body)

/-- The value of a run of decimal digits. -/
def digitsValue (cs : List Char) : Nat :=
  cs.foldl (fun n c => 10 * n + (c.toNat - '0'.toNat)) 0

/-- The header of a compound statement, as one logical line gives it. -/
inductive Header where
  | defn (name : String) (params : List String)
  | classDef (name : String)
  | withItem (item : Expr) (asName : Option String)
  | ifTest (test : Expr)
  | elifTest (test : Expr)
  | elseClause
  | whileTest (test : Expr)
  | forEach (target : String) (iter : Expr)

/-- What one logical line holds. -/
inductive LineItem where
  | simple (stmts : List Stmt)
  | decorator (e : Expr)
  | header (h : Header) (inline : List Stmt)

/-- A logical line after reading: where it starts, its indentation and its item. -/
structure ReadLine where
  loc : Loc
  indent : Nat
  item : LineItem

/-- Reading the nodes of one logical line of file `file`. -/
structure LineReader where
  line : LogicalLine
  file : String

namespace LineReader

variable (lr : LineReader)

/-- The location where a node's match starts. -/
def locOf (p : Node) : Option Loc := some (lr.line.locAt p.start)

/-- The children of a node, keywords left out. -/
def significant (p : Node) : List Node := p.children.filter (fun c => !c.rule.isKeyword)

/-- The matched text of a node. -/
def textOf (p : Node) : String := String.ofList p.text

/-- The first significant child. -/
def firstInner (p : Node) : Except Error Node :=
  match significant p with
  | c :: _ => .ok c
  | [] => .error (malformed ("grammar rule " ++ p.rule.name ++ " has no children"))

/-- A list of identifiers, such as parameters. -/
def names (p : Node) : List String := p.children.map textOf

/-- Folds operands and operators, left to right, into binary operations located at `loc`. -/
def foldOps (loc : Option Loc) (acc : Expr) : List (BinOp × Expr) → Expr
  | [] => acc
  | (op, e) :: rest => foldOps loc (.mk (.binOp op acc e) loc) rest

mutual
/-- Reads an expression node; `fuel` bounds the depth of the forest. -/
def expr : Nat → Node → Except Error Expr
  | 0, _ => .error (malformed "expression nesting too deep")
  | n + 1, p => do
    let loc := lr.locOf p
    match p.rule with
    | .expr | .parenExpr => expr n (← firstInner p)
    | .postfixExpr =>
        match p.children with
        | [only] => expr n only
        | first :: trailers => do
            let mut acc ← expr n first
            for tr in trailers do
              match tr.rule with
              | .callArgs => acc := .mk (.call acc (← exprs n tr.children)) loc
              | .index => acc := .mk (.subscript acc (← exprList n (← firstInner tr))) loc
              | .attr => acc := .mk (.attribute acc (textOf (← firstInner tr))) loc
              | other => throw (malformed ("unexpected trailer " ++ other.name))
            pure acc
        | [] => .error (malformed "empty postfix expression")
    | .exprList => exprList n p
    | .lambdaExpr => do
        let mut params := []
        let mut body := none
        for part in significant p do
          if part.rule = .paramList then params := names part
          else body := some (← expr n part)
        match body with
        | some b => pure (.mk (.lambda params b) loc)
        | none => throw (malformed "lambda without a body")
    | .ternary =>
        match significant p with
        | [b, test, orelse] => do
            let body ← expr n b
            let test ← expr n test
            let orelse ← expr n orelse
            pure (.mk (.ifExp test body orelse) loc)
        | b :: _ => expr n b
        | [] => throw (malformed "missing expression")
    | .orExpr | .andExpr => do
        let op := if p.rule = .orExpr then BinOp.or else BinOp.and
        match significant p with
        | first :: rest => do
            let acc ← expr n first
            let operands ← exprs n rest
            pure (foldOps loc acc (operands.map (op, ·)))
        | [] => throw (malformed "missing expression")
    | .notExpr =>
        match p.children with
        | first :: rest =>
            if first.rule = .kwNot then
              match rest with
              | operand :: _ => do pure (.mk (.unaryOp .not (← expr n operand)) loc)
              | [] => throw (malformed "missing expression")
            else expr n first
        | [] => throw (malformed "empty not-expression")
    | .comparison | .arith | .term =>
        match p.children with
        | first :: rest => do
            let acc ← expr n first
            let pairs ← chain n rest
            pure (foldOps loc acc pairs)
        | [] => throw (malformed "missing expression")
    | .factor =>
        match p.children with
        | first :: rest =>
            if first.rule = .unaryOp then
              let op := if first.text = ['-'] then UnaryOp.neg else UnaryOp.pos
              match rest with
              | operand :: _ => do pure (.mk (.unaryOp op (← expr n operand)) loc)
              | [] => throw (malformed "missing expression")
            else expr n first
        | [] => throw (malformed "empty factor")
    | .tupleDisplay => do pure (.mk (.tuple (← exprs n p.children)) loc)
    | .listDisplay => do pure (.mk (.list (← exprs n p.children)) loc)
    | .number =>
        let v := digitsValue p.text
        if (v : Int) ≤ wordMax then pure (.mk (.const (.int v)) loc)
        else throw (.atLoc .parseError lr.file loc "integer literal out of range")
    | .string => pure (.mk (.const (.str (unescapeString p.text))) loc)
    | .trueLit => pure (.mk (.const (.bool true)) loc)
    | .falseLit => pure (.mk (.const (.bool false)) loc)
    | .noneLit => pure (.mk (.const .none) loc)
    | .identifier => pure (.mk (.name (textOf p)) loc)
    | other => throw (malformed ("unexpected expression rule " ++ other.name))

/-- Reads a list of expression nodes in order. -/
def exprs : Nat → List Node → Except Error (List Expr)
  | _, [] => pure []
  | 0, _ :: _ => .error (malformed "expression nesting too deep")
  | n + 1, p :: ps => do
      let e ← expr n p
      let es ← exprs (n + 1) ps
      pure (e :: es)

/-- Reads alternating operators and operands. -/
def chain : Nat → List Node → Except Error (List (BinOp × Expr))
  | _, [] => pure []
  | 0, _ :: _ => .error (malformed "expression nesting too deep")
  | n + 1, opNode :: rest =>
      match BinOp.ofSymbol? (textOf opNode), rest with
      | none, _ => .error (.atLoc .parseError lr.file (lr.locOf opNode) "unknown operator")
      | some op, operand :: more => do
          let e ← expr n operand
          let tail ← chain (n + 1) more
          pure ((op, e) :: tail)
      | some _, [] => .error (malformed "missing expression")

/-- Reads a comma-separated list: its single expression, or a tuple when there is a comma. -/
def exprList : Nat → Node → Except Error Expr
  | 0, _ => .error (malformed "expression nesting too deep")
  | n + 1, p => do
      let items ← exprs n p.children
      let trailingComma := (Text.trimEnd p.text).getLast? = some ','
      match items with
      | [single] => if trailingComma then pure (.mk (.tuple items) (lr.locOf p)) else pure single
      | _ => pure (.mk (.tuple items) (lr.locOf p))
end

/-- The fuel that reading a line's forest needs: more than its depth can be. -/
def fuel : Nat := 16 * (lr.line.text.length + 4)

/-- Reads the node of an assignment target: a name, an attribute or a subscript. -/
def target (p : Node) : Except Error Expr := do
  let e ← expr lr lr.fuel p
  match e.kind with
  | .name _ | .attribute .. | .subscript .. => pure e
  | _ => throw (.atLoc .parseError lr.file e.loc ("cannot assign to " ++ e.typeName))

/-- Reads a `from ... import ...` statement. -/
def importFrom (p : Node) : StmtKind := Id.run do
  let mut module := none
  let mut level := 0
  let mut aliases := #[]
  for part in significant p do
    if part.rule = .importSource then
      for piece in part.children do
        if piece.rule = .relativeDots then level := piece.text.length
        else module := some (textOf piece)
    else if part.rule = .importNames then
      for a in part.children do
        match significant a with
        | n :: rest => aliases := aliases.push ⟨textOf n, rest.head?.map textOf⟩
        | [] => pure ()
  return .importFrom module level aliases.toList

/-- Reads one simple statement. -/
def simpleStmt (p : Node) : Except Error Stmt := do
  let loc := lr.locOf p
  let kind ← match p.rule with
    | .importFrom => pure (importFrom p)
    | .importStmt =>
        match significant p with
        | m :: rest => pure (.importModule (textOf m) (rest.head?.map textOf))
        | [] => pure (.importModule "" none)
    | .returnStmt =>
        match significant p with
        | v :: _ => do pure (.ret (some (← exprList lr lr.fuel v)))
        | [] => pure (.ret none)
    | .passStmt => pure .pass
    | .breakStmt => pure .breakLoop
    | .continueStmt => pure .continueLoop
    | .assertStmt =>
        match significant p with
        | test :: rest => do
            let t ← expr lr lr.fuel test
            match rest with
            | m :: _ => pure (.assertion t (some (← expr lr lr.fuel m)))
            | [] => pure (.assertion t none)
        | [] => throw (malformed "missing expression")
    | .assignStmt =>
        match p.children with
        | t :: _ :: v :: _ => do
            let tgt ← target lr t
            pure (.assign tgt (← exprList lr lr.fuel v))
        | _ => throw (malformed "assignment without a value")
    | .augAssignStmt =>
        match p.children with
        | t :: o :: v :: _ => do
            let tgt ← target lr t
            let sym := String.ofList (o.text.reverse.dropWhile (· = '=')).reverse
            match BinOp.ofSymbol? sym with
            | some op => do
                let value ← expr lr lr.fuel v
                pure (.assign tgt (.mk (.binOp op tgt value) tgt.loc))
            | none => throw (malformed ("unknown operator " ++ textOf o))
        | _ => throw (malformed "augmented assignment without a value")
    | .exprStmt => do pure (.expr (← exprList lr lr.fuel (← firstInner p)))
    | other => throw (malformed ("unexpected statement rule " ++ other.name))
  pure (.mk kind loc)

/-- Reads a run of simple statements. -/
def simpleStmts (p : Node) : Except Error (List Stmt) := p.children.mapM (simpleStmt lr)

/-- Reads a compound header and its inline body; the inline body is read first. -/
def header (p : Node) : Except Error (Header × List Stmt) := do
  let parts := significant p
  let (parts, inline) ← match parts.getLast? with
    | some last =>
        if last.rule = .simpleStmts then do pure (parts.dropLast, ← simpleStmts lr last)
        else pure (parts, [])
    | none => pure (parts, [])
  let e := fun (q : Node) => expr lr lr.fuel q
  let missing : Error := malformed "missing expression"
  let h ← match p.rule, parts with
    | .defHeader, nm :: rest => pure (.defn (textOf nm) ((rest.head?.map names).getD []))
    | .classHeader, nm :: _ => pure (.classDef (textOf nm))
    | .withHeader, item :: rest => do pure (.withItem (← e item) (rest.head?.map textOf))
    | .ifHeader, test :: _ => do pure (.ifTest (← e test))
    | .elifHeader, test :: _ => do pure (.elifTest (← e test))
    | .elseHeader, _ => pure .elseClause
    | .whileHeader, test :: _ => do pure (.whileTest (← e test))
    | .forHeader, tgt :: iter :: _ => do pure (.forEach (textOf tgt) (← e iter))
    | .defHeader, [] | .classHeader, [] | .forHeader, _ => throw (malformed "missing identifier")
    | .withHeader, [] | .ifHeader, [] | .elifHeader, [] | .whileHeader, [] => throw missing
    | other, _ => throw (malformed ("unexpected header rule " ++ other.name))
  pure (h, inline)

end LineReader

/-- Reads one logical line of file `file`. -/
def readLine (file : String) (ln : LogicalLine) : Except Error ReadLine := do
  let lr : LineReader := ⟨ln, file⟩
  match grammar.parse .line ln.text.toList with
  | .error f =>
      let loc := ln.locAt f.pos
      throw (.atLoc .parseError file (some loc)
        ("invalid syntax at column " ++ toString loc.col ++ ": " ++ f.message Rule.name))
  | .ok nodes =>
      let lineNode ← match nodes with
        | l :: _ => pure l
        | [] => throw (malformed "grammar produced no line")
      let item ← match lineNode.children.find? (fun c => c.rule ≠ .eoi) with
        | some i => pure i
        | none => throw (malformed "grammar produced an empty line")
      let read ← match item.rule with
        | .decorator => do pure (LineItem.decorator (← lr.expr lr.fuel (← LineReader.firstInner item)))
        | .simpleStmts => do pure (.simple (← lr.simpleStmts item))
        | _ => do
            let (h, inline) ← lr.header item
            pure (.header h inline)
      pure ⟨ln.start, ln.indent, read⟩

end Espalier.Syntax
