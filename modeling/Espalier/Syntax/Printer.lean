import Espalier.Syntax.Tree

/-!
# Printing trees as source text

`unparseStmts` writes statements one per line, four blanks per level of nesting; an empty
body is written `pass`, an `else` branch that holds a single `if` is written as `elif`, and
markers are transparent. `unparseExpr` parenthesizes by precedence alone: a subexpression
is wrapped when it binds looser than its position requires, the right operand of a binary
operator requiring one level more than the operator itself.

Precedence levels, loosest first: `lambda` and conditional expressions 0, `or` 1, `and` 2,
`not` 3, comparisons 4, additive 5, multiplicative 6, other prefix operators and negative
integer literals 7, calls, attributes and subscripts 8, everything else 9.
-/

namespace Espalier

/-- The text of a string literal: double quotes, with the quote, the backslash, the line
feed, the tab, the carriage return and the null character escaped. -/
def quoteChars : List Char → List Char
  | [] => []
  | c :: cs =>
      let rest := quoteChars cs
      if c = '"' then '\\' :: '"' :: rest
      else if c = '\\' then '\\' :: '\\' :: rest
      else if c = '\n' then '\\' :: 'n' :: rest
      else if c = '\t' then '\\' :: 't' :: rest
      else if c = '\r' then '\\' :: 'r' :: rest
      else if c = '\x00' then '\\' :: '0' :: rest
      else c :: rest

/-- A string as a double-quoted literal. -/
def quote (s : String) : String := String.ofList ('"' :: quoteChars s.toList ++ ['"'])

/-- The text of a literal scalar. -/
def Constant.print : Constant → String
  | .none => "None"
  | .bool true => "True"
  | .bool false => "False"
  | .int n => toString n
  | .str s => quote s

namespace Expr

/-- How tightly an expression binds, as printing sees it. -/
def prec : Expr → Nat
  | .mk k _ =>
    match k with
    | .lambda .. | .ifExp .. => 0
    | .binOp op .. => op.precedence
    | .unaryOp .not _ => 3
    | .unaryOp .. => 7
    | .const (.int n) => if n < 0 then 7 else 9
    | .call .. | .attribute .. | .subscript .. => 8
    | .done inner => inner.prec
    | _ => 9

mutual
/-- The text of an expression in a position that requires precedence `min`. -/
def print (min : Nat) : Expr → String
  | e@(.mk k _) =>
    let body := match k with
      | .name id => id
      | .const c => c.print
      | .binOp op l r => print op.precedence l ++ " " ++ op.symbol ++ " " ++ print (op.precedence + 1) r
      | .unaryOp op e => op.symbol ++ print (if op = .not then 3 else 7) e
      | .call f args => print 8 f ++ "(" ++ printList args ++ ")"
      | .attribute v a => print 8 v ++ "." ++ a
      | .subscript v i => print 8 v ++ "[" ++ print 0 i ++ "]"
      | .list items => "[" ++ printList items ++ "]"
      | .tuple items => "(" ++ printList items ++ (if items.length = 1 then "," else "") ++ ")"
      | .lambda ps b =>
          (if ps.isEmpty then "lambda: " else "lambda " ++ ", ".intercalate ps ++ ": ") ++ print 0 b
      | .ifExp t b o => print 1 b ++ " if " ++ print 1 t ++ " else " ++ print 0 o
      | .done inner => print min inner
    if e.prec < min then "(" ++ body ++ ")" else body

/-- Expressions separated by commas, each at the loosest precedence. -/
def printList : List Expr → String
  | [] => ""
  | [e] => print 0 e
  | e :: es => print 0 e ++ ", " ++ printList es
end

end Expr

/-- The source text of an expression. -/
def unparseExpr (e : Expr) : String := e.print 0

/-- The blanks of a nesting depth. -/
def indentText (depth : Nat) : String := String.ofList (List.replicate (4 * depth) ' ')

/-- One line of output at a depth. -/
def lineAt (depth : Nat) (text : String) : String := indentText depth ++ text

/-- The text of an import alias. -/
def Alias.print (a : Alias) : String :=
  match a.asname with
  | some n => a.name ++ " as " ++ n
  | none => a.name

mutual
/-- The lines of one statement at a depth; a marker contributes its statements' lines. -/
def Stmt.lines (depth : Nat) : Stmt → List String
  | .mk k _ =>
    match k with
    | .expr v => [lineAt depth (unparseExpr v)]
    | .assign t v => [lineAt depth (unparseExpr t ++ " = " ++ unparseExpr v)]
    | .importModule m a =>
        [lineAt depth ("import " ++ m ++ match a with | some n => " as " ++ n | none => "")]
    | .importFrom m lvl ns =>
        [lineAt depth ("from " ++ String.ofList (List.replicate lvl '.') ++ m.getD "" ++ " import " ++
          ", ".intercalate (ns.map Alias.print))]
    | .withBlock i a b =>
        lineAt depth ("with " ++ unparseExpr i ++ (match a with | some n => " as " ++ n | none => "") ++ ":")
          :: Stmt.block (depth + 1) b
    | .functionDef n ps b ds =>
        Stmt.decoratorLines depth ds ++
          lineAt depth ("def " ++ n ++ "(" ++ ", ".intercalate ps ++ "):") :: Stmt.block (depth + 1) b
    | .classDef n b ds =>
        Stmt.decoratorLines depth ds ++ lineAt depth ("class " ++ n ++ ":") :: Stmt.block (depth + 1) b
    | .ret (some v) => [lineAt depth ("return " ++ unparseExpr v)]
    | .ret none => [lineAt depth "return"]
    | .ifElse t b o =>
        lineAt depth ("if " ++ unparseExpr t ++ ":") :: (Stmt.block (depth + 1) b ++ Stmt.orelse depth o)
    | .whileLoop t b => lineAt depth ("while " ++ unparseExpr t ++ ":") :: Stmt.block (depth + 1) b
    | .forLoop x i b =>
        lineAt depth ("for " ++ x ++ " in " ++ unparseExpr i ++ ":") :: Stmt.block (depth + 1) b
    | .assertion t (some m) => [lineAt depth ("assert " ++ unparseExpr t ++ ", " ++ unparseExpr m)]
    | .assertion t none => [lineAt depth ("assert " ++ unparseExpr t)]
    | .pass => [lineAt depth "pass"]
    | .breakLoop => [lineAt depth "break"]
    | .continueLoop => [lineAt depth "continue"]
    | .done ss => Stmt.seqLines depth ss

/-- The lines of statements in sequence. -/
def Stmt.seqLines (depth : Nat) : List Stmt → List String
  | [] => []
  | s :: ss => s.lines depth ++ Stmt.seqLines depth ss

/-- The lines of a body: `pass` when its statements write nothing. -/
def Stmt.block (depth : Nat) (ss : List Stmt) : List String :=
  match Stmt.seqLines depth ss with
  | [] => [lineAt depth "pass"]
  | ls => ls

/-- The lines of an `else` branch: nothing, an `elif` for a single `if`, or `else:`. -/
def Stmt.orelse (depth : Nat) : List Stmt → List String
  | [] => []
  | [.mk (.ifElse t b o) _] =>
      lineAt depth ("elif " ++ unparseExpr t ++ ":") :: (Stmt.block (depth + 1) b ++ Stmt.orelse depth o)
  | ss => lineAt depth "else:" :: Stmt.block (depth + 1) ss

/-- The decorator lines of a definition. -/
def Stmt.decoratorLines (depth : Nat) : List Expr → List String
  | [] => []
  | d :: ds => lineAt depth ("@" ++ unparseExpr d) :: Stmt.decoratorLines depth ds
end

/-- The source text of a statement list: each line ends with a line break. -/
def unparseStmts (ss : List Stmt) : String :=
  String.join ((Stmt.block 0 ss).map (· ++ "\n"))

/-- The source text of a module. -/
def unparseModule (m : Module) : String := unparseStmts m.body

/-- The source text of a macro tree. -/
def Tree.print : Tree → String
  | .expr e => unparseExpr e
  | .stmts ss => unparseStmts ss

end Espalier
