/-!
# Syntax trees

A program is a list of statements; every statement and expression node is a *kind* (what
was written) paired with an optional *location* (where it was written). Locations are
optional on purpose: macros build fresh nodes without them, and expansion fills the holes
from the invocation site afterwards.

Two marker forms, `ExprKind.done` and `StmtKind.done`, wrap subtrees that expansion must
not revisit; they never come out of the reader and are stripped before a tree runs.

A `Tree` is what a macro consumes and produces: one expression, or a statement list.
-/

namespace Espalier

/-- A source location: a 1-based line and a 0-based column. -/
structure Loc where
  line : Nat
  col : Nat
deriving DecidableEq, Repr, Inhabited

/-- Literal scalars. Integers are those of a signed 64-bit word. -/
inductive Constant where
  | none
  | bool (b : Bool)
  | int (n : Int)
  | str (s : String)
deriving DecidableEq, Repr, Inhabited

/-- Binary operators, including the short-circuit `and` and `or`. -/
inductive BinOp where
  | add | sub | mul | div | floorDiv | mod
  | eq | notEq | lt | ltE | gt | gtE
  | and | or
deriving DecidableEq, Repr, Inhabited

/-- Prefix operators: negation, unary plus and logical `not`. -/
inductive UnaryOp where
  | neg | pos | not
deriving DecidableEq, Repr, Inhabited

namespace BinOp

/-- The surface spelling of an operator. -/
def symbol : BinOp → String
  | .add => "+" | .sub => "-" | .mul => "*" | .div => "/" | .floorDiv => "//" | .mod => "%"
  | .eq => "==" | .notEq => "!=" | .lt => "<" | .ltE => "<=" | .gt => ">" | .gtE => ">="
  | .and => "and" | .or => "or"

/-- Reads an operator back from its spelling. -/
def ofSymbol? : String → Option BinOp
  | "+" => some .add | "-" => some .sub | "*" => some .mul | "/" => some .div
  | "//" => some .floorDiv | "%" => some .mod
  | "==" => some .eq | "!=" => some .notEq | "<" => some .lt | "<=" => some .ltE
  | ">" => some .gt | ">=" => some .gtE
  | "and" => some .and | "or" => some .or
  | _ => none

/-- Binding strength: higher binds tighter. Comparisons share one level, below the
arithmetic ones and above `not`. -/
def precedence : BinOp → Nat
  | .or => 1
  | .and => 2
  | .eq | .notEq | .lt | .ltE | .gt | .gtE => 4
  | .add | .sub => 5
  | .mul | .div | .floorDiv | .mod => 6

/-- The constructor name used when trees are written as data. -/
def tag : BinOp → String
  | .add => "Add" | .sub => "Sub" | .mul => "Mul" | .div => "Div" | .floorDiv => "FloorDiv"
  | .mod => "Mod" | .eq => "Eq" | .notEq => "NotEq" | .lt => "Lt" | .ltE => "LtE"
  | .gt => "Gt" | .gtE => "GtE" | .and => "And" | .or => "Or"

/-- Every operator, in declaration order. -/
def all : List BinOp :=
  [.add, .sub, .mul, .div, .floorDiv, .mod, .eq, .notEq, .lt, .ltE, .gt, .gtE, .and, .or]

theorem ofSymbol_symbol (op : BinOp) : ofSymbol? op.symbol = some op := by
  cases op <;> rfl

end BinOp

namespace UnaryOp

/-- The surface spelling of a prefix operator; `not` carries its separating blank. -/
def symbol : UnaryOp → String
  | .neg => "-" | .pos => "+" | .not => "not "

/-- The constructor name used when trees are written as data. -/
def tag : UnaryOp → String
  | .neg => "Neg" | .pos => "Pos" | .not => "Not"

end UnaryOp

mutual
/-- An expression node: its kind and, when known, where it was written. -/
inductive Expr where
  | mk (kind : ExprKind) (loc : Option Loc)

/-- What an expression node is. -/
inductive ExprKind where
  | name (id : String)
  | const (c : Constant)
  | binOp (op : BinOp) (left right : Expr)
  | unaryOp (op : UnaryOp) (operand : Expr)
  | call (func : Expr) (args : List Expr)
  | attribute (value : Expr) (attr : String)
  | subscript (value index : Expr)
  | list (items : List Expr)
  | tuple (items : List Expr)
  | lambda (params : List String) (body : Expr)
  | ifExp (test body orelse : Expr)
  | done (inner : Expr)
end

deriving instance Repr for Expr
deriving instance Repr for ExprKind

/-- One name of a `from ... import` list, with its optional `as` name. -/
structure Alias where
  name : String
  asname : Option String := none
deriving DecidableEq, Repr, Inhabited

/-- The name an import binds: the `as` name when there is one. -/
def Alias.boundName (a : Alias) : String := a.asname.getD a.name

mutual
/-- A statement node: its kind and, when known, where it was written. -/
inductive Stmt where
  | mk (kind : StmtKind) (loc : Option Loc)

/-- What a statement node is. -/
inductive StmtKind where
  | expr (value : Expr)
  | assign (target value : Expr)
  | importModule (module : String) (asname : Option String)
  | importFrom (module : Option String) (level : Nat) (names : List Alias)
  | withBlock (item : Expr) (asName : Option String) (body : List Stmt)
  | functionDef (name : String) (params : List String) (body : List Stmt) (decorators : List Expr)
  | classDef (name : String) (body : List Stmt) (decorators : List Expr)
  | ret (value : Option Expr)
  | ifElse (test : Expr) (body orelse : List Stmt)
  | whileLoop (test : Expr) (body : List Stmt)
  | forLoop (target : String) (iter : Expr) (body : List Stmt)
  | assertion (test : Expr) (msg : Option Expr)
  | pass
  | breakLoop
  | continueLoop
  | done (stmts : List Stmt)
end

deriving instance Repr for Stmt
deriving instance Repr for StmtKind

/-- A parsed file: its top-level statements. -/
structure Module where
  body : List Stmt
deriving Repr

/-- What a macro consumes and produces: one expression or a statement list. -/
inductive Tree where
  | expr (e : Expr)
  | stmts (ss : List Stmt)
deriving Repr

instance : Inhabited Expr := ⟨.mk (.const .none) none⟩
instance : Inhabited Stmt := ⟨.mk .pass none⟩

/-! ## Structural equality

Trees are compared node by node, locations included. -/

mutual
/-- Node-by-node equality of expressions, locations included. -/
def Expr.beq : Expr → Expr → Bool
  | .mk k l, .mk k' l' => ExprKind.beq k k' && l == l'

/-- Node-by-node equality of expression kinds. -/
def ExprKind.beq : ExprKind → ExprKind → Bool
  | .name a, .name b => a == b
  | .const a, .const b => a == b
  | .binOp o l r, .binOp o' l' r' => o == o' && Expr.beq l l' && Expr.beq r r'
  | .unaryOp o e, .unaryOp o' e' => o == o' && Expr.beq e e'
  | .call f as, .call f' as' => Expr.beq f f' && Expr.beqList as as'
  | .attribute v a, .attribute v' a' => Expr.beq v v' && a == a'
  | .subscript v i, .subscript v' i' => Expr.beq v v' && Expr.beq i i'
  | .list as, .list as' => Expr.beqList as as'
  | .tuple as, .tuple as' => Expr.beqList as as'
  | .lambda ps b, .lambda ps' b' => ps == ps' && Expr.beq b b'
  | .ifExp t b o, .ifExp t' b' o' => Expr.beq t t' && Expr.beq b b' && Expr.beq o o'
  | .done e, .done e' => Expr.beq e e'
  | _, _ => false

/-- Pointwise equality of expression lists. -/
def Expr.beqList : List Expr → List Expr → Bool
  | [], [] => true
  | e :: es, e' :: es' => Expr.beq e e' && Expr.beqList es es'
  | _, _ => false
end

instance : BEq Expr := ⟨Expr.beq⟩

/-- Equality of optional expressions. -/
def Expr.beqOpt : Option Expr → Option Expr → Bool
  | none, none => true
  | some a, some b => Expr.beq a b
  | _, _ => false

mutual
/-- Node-by-node equality of statements, locations included. -/
def Stmt.beq : Stmt → Stmt → Bool
  | .mk k l, .mk k' l' => StmtKind.beq k k' && l == l'

/-- Node-by-node equality of statement kinds. -/
def StmtKind.beq : StmtKind → StmtKind → Bool
  | .expr e, .expr e' => Expr.beq e e'
  | .assign t v, .assign t' v' => Expr.beq t t' && Expr.beq v v'
  | .importModule m a, .importModule m' a' => m == m' && a == a'
  | .importFrom m l ns, .importFrom m' l' ns' => m == m' && l == l' && ns == ns'
  | .withBlock i a b, .withBlock i' a' b' => Expr.beq i i' && a == a' && Stmt.beqList b b'
  | .functionDef n ps b ds, .functionDef n' ps' b' ds' =>
      n == n' && ps == ps' && Stmt.beqList b b' && Expr.beqList ds ds'
  | .classDef n b ds, .classDef n' b' ds' => n == n' && Stmt.beqList b b' && Expr.beqList ds ds'
  | .ret v, .ret v' => Expr.beqOpt v v'
  | .ifElse t b o, .ifElse t' b' o' => Expr.beq t t' && Stmt.beqList b b' && Stmt.beqList o o'
  | .whileLoop t b, .whileLoop t' b' => Expr.beq t t' && Stmt.beqList b b'
  | .forLoop x i b, .forLoop x' i' b' => x == x' && Expr.beq i i' && Stmt.beqList b b'
  | .assertion t m, .assertion t' m' => Expr.beq t t' && Expr.beqOpt m m'
  | .pass, .pass => true
  | .breakLoop, .breakLoop => true
  | .continueLoop, .continueLoop => true
  | .done ss, .done ss' => Stmt.beqList ss ss'
  | _, _ => false

/-- Pointwise equality of statement lists. -/
def Stmt.beqList : List Stmt → List Stmt → Bool
  | [], [] => true
  | s :: ss, s' :: ss' => Stmt.beq s s' && Stmt.beqList ss ss'
  | _, _ => false
end

instance : BEq Stmt := ⟨Stmt.beq⟩

/-- Equality of macro trees: same shape, equal nodes. -/
def Tree.beq : Tree → Tree → Bool
  | .expr a, .expr b => Expr.beq a b
  | .stmts a, .stmts b => Stmt.beqList a b
  | _, _ => false

instance : BEq Tree := ⟨Tree.beq⟩

/-! ## Accessors -/

namespace Expr

/-- The node's kind. -/
def kind : Expr → ExprKind
  | .mk k _ => k

/-- The node's location, if any. -/
def loc : Expr → Option Loc
  | .mk _ l => l

/-- A node without a location, as macros build them. -/
def bare (k : ExprKind) : Expr := .mk k none

/-- The identifier of a bare `name` node. -/
def asName? : Expr → Option String
  | .mk (.name id) _ => some id
  | _ => none

/-- The constructor name of the node's kind, as diagnostics and tree accessors report it. -/
def typeName : Expr → String
  | .mk k _ => match k with
    | .name _ => "Name" | .const _ => "Constant" | .binOp .. => "BinOp"
    | .unaryOp .. => "UnaryOp" | .call .. => "Call" | .attribute .. => "Attribute"
    | .subscript .. => "Subscript" | .list _ => "List" | .tuple _ => "Tuple"
    | .lambda .. => "Lambda" | .ifExp .. => "IfExp" | .done _ => "Done"

/-- A marker around `e` that keeps its location. -/
def markDone (e : Expr) : Expr := .mk (.done e) e.loc

end Expr

namespace Stmt

/-- The node's kind. -/
def kind : Stmt → StmtKind
  | .mk k _ => k

/-- The node's location, if any. -/
def loc : Stmt → Option Loc
  | .mk _ l => l

/-- A node without a location, as macros build them. -/
def bare (k : StmtKind) : Stmt := .mk k none

/-- The constructor name of the node's kind, as diagnostics and tree accessors report it. -/
def typeName : Stmt → String
  | .mk k _ => match k with
    | .expr _ => "Expr" | .assign .. => "Assign" | .importModule .. => "Import"
    | .importFrom .. => "ImportFrom" | .withBlock .. => "With" | .functionDef .. => "FunctionDef"
    | .classDef .. => "ClassDef" | .ret _ => "Return" | .ifElse .. => "If"
    | .whileLoop .. => "While" | .forLoop .. => "For" | .assertion .. => "Assert"
    | .pass => "Pass" | .breakLoop => "Break" | .continueLoop => "Continue" | .done _ => "Done"

/-- A marker around a statement list, located at its first statement. -/
def markDone (ss : List Stmt) : Stmt := .mk (.done ss) (ss.head?.bind Stmt.loc)

end Stmt

/-- The module docstring: a leading statement that is a bare string literal. -/
def Module.docstring : Module → Option String
  | ⟨.mk (.expr (.mk (.const (.str doc)) _)) _ :: _⟩ => some doc
  | _ => none

namespace Tree

/-- Statement view: an expression becomes an expression statement at its location. -/
def toStmts : Tree → List Stmt
  | .stmts ss => ss
  | .expr e => [.mk (.expr e) e.loc]

/-- Expression view: an expression, or a lone expression statement's value. -/
def toExpr? : Tree → Option Expr
  | .expr e => some e
  | .stmts [.mk (.expr e) _] => some e
  | .stmts _ => none

end Tree

end Espalier
