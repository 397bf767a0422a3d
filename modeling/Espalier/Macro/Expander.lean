import Espalier.Macro.Basic
import Espalier.Syntax.Walk
import Espalier.Diagnostic

/-!
# Macro expansion

One recursive rewrite of a tree. At every node the invocation shapes are tried in turn:
an expression invocation `m[...]`, a name invocation `m`, a block invocation `with m:`
and decorator invocations `@m`. On a match the bound macro is called; the nodes of its
result without a location take the invocation's, and in *recursive* mode the result is
expanded again. Subtrees wrapped in a marker are left alone.

Nesting is bounded: a macro applied while `maxDepth` applications are already open fails
with a depth error. A name macro's result is revisited one level deeper, unless it is
the same name, which is then marked finished.

The expander is generic in the monad and in what a macro is; `invoke` runs a macro on
an `Invocation`, which also offers the expander itself, at the current depth, to the
macro. All functions take fuel, which bounds the nesting of the whole rewrite.
-/

namespace Espalier

/-- A macro call, with what the macro may use while it runs. -/
structure Invocation (M : Type → Type) (Mac : Type) where
  /-- The name the macro is bound to. -/
  name : String
  mac : Mac
  shape : Shape
  /-- The tree the macro is given. -/
  tree : Tree
  /-- The `as` name of a block invocation. -/
  asName : Option String
  /-- Where the invocation is. -/
  loc : Option Loc
  filename : String
  bindings : Bindings Mac
  /-- Whether the expander that called the macro expands results again. -/
  recursive : Bool
  /-- Expands a tree fully with the calling expander. -/
  expand : Tree → M Tree
  /-- Expands one layer of macros of a tree with the calling expander. -/
  expandOnce : Tree → M Tree

/-- What an expander works with. -/
structure Expander (M : Type → Type) (Mac : Type) where
  bindings : Bindings Mac
  filename : String
  /-- The bound on nested applications; `none` for no bound. -/
  maxDepth : Option Nat
  isNameMacro : Mac → Bool
  invoke : Invocation M Mac → M (Option Tree)

/-- The error for expansion nested beyond its fuel. -/
def expansionFuelError : Error := .plain .depthExceeded "macro expansion nests too deeply"

namespace Expander

variable {M : Type → Type} [Monad M] [MonadExceptOf Error M] {Mac : Type}
variable (X : Expander M Mac)

/-- A macro's result in an expression position. -/
def toExpr (name : String) (result : Option Tree) (loc : Option Loc) : M Expr :=
  match result with
  | none => throw (Error.atLoc .syntaxError X.filename loc
      ("macro '" ++ name ++ "' returned None in an expression position"))
  | some t => match t.toExpr? with
      | some e => pure e
      | none => throw (Error.atLoc .syntaxError X.filename loc
          ("macro '" ++ name ++ "' returned statements in an expression position"))

mutual
/-- Calls macro `name` on `tree`: checks the binding and the depth, fills the result's
missing locations from the invocation, and in recursive mode expands the result again. -/
def apply : Nat → Nat → Bool → String → Shape → Tree → Option Loc → Option String → M (Option Tree)
  | 0, _, _, _, _, _, _, _ => throw expansionFuelError
  | f + 1, depth, rec, name, shape, tree, loc, asName => do
    let some mac := X.bindings.get? name
      | throw (Error.atLoc .unboundMacro X.filename loc ("no binding for macro '" ++ name ++ "'"))
    if let some limit := X.maxDepth then
      if depth ≥ limit then
        throw ((Error.atLoc .depthExceeded X.filename loc
          ("macro expansion exceeded depth " ++ toString limit ++ " while expanding '" ++ name ++ "'")).withHelp
          "a macro that re-emits its own invocation never reaches a fixpoint")
    let inv : Invocation M Mac :=
      { name, mac, shape, tree, asName, loc, filename := X.filename, bindings := X.bindings,
        recursive := rec,
        expand := fun t => visitTree f (depth + 1) true t,
        expandOnce := fun t => visitTree f (depth + 1) false t }
    match ← X.invoke inv with
    | none => pure none
    | some t =>
        let t := t.fillLocs loc
        if rec then some <$> visitTree f (depth + 1) rec t else pure (some t)

/-- Expands a name invocation: one layer, then the result again one level deeper unless it
is the same name, which is marked finished. -/
def expandName : Nat → Nat → Bool → Expr → String → M Expr
  | 0, _, _, _, _ => throw expansionFuelError
  | f + 1, depth, rec, e, name => do
    let result ← apply f depth false name .name (.expr e) e.loc none
    let new ← X.toExpr name result e.loc
    if !rec then return new
    match new with
    | .mk (.name n) l => if n = name then return .mk (.done new) l else visitExpr f (depth + 1) rec new
    | _ => visitExpr f (depth + 1) rec new

/-- Expands the decorator macros of a definition, the one nearest the definition first;
each takes the previous result, and a deletion ends the chain. -/
def expandDecorated : Nat → Nat → Bool → Stmt → M (List Stmt)
  | 0, _, _, _ => throw expansionFuelError
  | f + 1, depth, rec, .mk k loc => do
    let (names, k') := match k with
      | .functionDef n ps b ds =>
          let (ms, others) := splitDecorators X.bindings ds
          (ms, StmtKind.functionDef n ps b others)
      | .classDef n b ds =>
          let (ms, others) := splitDecorators X.bindings ds
          (ms, StmtKind.classDef n b others)
      | other => ([], other)
    let mut current : Option Tree := some (.stmts [.mk k' loc])
    for name in names.reverse do
      match current with
      | none => break
      | some t => current ← apply f depth rec name .decorator t loc none
    pure (match current with
      | some t => t.toStmts
      | none => [])

/-- Expands the invocations in an expression. -/
def visitExpr : Nat → Nat → Bool → Expr → M Expr
  | 0, _, _, _ => throw expansionFuelError
  | f + 1, depth, rec, e@(.mk k loc) => do
    if let .done _ := k then return e
    if let some name := exprInvocation? X.bindings e then
      let index := match k with
        | .subscript _ i => i
        | _ => e
      let result ← apply f depth rec name .expr (.expr index) loc none
      return ← X.toExpr name result loc
    if let some name := nameInvocation? X.bindings X.isNameMacro e then
      return ← expandName f depth rec e name
    let k' ← match k with
      | .subscript v@(.mk (.name _) _) i => do pure (.subscript v (← visitExpr f depth rec i))
      | .name n => pure (.name n)
      | .const c => pure (.const c)
      | .binOp op a b => do
          let a' ← visitExpr f depth rec a
          pure (.binOp op a' (← visitExpr f depth rec b))
      | .unaryOp op a => do pure (.unaryOp op (← visitExpr f depth rec a))
      | .call fn args => do
          let fn' ← visitExpr f depth rec fn
          pure (.call fn' (← visitExprs f depth rec args))
      | .attribute v a => do pure (.attribute (← visitExpr f depth rec v) a)
      | .subscript v i => do
          let v' ← visitExpr f depth rec v
          pure (.subscript v' (← visitExpr f depth rec i))
      | .list items => do pure (.list (← visitExprs f depth rec items))
      | .tuple items => do pure (.tuple (← visitExprs f depth rec items))
      | .lambda ps b => do pure (.lambda ps (← visitExpr f depth rec b))
      | .ifExp t b o => do
          let t' ← visitExpr f depth rec t
          let b' ← visitExpr f depth rec b
          pure (.ifExp t' b' (← visitExpr f depth rec o))
      | .done inner => pure (.done inner)
    pure (.mk k' loc)

/-- Expands each expression of a list, in order. -/
def visitExprs : Nat → Nat → Bool → List Expr → M (List Expr)
  | 0, _, _, _ => throw expansionFuelError
  | f + 1, depth, rec, es => es.mapM (visitExpr f depth rec)

/-- Expands an optional expression. -/
def visitOpt : Nat → Nat → Bool → Option Expr → M (Option Expr)
  | 0, _, _, _ => throw expansionFuelError
  | f + 1, depth, rec, e => e.mapM (visitExpr f depth rec)

/-- Expands the invocations in a statement, which may become several statements. -/
def visitStmt : Nat → Nat → Bool → Stmt → M (List Stmt)
  | 0, _, _, _ => throw expansionFuelError
  | f + 1, depth, rec, s@(.mk k loc) => do
    if let .done _ := k then return [s]
    if let some name := blockInvocation? X.bindings s then
      let (body, asName) := match k with
        | .withBlock _ a b => (b, a)
        | _ => ([], none)
      let result ← apply f depth rec name .block (.stmts body) loc asName
      return (match result with
        | some t => t.toStmts
        | none => [])
    if !(decoratorInvocations X.bindings s).isEmpty then
      return ← expandDecorated f depth rec s
    let k' ← match k with
      | .expr v => do pure (.expr (← visitExpr f depth rec v))
      | .assign t v => do
          let t' ← visitExpr f depth rec t
          pure (.assign t' (← visitExpr f depth rec v))
      | .importModule m a => pure (.importModule m a)
      | .importFrom m l ns => pure (.importFrom m l ns)
      | .withBlock i a b => do
          let i' ← visitExpr f depth rec i
          pure (.withBlock i' a (← visitBody f depth rec b))
      | .functionDef n ps b ds => do
          let ds' ← visitExprs f depth rec ds
          pure (.functionDef n ps (← visitBody f depth rec b) ds')
      | .classDef n b ds => do
          let ds' ← visitExprs f depth rec ds
          pure (.classDef n (← visitBody f depth rec b) ds')
      | .ret v => do pure (.ret (← visitOpt f depth rec v))
      | .ifElse t b o => do
          let t' ← visitExpr f depth rec t
          let b' ← visitBody f depth rec b
          pure (.ifElse t' b' (← visitBody f depth rec o))
      | .whileLoop t b => do
          let t' ← visitExpr f depth rec t
          pure (.whileLoop t' (← visitBody f depth rec b))
      | .forLoop x i b => do
          let i' ← visitExpr f depth rec i
          pure (.forLoop x i' (← visitBody f depth rec b))
      | .assertion t m => do
          let t' ← visitExpr f depth rec t
          pure (.assertion t' (← visitOpt f depth rec m))
      | .pass => pure .pass
      | .breakLoop => pure .breakLoop
      | .continueLoop => pure .continueLoop
      | .done ss => pure (.done ss)
    pure [.mk k' loc]

/-- Expands a statement list. -/
def visitBody : Nat → Nat → Bool → List Stmt → M (List Stmt)
  | 0, _, _, _ => throw expansionFuelError
  | f + 1, depth, rec, ss => do
    let mut out : List Stmt := []
    for s in ss do
      out := out ++ (← visitStmt f depth rec s)
    pure out

/-- Expands a tree. -/
def visitTree : Nat → Nat → Bool → Tree → M Tree
  | 0, _, _, _ => throw expansionFuelError
  | f + 1, depth, rec, .expr e => .expr <$> visitExpr f depth rec e
  | f + 1, depth, rec, .stmts ss => .stmts <$> visitBody f depth rec ss
end

/-- Expands every macro of a module, removes the markers and fills the missing
locations. -/
def expandModule (fuel : Nat) (m : Module) : M Module := do
  let body ← X.visitBody fuel 0 true m.body
  pure (Module.fillLocs ⟨Stmt.stripMarkersList body⟩)

end Expander

/-- Fails when a marker is left in a module, at the first one. -/
def checkNoMarkers (m : Module) (file : String) : Except Error Unit :=
  match Stmt.markerLocsList m.body with
  | [] => .ok ()
  | first :: rest => .error (.atLoc .internalError file first
      (toString (rest.length + 1) ++ " expansion marker(s) remain after expansion"))

end Espalier
