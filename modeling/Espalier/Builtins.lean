import Espalier.Value.Arith
import Espalier.Syntax.Parse
import Espalier.Syntax.Walk
import Espalier.Splice

/-!
# Builtin functions

The functions every module sees (`print`, `len`, `range`, `str`, `repr`, `int`, `append`,
`namemacro`), those of the module `trellis` (`gensym`, `dialect`), the tree constructors
and accessors of `trellis.ast`, and `missing_locations` of `trellis.debug`.

Builtins check their own arguments; their errors carry no location, the call site adds it.
The tree constructors make nodes without locations. Where a tree is expected, a scalar
stands for a constant.
-/

namespace Espalier

/-- The error for a call with the wrong number of arguments. -/
def arityError (name : String) (expected given : Nat) : Error :=
  .plain .typeError (name ++ "() takes " ++ toString expected ++ " argument(s) but " ++
    toString given ++ " were given")

/-- The error for an argument of the wrong type. -/
def expectsError (fname what : String) (v : Value) : Error :=
  .plain .typeError (fname ++ "() expects " ++ what ++ ", not " ++ v.typeName)

/-- Reads a signed 64-bit integer: an optional sign, then decimal digits. -/
def parseInt? (cs : List Char) : Option Int :=
  let (neg, digits) := match cs with
    | '-' :: rest => (true, rest)
    | '+' :: rest => (false, rest)
    | _ => (false, cs)
  match decimalValue? digits with
  | some n => checkedInt? (if neg then -(n : Int) else n)
  | none => none

/-- The kind of node a tree is: an expression's or a lone statement's type, or `Stmts`. -/
def Tree.kindName : Tree → String
  | .expr e => e.typeName
  | .stmts [s] => s.typeName
  | .stmts _ => "Stmts"

namespace Run

/-- Checks the number of arguments. -/
def expectArity (name : String) (args : List Value) (n : Nat) : Run Unit :=
  if args.length = n then pure () else throw (arityError name n args.length)

/-- An expression argument: an expression tree, or a scalar as a constant. -/
def exprArg (fname : String) : Value → Run Expr
  | .tree t => match t.toExpr? with
      | some e => pure e
      | none => throw (.plain .typeError (fname ++ "() expects an expression tree, got statements"))
  | v => match v.toConstant? with
      | some c => pure (.bare (.const c))
      | none => throw (expectsError fname "a tree or a constant" v)

/-- A list or tuple of expression arguments. -/
def exprListArg (fname : String) : Value → Run (List Expr)
  | .list r => do (← listItems r).toList.mapM (exprArg fname)
  | .tuple vs => vs.mapM (exprArg fname)
  | v => throw (expectsError fname "a list" v)

/-- A string argument. -/
def strArg (fname : String) : Value → Run String
  | .str s => pure s
  | v => throw (expectsError fname "a string" v)

/-- A tree argument. -/
def treeArg (fname : String) : Value → Run Tree
  | .tree t => pure t
  | v => throw (expectsError fname "a tree" v)

/-- A dialect hook: a function or `None`. -/
def hookArg (v : Option Value) : Run (Option (Closure Value)) :=
  match v with
  | none | some .none => pure none
  | some (.function c) => pure (some c)
  | some v => throw (expectsError "dialect" "a function or None" v)

/-- An expression as a tree value. -/
def exprValue (e : Expr) : Value := .tree (.expr e)

/-- A list of expressions as a list of tree values. -/
def exprsValue (es : List Expr) : Run Value := newList (es.map exprValue)

/-- A list of names as a list of strings. -/
def namesValue (ns : List String) : Run Value := newList (ns.map Value.str)

/-- A field of an expression node. -/
def exprField (e : Expr) (f : String) : Run (Option Value) :=
  match e.kind, f with
  | .name n, "id" => pure (some (.str n))
  | .const c, "value" => pure (some (.ofConstant c))
  | .binOp _ l _, "left" => pure (some (exprValue l))
  | .binOp _ _ r, "right" => pure (some (exprValue r))
  | .binOp op _ _, "op" => pure (some (.str op.symbol))
  | .unaryOp _ a, "operand" => pure (some (exprValue a))
  | .unaryOp op _, "op" => pure (some (.str op.symbol))
  | .call fn _, "func" => pure (some (exprValue fn))
  | .call _ args, "args" => some <$> exprsValue args
  | .attribute v _, "value" => pure (some (exprValue v))
  | .attribute _ a, "attr" => pure (some (.str a))
  | .subscript v _, "value" => pure (some (exprValue v))
  | .subscript _ i, "index" => pure (some (exprValue i))
  | .list items, "elts" => some <$> exprsValue items
  | .tuple items, "elts" => some <$> exprsValue items
  | .lambda ps _, "params" => some <$> namesValue ps
  | .lambda _ b, "body" => pure (some (exprValue b))
  | .ifExp t _ _, "test" => pure (some (exprValue t))
  | .ifExp _ b _, "body" => pure (some (exprValue b))
  | .ifExp _ _ o, "orelse" => pure (some (exprValue o))
  | _, _ => pure none

/-- A field of a statement node. -/
def stmtField (s : Stmt) (f : String) : Run (Option Value) :=
  match s.kind, f with
  | .expr v, "value" => pure (some (exprValue v))
  | .assign t _, "target" => pure (some (exprValue t))
  | .assign _ v, "value" => pure (some (exprValue v))
  | .ret v, "value" => pure (some (match v with | some e => exprValue e | none => .none))
  | .functionDef n _ _ _, "name" => pure (some (.str n))
  | .classDef n _ _, "name" => pure (some (.str n))
  | .functionDef _ ps _ _, "params" => some <$> namesValue ps
  | .functionDef _ _ b _, "body" => pure (some (.tree (.stmts b)))
  | .classDef _ b _, "body" => pure (some (.tree (.stmts b)))
  | .withBlock _ _ b, "body" => pure (some (.tree (.stmts b)))
  | .ifElse _ b _, "body" => pure (some (.tree (.stmts b)))
  | .whileLoop _ b, "body" => pure (some (.tree (.stmts b)))
  | .forLoop _ _ b, "body" => pure (some (.tree (.stmts b)))
  | .withBlock i _ _, "item" => pure (some (exprValue i))
  | .ifElse t _ _, "test" => pure (some (exprValue t))
  | .whileLoop t _, "test" => pure (some (exprValue t))
  | .ifElse _ _ o, "orelse" => pure (some (.tree (.stmts o)))
  | .forLoop x _ _, "target" => pure (some (.str x))
  | .forLoop _ i _, "iter" => pure (some (exprValue i))
  | _, _ => pure none

/-- Lifts a result of pure code. -/
def liftExcept {α : Type} : Except Error α → Run α
  | .ok a => pure a
  | .error e => throw e

/-- A module body as one statement-list tree. -/
def stmtsValue (ss : List Stmt) : Value := .tree (.stmts ss)

/-- Calls a builtin with evaluated arguments. -/
def callBuiltin (b : Builtin) (args : List Value) : Run Value := do
  match b with
  | .print =>
      let texts ← args.mapM display
      emit (" ".intercalate texts)
      pure .none
  | .len =>
      expectArity "len" args 1
      match args with
      | [.str s] => pure (.int s.length)
      | [.list r] => return .int (← listItems r).size
      | [.tuple vs] => pure (.int vs.length)
      | [v] => throw (.plain .typeError ("object of type '" ++ v.typeName ++ "' has no len()"))
      | _ => pure .none
  | .range =>
      let bounds ← args.mapM fun a => match a.asInt? with
        | some n => pure n
        | none => throw (.plain .typeError ("range() expects integers, not " ++ a.typeName))
      let (start, stop) : Int × Int ← match bounds with
        | [stop] => pure (0, stop)
        | [start, stop] => pure (start, stop)
        | _ => throw (.plain .typeError ("range() takes 1 or 2 arguments but " ++
            toString args.length ++ " were given"))
      newList ((List.range (stop - start).toNat).map fun (i : Nat) => Value.int (start + (i : Int)))
  | .str =>
      expectArity "str" args 1
      return .str (← display (args.headD .none))
  | .repr =>
      expectArity "repr" args 1
      return .str (← repr (args.headD .none))
  | .int =>
      expectArity "int" args 1
      match args with
      | [v@(.str s)] =>
          match parseInt? (Text.trim s.toList) with
          | some n => pure (.int n)
          | none => throw (.plain .evalError ("invalid literal for int(): " ++ (← repr v)))
      | [v] => match v.asInt? with
          | some n => pure (.int n)
          | none => throw (.plain .typeError
              ("int() argument must be a string or a number, not '" ++ v.typeName ++ "'"))
      | _ => pure .none
  | .append =>
      expectArity "append" args 2
      match args with
      | [.list r, v] =>
          setListItems r ((← listItems r).push v)
          pure .none
      | v :: _ => throw (expectsError "append" "a list" v)
      | _ => pure .none
  | .nameMacroFn =>
      expectArity "namemacro" args 1
      match args with
      | [.function c] => return .function { c with id := ← freshFunctionId, nameMacro := true }
      | v :: _ => throw (expectsError "namemacro" "a function" v)
      | _ => pure .none
  | .gensym =>
      match args with
      | [] => return .str (← gensym "")
      | [base] => return .str (← gensym (← strArg "gensym" base))
      | _ => throw (.plain .typeError "gensym() takes at most 1 argument")
  | .dialect =>
      if args.isEmpty || args.length > 4 then
        throw (.plain .typeError ("dialect() takes 1 to 4 arguments but " ++ toString args.length ++
          " were given"))
      let name ← strArg "dialect" (args.headD .none)
      let source ← hookArg args[1]?
      let ast ← hookArg args[2]?
      let postprocess ← hookArg args[3]?
      pure (.dialect { name, source, ast, postprocess })
  | .constantNode =>
      expectArity "Constant" args 1
      let v := args.headD .none
      match v.toConstant? with
      | some c => pure (exprValue (.bare (.const c)))
      | none => throw (.plain .typeError
          ("Constant() expects None, a bool, an int or a string, not " ++ v.typeName))
  | .nameNode =>
      expectArity "Name" args 1
      return exprValue (.bare (.name (← strArg "Name" (args.headD .none))))
  | .binOpNode =>
      expectArity "BinOp" args 3
      let sym ← strArg "BinOp" (args.getD 1 .none)
      match BinOp.ofSymbol? sym with
      | none => throw (.plain .typeError ("BinOp(): unknown operator '" ++ sym ++ "'"))
      | some op =>
          let l ← exprArg "BinOp" (args.headD .none)
          let r ← exprArg "BinOp" (args.getD 2 .none)
          pure (exprValue (.bare (.binOp op l r)))
  | .callNode =>
      let (fn, callArgs) ← match args with
        | [fn] => pure (fn, [])
        | [fn, a] => do
            let xs ← exprListArg "Call" a
            pure (fn, xs)
        | _ => throw (.plain .typeError ("Call() takes 1 or 2 arguments but " ++
            toString args.length ++ " were given"))
      return exprValue (.bare (.call (← exprArg "Call" fn) callArgs))
  | .attributeNode =>
      expectArity "Attribute" args 2
      let v ← exprArg "Attribute" (args.headD .none)
      let a ← strArg "Attribute" (args.getD 1 .none)
      pure (exprValue (.bare (.attribute v a)))
  | .subscriptNode =>
      expectArity "Subscript" args 2
      let v ← exprArg "Subscript" (args.headD .none)
      let i ← exprArg "Subscript" (args.getD 1 .none)
      pure (exprValue (.bare (.subscript v i)))
  | .listNode =>
      expectArity "List" args 1
      return exprValue (.bare (.list (← exprListArg "List" (args.headD .none))))
  | .tupleNode =>
      expectArity "Tuple" args 1
      return exprValue (.bare (.tuple (← exprListArg "Tuple" (args.headD .none))))
  | .assignNode =>
      expectArity "Assign" args 2
      let target ← match args.headD .none with
        | .str n => pure (.bare (.name n))
        | v => exprArg "Assign" v
      let v ← exprArg "Assign" (args.getD 1 .none)
      pure (stmtsValue [.bare (.assign target v)])
  | .exprNode =>
      expectArity "Expr" args 1
      return stmtsValue [.bare (.expr (← exprArg "Expr" (args.headD .none)))]
  | .returnNode =>
      match args with
      | [] => pure (stmtsValue [.bare (.ret none)])
      | [v] => return stmtsValue [.bare (.ret (some (← exprArg "Return" v)))]
      | _ => throw (.plain .typeError "Return() takes at most 1 argument")
  | .kind =>
      expectArity "kind" args 1
      return .str (← treeArg "kind" (args.headD .none)).kindName
  | .value =>
      expectArity "value" args 1
      match ← treeArg "value" (args.headD .none) with
      | .expr (.mk (.const c) _) => pure (.ofConstant c)
      | .expr (.mk (.name n) _) => pure (.str n)
      | _ => throw (.plain .typeError "value() expects a Constant or Name node")
  | .field =>
      expectArity "field" args 2
      let t ← treeArg "field" (args.headD .none)
      let f ← strArg "field" (args.getD 1 .none)
      let found ← match t with
        | .expr e => exprField e f
        | .stmts [s] => stmtField s f
        | .stmts _ => pure none
      match found with
      | some v => pure v
      | none => throw (.plain .typeError ("'" ++ t.kindName ++ "' node has no field '" ++ f ++ "'"))
  | .statements =>
      expectArity "statements" args 1
      let t ← treeArg "statements" (args.headD .none)
      newList (t.toStmts.map fun s => stmtsValue [s])
  | .unparse =>
      expectArity "unparse" args 1
      match ← treeArg "unparse" (args.headD .none) with
      | .expr e => pure (.str (unparseExpr e))
      | .stmts ss => pure (.str (unparseStmts ss))
  | .parse =>
      expectArity "parse" args 1
      let src ← strArg "parse" (args.headD .none)
      let m ← liftExcept (Syntax.parseModule src "<parse>")
      pure (stmtsValue m.body)
  | .parseExpr =>
      expectArity "parse_expr" args 1
      let src ← strArg "parse_expr" (args.headD .none)
      return exprValue (← liftExcept (Syntax.parseExpr src "<parse>"))
  | .splice =>
      let (body, template, tag) ← match args with
        | [b, t] => pure (b, t, pasteTag)
        | [b, t, tag] => do
            let tg ← strArg "splice" tag
            pure (b, t, tg)
        | _ => throw (.plain .typeError ("splice() takes 2 or 3 arguments but " ++
            toString args.length ++ " were given"))
      let body := (← treeArg "splice" body).toStmts
      let template := (← treeArg "splice" template).toStmts
      return stmtsValue (← liftExcept (spliceDialect body template tag))
  | .missingLocations =>
      expectArity "missing_locations" args 1
      let names := (← treeArg "missing_locations" (args.headD .none)).missingLocs
      newList (names.map Value.str)

end Run

end Espalier
