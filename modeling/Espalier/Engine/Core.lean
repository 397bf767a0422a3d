import Espalier.Engine.Macro
import Espalier.Builtins
import Espalier.Import.Deps
import Espalier.Phase

/-!
# The engine

Compiling and running, which call each other: running an import loads a module, loading
compiles its file, compiling runs the dialects and macros the file imports, and those are
functions of the program. One fuel argument bounds the nesting of the whole computation.

**Compiling** a source: the dialect source hooks rewrite the text, it is parsed, the
dialect tree hooks rewrite the module, the macro-imports are bound and rewritten to plain
imports, the macros are expanded, and the dialect post-hooks run. A module with phase
blocks compiles and runs its phases highest first, each as a temporary module
`__phase<k>__.<name>`, then compiles phase 0.

**Running** a module body: statements in order; a function call runs the body in a
frame of locals that starts from the variables the function captured. Names are looked up
in the locals, then the module, then the builtins.
-/

namespace Espalier

/-- The local variables of a function or class body; code at module level has none and
binds in the module. -/
abbrev Frame := Option (List (String × Value))

/-- How a statement finished. -/
inductive Flow where
  | normal
  | ret (v : Value)
  | brk
  | cont
deriving Inhabited

/-- The keyword of a flow that left its body. -/
def Flow.keyword : Flow → String
  | .normal => "statement"
  | .ret _ => "'return'"
  | .brk => "'break'"
  | .cont => "'continue'"

/-- Where code runs: its module, and the file name used in its messages. -/
structure Scope where
  globals : Nat
  filename : String

/-- What a compilation starts from. -/
inductive Source where
  | text (s : String)
  | bytes (bs : List UInt8)
  | module (m : Module)
  | stmts (ss : List Stmt)

/-- The location given to nodes that reach the final check without one. -/
def fallbackLoc : Loc := ⟨9999, 0⟩

/-- The most iterations a loop runs. -/
def loopBound : Nat := 4294967296

/-- The error for computation nested beyond its fuel. -/
def engineFuelError : Error := .plain .evalError "computation nests too deeply"

/-- Fills the locations still missing and checks that the module is ready to run. -/
def toCode (m : Module) (filename : String) : Except Error CodeObject := do
  let body := Stmt.fillLocsList (some fallbackLoc) m.body
  if let some node := (Stmt.missingLocsList body).head? then
    throw (.plain .internalError (filename ++ ": compile: " ++ node ++ " node has no location"))
  checkNoMarkers ⟨body⟩ filename
  pure { filename, body, docstring := Module.docstring ⟨body⟩ }

/-- Whether an import is `from __self__ import ...`. -/
def Stmt.isSelfImport : Stmt → Bool
  | .mk (.importFrom (some m) 0 _) _ => m == selfModule
  | _ => false

/-- A list position counted from the end when negative. -/
def normalizeIndex (i : Int) (len : Nat) : Option Nat :=
  let j := if i < 0 then i + len else i
  if 0 ≤ j ∧ j < len then some j.toNat else none

namespace Run

/-- Adds a location to the errors of a computation. -/
def locating {α : Type} (x : Run α) (file : String) (loc : Option Loc) : Run α :=
  tryCatch x fun e => throw (e.located file loc)

/-- Replaces the errors of a computation. -/
def mapError {α : Type} (x : Run α) (f : Error → Error) : Run α :=
  tryCatch x fun e => throw (f e)

/-- Binds a name in the frame, or in the module at module level. -/
def bindName (sc : Scope) (fr : Frame) (name : String) (v : Value) : Run Frame :=
  match fr with
  | some locals => pure (some (assocSet locals name v))
  | none => do
      setModuleVar sc.globals name v
      pure none

/-- Looks a name up in the locals, the module, then the builtins. -/
def lookup (sc : Scope) (fr : Frame) (name : String) (loc : Option Loc) : Run Value := do
  if let some locals := fr then
    if let some v := locals.lookup name then return v
  if let some v ← moduleVar? sc.globals name then return v
  match Builtin.lookup? name with
  | some b => pure (.builtin b)
  | none => throw (.atLoc .evalError sc.filename loc ("name '" ++ name ++ "' is not defined"))

/-- The items a `for` loop goes through. -/
def iterate (sc : Scope) (v : Value) (loc : Option Loc) : Run (List Value) :=
  match v with
  | .list r => return (← listItems r).toList
  | .tuple vs => pure vs
  | .str s => pure (s.toList.map fun c => .str c.toString)
  | _ => throw (.atLoc .typeError sc.filename loc ("'" ++ v.typeName ++ "' object is not iterable"))

/-- `object[index]`. -/
def subscriptValue (sc : Scope) (o i : Value) (loc : Option Loc) : Run Value := do
  let outOfRange : Error := .atLoc .evalError sc.filename loc (o.typeName ++ " index out of range")
  match o, i.asInt? with
  | .list r, some n =>
      let items ← listItems r
      match normalizeIndex n items.size with
      | some k => pure (items.getD k .none)
      | none => throw outOfRange
  | .tuple vs, some n =>
      match normalizeIndex n vs.length with
      | some k => pure (vs.getD k .none)
      | none => throw outOfRange
  | .str s, some n =>
      match normalizeIndex n s.length with
      | some k => pure (.str (s.toList.getD k ' ').toString)
      | none => throw outOfRange
  | _, _ => throw (.atLoc .typeError sc.filename loc
      ("'" ++ o.typeName ++ "' object is not subscriptable with " ++ i.typeName))

/-- Builds an engine module: `trellis`, `trellis.ast` or `trellis.debug`. -/
def engineModule? (name : String) : Option ModuleObject :=
  let fns : Option (List Builtin) :=
    if name = "trellis" then some [.dialect, .gensym]
    else if name = "trellis.ast" then some [.assignNode, .attributeNode, .binOpNode, .callNode,
      .constantNode, .exprNode, .listNode, .nameNode, .returnNode, .subscriptNode, .tupleNode,
      .field, .kind, .parse, .parseExpr, .splice, .statements, .unparse, .value]
    else if name = "trellis.debug" then some [.missingLocations]
    else none
  fns.map fun bs =>
    let package := match splitLast? name with
      | some (p, _) => p
      | none => name
    let m := ModuleObject.fresh name none package
    let vars := bs.foldl (fun vs b => setVar vs b.name (.builtin b)) m.vars
    let vars := if name = "trellis.debug" then
        setVar (setVar vars "step_expansion" (.engineMacro .stepExpansion)) "show_bindings"
          (.engineMacro .showBindings)
      else vars
    { m with vars }

/-- The macro a module attribute stands for, if any. -/
def asMacro? : Value → Option MacroRef
  | .engineMacro m => some (.engine m)
  | .function c => some (.script c)
  | _ => none

/-- The error of a dialect hook, wrapped with the dialect's name. -/
def hookError (d : DialectSpec Value) (filename : String) (e : Error) : Error :=
  (Error.plain .evalError (filename ++ ": in dialect '" ++ d.name ++ "': " ++ e.message)).causedBy e

/-- Runs `body`, then undoes the call-depth increase, also when `body` fails. -/
def withCallDepth {α : Type} (name : String) (body : Run α) : Run α := do
  let s ← get
  let depth := s.callDepth + 1
  if depth > s.config.maxCallDepth then
    throw (.plain .evalError ("maximum call depth " ++ toString s.config.maxCallDepth ++
      " exceeded in '" ++ name ++ "'"))
  set { s with callDepth := depth }
  let leave : Run Unit := modify fun s => { s with callDepth := s.callDepth - 1 }
  tryCatch (do let r ← body; leave; pure r) fun e => do leave; throw e

/-! ## The dialect passes, round by round -/

/-- What the source pass does with one dialect-import line, given how to instantiate the
dialects an import names and how to apply a dialect's source hook: the line is parsed and,
unless it imports dialects of the module's next phase, which only the tree pass handles, the
source hooks of its dialects rewrite the text in turn. -/
def dialectLineRound (inst : Stmt → Run (List (DialectSpec Value)))
    (hook : DialectSpec Value → String → Run String) (filename line text : String) :
    Run String := do
  let stmt ← liftExcept (Syntax.parseStatement line filename)
  if stmt.isSelfImport then return text
  let dialects ← inst stmt
  dialects.foldlM (fun text d => hook d text) text

/-- The source pass for at most `n` more rounds, with the lines of `seen` handled: each round
hands the first dialect-import line of the text not handled yet, with the text, to `round`,
and the text it gives is scanned again from the top. The pass ends when every dialect-import
line of the text has been handled. -/
def sourceRounds (round : String → String → Run String) :
    Nat → String → List String → Run String
  | 0, text, _ => pure text
  | n + 1, text, seen =>
    match (dialectLines text).find? (!seen.contains ·) with
    | none => pure text
    | some line => do
      let text ← round line text
      sourceRounds round n text (line :: seen)

/-- What the tree pass does with the dialect-import at position `i` of a module, given how to
resolve an import, how to instantiate the dialects it names and how to apply a dialect's tree
hook: the import is replaced in place by a plain import of the module it names, at its own
location, and then the tree hooks of its dialects rewrite the module in turn. The dialects
are given back with the module. -/
def dialectImportRound (resolve : Stmt → Run ImportTarget)
    (inst : Stmt → Run (List (DialectSpec Value))) (hook : DialectSpec Value → Module → Run Module)
    (i : Nat) (m : Module) : Run (Module × List (DialectSpec Value)) := do
  let stmt := m.body.getD i default
  let target ← resolve stmt
  let dialects ← inst stmt
  let m ← dialects.foldlM (fun m d => hook d m)
    ⟨m.body.set i (.mk (.importModule target.module none) stmt.loc)⟩
  pure (m, dialects)

/-- The tree pass for at most `n` more rounds: each round hands the position of the first
top-level dialect-import to `round`. The pass ends when none is left, and gives the dialects
in the order they were applied. -/
def astRounds (round : Nat → Module → Run (Module × List (DialectSpec Value))) :
    Nat → Module → List (DialectSpec Value) → Run (Module × List (DialectSpec Value))
  | 0, m, applied => pure (m, applied)
  | n + 1, m, applied =>
    match m.body.findIdx? (Stmt.isMagicImport dialectsMagic) with
    | none => pure (m, applied)
    | some i => do
      let (m, dialects) ← round i m
      astRounds round n m (applied ++ dialects)

mutual

/-- Runs a statement list until a statement leaves it. -/
def execBody : Nat → Scope → Frame → List Stmt → Run (Flow × Frame)
  | 0, _, _, _ => throw engineFuelError
  | f + 1, sc, fr, body => do
    let mut fr := fr
    for s in body do
      let (flow, fr') ← execStmt f sc fr s
      fr := fr'
      match flow with
      | .normal => pure ()
      | _ => return (flow, fr)
    pure (.normal, fr)

/-- Runs one statement. -/
def execStmt : Nat → Scope → Frame → Stmt → Run (Flow × Frame)
  | 0, _, _, _ => throw engineFuelError
  | f + 1, sc, fr, .mk k loc => do
    match k with
    | .expr v =>
        let _ ← eval f sc fr v
        pure (.normal, fr)
    | .assign t v =>
        let value ← eval f sc fr v
        return (.normal, ← assign f sc fr t value)
    | .importModule m asname =>
        let r ← locating (importModule f m false) sc.filename loc
        match asname with
        | some a => return (.normal, ← bindName sc fr a (.module r))
        | none =>
            let top := (dottedParts m).headD m
            let tr ← importModule f top false
            return (.normal, ← bindName sc fr top (.module tr))
    | .importFrom module level names =>
        let package := (← Run.module sc.globals).package
        let absolute ← match resolveName level module package with
          | .ok n => pure n
          | .error e => throw (e.located sc.filename loc)
        let src ← locating (importModule f absolute false) sc.filename loc
        let mut fr := fr
        for a in names do
          let value ← match ← moduleVar? src a.name with
            | some v => pure v
            | none =>
                let sub := absolute ++ "." ++ a.name
                tryCatch (Value.module <$> importModule f sub false) fun _ =>
                  throw (.atLoc .importError sc.filename loc
                    ("cannot import name '" ++ a.name ++ "' from '" ++ absolute ++ "'"))
          fr ← bindName sc fr a.boundName value
        pure (.normal, fr)
    | .withBlock .. => throw (.atLoc .evalError sc.filename loc
        "'with' is only valid as a block macro invocation or a phase marker")
    | .functionDef name params body decorators =>
        let id ← freshFunctionId
        let c : Closure Value :=
          { id, name, params, body, globals := sc.globals, env := fr.getD [] }
        let value ← decorate f sc fr (.function c) decorators loc
        return (.normal, ← bindName sc fr name value)
    | .classDef name body decorators =>
        let (_, inner) ← execBody f sc (some []) body
        let r ← newClass { name, attrs := inner.getD [] }
        let value ← decorate f sc fr (.classNs r) decorators loc
        return (.normal, ← bindName sc fr name value)
    | .ret v =>
        let value ← match v with
          | some e => eval f sc fr e
          | none => pure .none
        pure (.ret value, fr)
    | .ifElse t b o =>
        if ← truthy (← eval f sc fr t) then execBody f sc fr b else execBody f sc fr o
    | .whileLoop t b =>
        let mut fr := fr
        for _ in [0:loopBound] do
          unless ← truthy (← eval f sc fr t) do break
          let (flow, fr') ← execBody f sc fr b
          fr := fr'
          match flow with
          | .brk => break
          | .ret v => return (.ret v, fr)
          | _ => pure ()
        pure (.normal, fr)
    | .forLoop x iter b =>
        let items ← iterate sc (← eval f sc fr iter) iter.loc
        let mut fr := fr
        for item in items do
          fr ← bindName sc fr x item
          let (flow, fr') ← execBody f sc fr b
          fr := fr'
          match flow with
          | .brk => break
          | .ret v => return (.ret v, fr)
          | _ => pure ()
        pure (.normal, fr)
    | .assertion t m =>
        unless ← truthy (← eval f sc fr t) do
          let detail ← match m with
            | some msg => do pure ("assertion failed: " ++ (← display (← eval f sc fr msg)))
            | none => pure "assertion failed"
          throw (.atLoc .evalError sc.filename loc detail)
        pure (.normal, fr)
    | .pass => pure (.normal, fr)
    | .breakLoop => pure (.brk, fr)
    | .continueLoop => pure (.cont, fr)
    | .done ss => execBody f sc fr ss

/-- Applies run-time decorators, the one nearest the definition first. -/
def decorate : Nat → Scope → Frame → Value → List Expr → Option Loc → Run Value
  | 0, _, _, _, _, _ => throw engineFuelError
  | f + 1, sc, fr, value, decorators, loc => do
    let mut value := value
    for d in decorators.reverse do
      let callee ← eval f sc fr d
      value ← locating (callValue f callee [value]) sc.filename loc
    pure value

/-- Assigns to a name, an attribute or a list item. -/
def assign : Nat → Scope → Frame → Expr → Value → Run Frame
  | 0, _, _, _, _ => throw engineFuelError
  | f + 1, sc, fr, target@(.mk k loc), value => do
    match k with
    | .name n => bindName sc fr n value
    | .attribute o a =>
        match ← eval f sc fr o with
        | .module r => setModuleVar r a value; pure fr
        | .classNs r => setClassAttr r a value; pure fr
        | other => throw (.atLoc .typeError sc.filename loc
            ("cannot set attribute '" ++ a ++ "' on " ++ other.typeName))
    | .subscript o i =>
        let obj ← eval f sc fr o
        let idx ← eval f sc fr i
        match obj, idx.asInt? with
        | .list r, some n =>
            let items ← listItems r
            match normalizeIndex n items.size with
            | some slot => setListItems r (items.set! slot value); pure fr
            | none => throw (.atLoc .evalError sc.filename loc "list assignment index out of range")
        | _, _ => throw (.atLoc .typeError sc.filename loc
            ("'" ++ obj.typeName ++ "' does not support item assignment"))
    | _ => throw (.atLoc .evalError sc.filename loc ("cannot assign to " ++ target.typeName))

/-- Evaluates an expression. -/
def eval : Nat → Scope → Frame → Expr → Run Value
  | 0, _, _, _ => throw engineFuelError
  | f + 1, sc, fr, .mk k loc => do
    match k with
    | .name n => lookup sc fr n loc
    | .const c => pure (.ofConstant c)
    | .binOp .and l r =>
        let lv ← eval f sc fr l
        if ← truthy lv then eval f sc fr r else pure lv
    | .binOp .or l r =>
        let lv ← eval f sc fr l
        if ← truthy lv then pure lv else eval f sc fr r
    | .binOp op l r =>
        let lv ← eval f sc fr l
        let rv ← eval f sc fr r
        locating (binary op lv rv) sc.filename loc
    | .unaryOp op a =>
        let v ← eval f sc fr a
        match op with
        | .not => return .bool !(← truthy v)
        | .neg =>
            match v.asInt? with
            | some n => match checkedInt? (-n) with
                | some m => pure (.int m)
                | none => throw (.atLoc .evalError sc.filename loc "integer overflow")
            | none => throw (.atLoc .typeError sc.filename loc
                ("bad operand type for unary -: '" ++ v.typeName ++ "'"))
        | .pos =>
            match v.asInt? with
            | some n => pure (.int n)
            | none => throw (.atLoc .typeError sc.filename loc
                ("bad operand type for unary +: '" ++ v.typeName ++ "'"))
    | .call fn args =>
        let callee ← eval f sc fr fn
        let argVals ← args.mapM (eval f sc fr)
        locating (callValue f callee argVals) sc.filename loc
    | .attribute v a =>
        let obj ← eval f sc fr v
        let found ← match obj with
          | .module r => moduleVar? r a
          | .classNs r => classAttr? r a
          | _ => pure none
        match found with
        | some x => pure x
        | none =>
            let what ← match obj with
              | .module r => do pure ("module '" ++ (← Run.module r).name ++ "'")
              | _ => pure obj.typeName
            throw (.atLoc .evalError sc.filename loc
              ("'" ++ what ++ "' object has no attribute '" ++ a ++ "'"))
    | .subscript v i =>
        let obj ← eval f sc fr v
        let idx ← eval f sc fr i
        subscriptValue sc obj idx loc
    | .list items => newList (← items.mapM (eval f sc fr))
    | .tuple items => return .tuple (← items.mapM (eval f sc fr))
    | .lambda ps body =>
        let id ← freshFunctionId
        let ret : Stmt := .mk (.ret (some body)) loc
        let c : Closure Value :=
          { id, name := "<lambda>", params := ps, body := [ret], globals := sc.globals, env := fr.getD [] }
        pure (.function c)
    | .ifExp t b o =>
        if ← truthy (← eval f sc fr t) then eval f sc fr b else eval f sc fr o
    | .done inner => eval f sc fr inner

/-- Calls a value with evaluated arguments. -/
def callValue : Nat → Value → List Value → Run Value
  | 0, _, _ => throw engineFuelError
  | f + 1, callee, args =>
    match callee with
    | .function c => callFunction f c args
    | .builtin b => callBuiltin b args
    | .engineMacro m => throw (.plain .typeError
        ("macro '" ++ m.name ++ "' can only be invoked at expansion time"))
    | other => throw (.plain .typeError ("'" ++ other.typeName ++ "' object is not callable"))

/-- Calls a function of the program. -/
def callFunction : Nat → Closure Value → List Value → Run Value
  | 0, _, _ => throw engineFuelError
  | f + 1, c, args => do
    if args.length ≠ c.params.length then
      throw (arityError c.name c.params.length args.length)
    withCallDepth c.name do
      let locals := (c.params.zip args).foldl (fun l (p, a) => assocSet l p a) c.env
      let sc : Scope := { globals := c.globals, filename := (← Run.module c.globals).filename }
      let (flow, _) ← execBody f sc (some locals) c.body
      match flow with
      | .ret v => pure v
      | .normal => pure .none
      | other => throw (.plain .evalError (other.keyword ++ " outside loop in '" ++ c.name ++ "'"))

/-- Runs compiled code at the top level of a module, replacing its docstring. -/
def execCode : Nat → CodeObject → Nat → Run Unit
  | 0, _, _ => throw engineFuelError
  | f + 1, code, r => do
    setModuleDoc r code.docstring
    let m ← Run.module r
    let sc : Scope := { globals := r, filename := m.filename }
    let (flow, _) ← execBody f sc none code.body
    match flow with
    | .normal => pure ()
    | other => throw (.plain .evalError (m.filename ++ ": " ++ other.keyword ++ " outside function"))

/-- Imports a module by absolute name, its packages first. A registered module is
returned as it is, unless `reload` asks for a file-backed one to be run again. -/
def importModule : Nat → String → Bool → Run Nat
  | 0, _, _ => throw engineFuelError
  | f + 1, name, reload => do
    if let some r ← registered? name then
      if !reload || (← Run.module r).file.isNone || isEngineModule name then return r
    if let some (parent, _) := splitLast? name then
      let _ ← importModule f parent false
      if !reload then
        if let some r ← registered? name then return r
    if let some m := engineModule? name then
      let r ← newModule m
      registerChild r
      return r
    if let some path ← findModule name then
      let r ← loadModule f name path
      attachToParent r
      return r
    if (← findNamespaceDir name).isSome then
      let r ← newModule (.namespacePackage name)
      registerChild r
      return r
    throw (.plain .importError ("no module named '" ++ name ++ "'"))

/-- Compiles and runs the file at `path` as module `name`; a module whose code fails is
unregistered again. -/
def loadModule : Nat → String → String → Run Nat
  | 0, _, _ => throw engineFuelError
  | f + 1, name, path => do
    let isPackage := fileStem? path = some "__init__"
    let package := if isPackage then name else parentName name
    let code ← getCode f name path
    let r ← newModule (.fresh name (some path) package)
    register r
    tryCatch (execCode f code r) fun e => do
      unregister name
      throw e
    pure r

/-- The compiled code of a file, reused while its dependency time is unchanged. -/
def getCode : Nat → String → String → Run CodeObject
  | 0, _, _ => throw engineFuelError
  | f + 1, name, path => do
    let key := ((← get).files.canonicalize path).toOption.getD path
    let mtime ← pathXstats (f + 1) path
    if let some cached := (← get).codeCache.lookup key then
      if cached.mtime = mtime then return cached.code
    let bytes ← match (← get).files.readBytes path with
      | .ok bs => pure bs
      | .error e => throw (.plain .ioError ("cannot read " ++ path ++ ": " ++ e))
    let code ← compileSource f (.bytes bytes) path (some name)
    modify fun s => { s with codeCache := assocSet s.codeCache key ⟨mtime, code⟩ }
    pure code

/-- Expands and checks a source, ready to run. -/
def compileSource : Nat → Source → String → Option String → Run CodeObject
  | 0, _, _, _ => throw engineFuelError
  | f + 1, source, filename, selfName => do
    let m ← expandSource f source filename selfName
    liftExcept (toCode m filename)

/-- Expands the dialects and macros of a source. -/
def expandSource : Nat → Source → String → Option String → Run Module
  | 0, _, _, _ => throw engineFuelError
  | f + 1, source, filename, selfName => do
    let m ← match source with
      | .text t => parseTransformed f t filename selfName
      | .bytes bs =>
          match Text.decodeUtf8 bs with
          | .ok t => parseTransformed f t filename selfName
          | .error flaw => throw (.plain .importError
              (filename ++ ": source is not valid UTF-8: " ++ flaw.describe))
      | .module m => pure m
      | .stmts ss => pure ⟨ss⟩
    liftExcept (validatePhaseMarkers filename m.body)
    if !m.isMultiphase then return ← singlephaseExpand f m filename none
    match selfName with
    | none => throw (.plain .internalError
        (filename ++ ": the module name must be given when compiling a multi-phase module"))
    | some self => multiphaseExpand f m filename self

/-- Applies the dialect source hooks, then parses. -/
def parseTransformed : Nat → String → String → Option String → Run Module
  | 0, _, _, _ => throw engineFuelError
  | f + 1, text, filename, selfName => do
    let text ← transformSource f text filename selfName
    match Syntax.parseModule text filename with
    | .ok m => pure m
    | .error e => throw ((Error.plain .importError
        ("Failed to parse " ++ filename ++ " after applying all dialect source transformers")).causedBy e)

/-- Applies the source hooks of every dialect-import line, rescanning the text from the
top after each line until every line has been seen. -/
def transformSource : Nat → String → String → Option String → Run String
  | 0, _, _, _ => throw engineFuelError
  | f + 1, text, filename, selfName =>
    sourceRounds (dialectLineRound (fun stmt => instantiate f stmt filename selfName)
      (fun d text => applySourceHook f d text filename) filename) loopBound text []

/-- The dialects an import names, importing their module. -/
def instantiate : Nat → Stmt → String → Option String → Run (List (DialectSpec Value))
  | 0, _, _, _ => throw engineFuelError
  | f + 1, stmt, filename, selfName => do
    let target ← resolveImport stmt filename selfName false
    let r ← locating (importModule f target.module false) filename stmt.loc
    let mut out := []
    for a in target.names do
      match ← moduleVar? r a.name with
      | some (.dialect d) => out := out ++ [d]
      | some other => throw (.atLoc .importError filename stmt.loc
          ("'" ++ target.module ++ "." ++ a.name ++ "' is not a dialect (got " ++ other.typeName ++ ")"))
      | none => throw (.atLoc .importError filename stmt.loc
          ("module '" ++ target.module ++ "' has no dialect '" ++ a.name ++ "'"))
    pure out

/-- Applies a dialect's source hook. -/
def applySourceHook : Nat → DialectSpec Value → String → String → Run String
  | 0, _, _, _ => throw engineFuelError
  | f + 1, d, text, filename => do
    let some hook := d.source | return text
    match ← mapError (callFunction f hook [.str text]) (hookError d filename) with
    | .str t => pure t
    | other => throw (.plain .typeError (filename ++ ": source transformer of dialect '" ++ d.name ++
        "' must return a string, not " ++ other.typeName))

/-- Applies a dialect's tree hook to a module body. -/
def applyTreeHook : Nat → DialectSpec Value → Option (Closure Value) → Module → String → Run Module
  | 0, _, _, _, _ => throw engineFuelError
  | f + 1, d, hook, m, filename => do
    let some hook := hook | return m
    let result ← mapError (callFunction f hook [.tree (.stmts m.body)]) (hookError d filename)
    match ← toTree? result with
    | some t => pure ⟨t.toStmts⟩
    | none => throw (.plain .typeError (filename ++ ": dialect '" ++ d.name ++
        "' returned None instead of a module body"))

/-- Applies the tree hooks of every top-level dialect-import, each import rewritten to a
plain import first; gives the dialects in the order they were applied. Each dialect-import of
the module can take a round, and hooks that add dialect-imports get `loopBound` rounds more. -/
def transformAst : Nat → Module → String → Option String → Run (Module × List (DialectSpec Value))
  | 0, _, _, _ => throw engineFuelError
  | f + 1, m, filename, selfName =>
    astRounds (dialectImportRound (fun stmt => resolveImport stmt filename selfName false)
      (fun stmt => instantiate f stmt filename selfName) (fun d m => applyTreeHook f d d.ast m filename))
      (m.body.length + loopBound) m []

/-- Binds the macro-imports of a module and rewrites each to a plain import. -/
def findMacros : Nat → Module → String → Option String → Bool → Run (Bindings MacroRef × Module)
  | 0, _, _, _, _ => throw engineFuelError
  | f + 1, m, filename, selfName, reload => do
    let mut bindings : Bindings MacroRef := {}
    let mut body := []
    for stmt in m.body do
      if !stmt.isMagicImport macrosMagic then
        body := body ++ [stmt]
        continue
      let target ← resolveImport stmt filename selfName true
      let defs ← locating (importModule f target.module (reload && !target.isSelf)) filename stmt.loc
      for a in target.names do
        let some value ← moduleVar? defs a.name
          | throw (.atLoc .bindingError filename stmt.loc
              ("module '" ++ target.module ++ "' has no macro '" ++ a.name ++ "'"))
        let some mac := asMacro? value
          | throw (.atLoc .bindingError filename stmt.loc
              ("'" ++ target.module ++ "." ++ a.name ++ "' is not a macro"))
        bindings := bindings.insert a.boundName mac
      body := body ++ [.mk (.importModule target.module none) stmt.loc]
    pure (bindings, ⟨body⟩)

/-- Runs a macro on an invocation. -/
def invokeMacro : Nat → Invocation Run MacroRef → Run (Option Tree)
  | 0, _ => throw engineFuelError
  | f + 1, inv =>
    match inv.mac with
    | .script c => do
        let result ← mapError (callFunction f c [.tree inv.tree, .str inv.shape.label]) fun e =>
          (Error.atLoc .evalError inv.filename inv.loc
            ("in macro '" ++ c.name ++ "': " ++ e.message)).causedBy e
        toTree? result
    | .engine m => engineMacro m inv

/-- Expands the macros of a module with the given bindings. -/
def expandMacros : Nat → Module → Bindings MacroRef → String → Run Module
  | 0, _, _, _ => throw engineFuelError
  | f + 1, m, bindings, filename => do
    let X : Expander Run MacroRef :=
      { bindings, filename, maxDepth := (← config).maxExpansionDepth,
        isNameMacro := MacroRef.isNameMacro, invoke := invokeMacro f }
    X.expandModule f m

/-- Expands one phase: dialect tree hooks, macros, dialect post-hooks. -/
def singlephaseExpand : Nat → Module → String → Option String → Run Module
  | 0, _, _, _ => throw engineFuelError
  | f + 1, m, filename, selfName => do
    let (m, dialects) ← transformAst f m filename selfName
    let (bindings, m) ← findMacros f m filename selfName false
    let mut m ← expandMacros f m bindings filename
    for d in dialects do
      m ← applyTreeHook f d d.postprocess m filename
    liftExcept (checkNoMarkers m filename)
    pure m

/-- Compiles and runs the phases of a module highest first, then expands phase 0. -/
def multiphaseExpand : Nat → Module → String → String → Run Module
  | 0, _, _, _ => throw engineFuelError
  | f + 1, m, filename, self => do
    let table ← liftExcept (PhaseTable.split m filename)
    let top := table.maxPhase
    let package := parentName self
    for i in List.range top do
      let k := top - i
      let higher := if k < top then some (phaseModuleName (k + 1) self) else none
      let expanded ← singlephaseExpand f (table.moduleFor k) filename higher
      let code ← liftExcept (toCode expanded filename)
      let name := phaseModuleName k self
      if let some (parent, _) := splitLast? name then
        let _ ← ensureNamespace parent
      let r ← newModule (.fresh name (some filename) package)
      registerChild r
      execCode f code r
    let lowest := if top ≥ 1 then some (phaseModuleName 1 self) else none
    singlephaseExpand f (table.moduleFor 0) filename lowest

end

end Run

end Espalier
