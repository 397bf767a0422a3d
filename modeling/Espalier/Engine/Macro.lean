import Espalier.Session
import Espalier.Macro.Expander
import Espalier.Macro.Collect

/-!
# Macros of a session

A macro binding refers to a function of the program, called with the argument tree and
the shape's name, or to a macro of the engine itself.

The engine's macros are the two debugging aids `step_expansion`, which expands its
argument one layer at a time and writes each step, and `show_bindings`, a name macro that
writes the bindings in force; and a set of sample macros built from trees, one for each
kind of result a macro can give, which exercise the expander.
-/

namespace Espalier

/-- What a macro name is bound to. -/
inductive MacroRef where
  | script (c : Closure Value)
  | engine (m : EngineMacro)

/-- The sample macros that also fire on a bare name. -/
def sampleNameMacros : List String := ["answer", "it", "wrap_it", "none_name"]

/-- The names of the sample macros. -/
def sampleMacroNames : List String :=
  ["double", "twice", "answer", "it", "wrap_it", "none_name", "loop", "quad", "drop", "freeze",
   "freeze_expr", "alias", "info", "expand_inner", "once_inner", "source", "build", "gensym",
   "say", "stmts_out", "fail"]

namespace MacroRef

/-- The macro's own name. -/
def name : MacroRef → String
  | .script c => c.name
  | .engine m => m.name

/-- Whether a bare reference invokes the macro. -/
def isNameMacro : MacroRef → Bool
  | .script c => c.nameMacro
  | .engine .showBindings => true
  | .engine .stepExpansion => false
  | .engine (.sample n) => sampleNameMacros.contains n

end MacroRef

/-- The engine's macro of a name: a debugging aid or a sample. -/
def EngineMacro.ofName? (n : String) : Option EngineMacro :=
  if n = "step_expansion" then some .stepExpansion
  else if n = "show_bindings" then some .showBindings
  else if sampleMacroNames.contains n then some (.sample n)
  else none

/-- Source text indented by four blanks per line, trailing blanks removed first. -/
def indentSource (src : String) : String :=
  let text := String.ofList (Text.trimEnd src.toList)
  if text.isEmpty then ""
  else "\n".intercalate ((text.splitOn "\n").map fun l =>
    "    " ++ (if l.endsWith "\r" then (l.dropEnd 1).toString else l))

/-- The expression view of a tree, `None` for statements. -/
def Tree.exprOrNone (t : Tree) : Expr := (t.toExpr?).getD (.bare (.const .none))

namespace Run

/-- Expands a tree one layer at a time until no invocation is left, writing each step;
gives up after the depth bound's number of steps. -/
def stepExpansion (inv : Invocation Run MacroRef) : Run (Option Tree) := do
  unless inv.shape = .expr ∨ inv.shape = .block do
    throw (.atLoc .syntaxError inv.filename inv.loc "step_expansion is an expr and block macro only")
  let line := (inv.loc.map (·.line)).getD 0
  let header := "**Tree " ++ inv.filename ++ ":" ++ toString line
  emit (header ++ " before macro expansion:")
  emit (indentSource inv.tree.print)
  let limit := (← config).maxExpansionDepth
  let mut tree := inv.tree
  let mut steps := 0
  for _ in [0:limit.getD 1000000 + 1] do
    if (tree.collect inv.bindings MacroRef.isNameMacro).isEmpty then break
    if let some l := limit then
      if steps ≥ l then
        throw (.atLoc .depthExceeded inv.filename inv.loc
          ("step_expansion gave up after " ++ toString steps ++ " steps"))
    tree ← inv.expandOnce tree
    steps := steps + 1
    emit (header ++ " after step " ++ toString steps ++ ":")
    emit (indentSource tree.print)
  emit ("**Macro expansion complete after " ++ toString steps ++ " step" ++
    (if steps = 1 then "" else "s") ++ ".")
  pure (some tree)

/-- Writes the macro bindings in force and becomes `None`. -/
def showBindings (inv : Invocation Run MacroRef) : Run (Option Tree) := do
  let line := (inv.loc.map (·.line)).getD 0
  emit ("Macro bindings for " ++ inv.filename ++ ":" ++ toString line ++ ":")
  let names := inv.bindings.names
  if names.isEmpty then emit "    <no bindings>"
  for n in names do emit ("    " ++ n)
  let loc := match inv.tree with
    | .expr e => e.loc
    | .stmts _ => none
  pure (some (.expr (.mk (.const .none) loc)))

/-- The statements the sample macro `build` makes, one of each common kind. -/
def builtStatements : List Stmt :=
  let n (s : String) : Expr := .bare (.name s)
  let int (i : Int) : Expr := .bare (.const (.int i))
  [ .bare (.importModule "a.b" none),
    .bare (.importFrom (some "m") 0 [⟨"x", none⟩, ⟨"y", some "z"⟩]),
    .bare (.assign (n "v") (.bare (.list [int 1, .bare (.const (.str "s")), .bare (.const (.bool true)),
      .bare (.const .none), .bare (.unaryOp .neg (n "q"))]))),
    .bare (.functionDef "f" ["a"] [.bare (.ret (some (.bare (.binOp .add (n "a") (int 1))))),
      .bare (.ret none)] []),
    .bare (.withBlock (n "w") none [.bare .pass]),
    .bare (.expr (.bare (.tuple [.bare (.attribute (n "o") "p"), .bare (.subscript (n "s") (int 0))]))) ]

/-- Runs a sample macro. -/
def sampleMacro (name : String) (inv : Invocation Run MacroRef) : Run (Option Tree) := do
  let t := inv.tree
  let e := t.exprOrNone
  let n (s : String) : Expr := .bare (.name s)
  let str (s : String) : Expr := .bare (.const (.str s))
  match name with
  | "double" => pure (some (.expr (.bare (.binOp .mul e (.bare (.const (.int 2)))))))
  | "twice" => pure (some (.stmts (t.toStmts ++ t.toStmts)))
  | "answer" => pure (some (.expr (.bare (.const (.int 42)))))
  | "it" => pure (some t)
  | "wrap_it" => pure (some (.expr (.bare (.call (n "f") [e]))))
  | "none_name" => pure none
  | "loop" => pure (some (.expr (.bare (.subscript (n "loop") e))))
  | "quad" => pure (some (.expr (.bare (.subscript (n "double") (.bare (.subscript (n "double") e))))))
  | "drop" => pure none
  | "freeze" => pure (some (.stmts [Stmt.markDone t.toStmts]))
  | "freeze_expr" => pure (some (.expr e.markDone))
  | "alias" => pure (some (.expr (match inv.asName with
      | some a => str a
      | none => .bare (.const .none))))
  | "info" =>
      let line : Expr := match inv.loc with
        | some l => .bare (.const (.int l.line))
        | none => .bare (.const .none)
      let col : Expr := match inv.loc with
        | some l => .bare (.const (.int l.col))
        | none => .bare (.const .none)
      pure (some (.expr (.bare (.tuple [str inv.name, str inv.shape.label, str inv.filename,
        .bare (.const (.bool inv.recursive)), line, col,
        .bare (.list (inv.bindings.names.map str)), .bare (.const (.int inv.bindings.size))]))))
  | "expand_inner" =>
      match ← inv.expand t with
      | .expr x => pure (some (.expr (.bare (.call (n "f") [x]))))
      | .stmts ss => pure (some (.stmts (ss ++ [.bare .pass])))
  | "once_inner" =>
      match ← inv.expandOnce t with
      | .expr x => pure (some (.expr (.bare (.call (n "g") [x]))))
      | .stmts ss => pure (some (.stmts (.bare .pass :: ss)))
  | "source" => pure (some (.expr (str t.print)))
  | "build" => pure (some (.stmts builtStatements))
  | "gensym" => return some (.expr (n (← gensym "tmp")))
  | "say" =>
      emit ("say " ++ inv.shape.label ++ " " ++ String.ofList (Text.trimEnd t.print.toList))
      pure (some t)
  | "stmts_out" => pure (some (.stmts [.bare .pass]))
  | "fail" => throw (.atLoc .evalError inv.filename inv.loc ("macro '" ++ inv.name ++ "' failed"))
  | _ => pure (some t)

/-- Runs a macro of the engine. -/
def engineMacro (m : EngineMacro) (inv : Invocation Run MacroRef) : Run (Option Tree) :=
  match m with
  | .stepExpansion => stepExpansion inv
  | .showBindings => showBindings inv
  | .sample n => sampleMacro n inv

end Run

end Espalier
