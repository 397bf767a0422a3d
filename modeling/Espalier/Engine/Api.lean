import Espalier.Engine.Core

/-!
# Compiling and running, from outside

The operations a host uses: create a blank module, compile a source and run it in a
module, expand a source, import a module, evaluate an expression in a module, and look at
what a module holds. Each hides the fuel of the engine behind a bound far beyond any
nesting a program reaches.
-/

namespace Espalier

/-- The fuel every entry point starts with. -/
def engineFuel : Nat := 1000000

/-- Where `run` executes code. -/
inductive Target where
  /-- A fresh module with a generated name. -/
  | fresh
  /-- A registered module, by dotted name. -/
  | named (name : String)

/-- What a module holds, as a host shows it. -/
structure ModuleView where
  name : String
  package : String
  doc : Option String
  /-- The public variables with the `repr` of their values, by name. -/
  vars : List (String × String)

/-- A value as a host shows it: its `repr`, its `str` and its type's name. -/
structure ValueView where
  repr : String
  str : String
  typeName : String

namespace Run

/-- Creates a blank module and registers it. A dotted name needs its package registered;
without a name one is generated, and without a file name a description stands in. -/
def createModule (dotted : Option String) (filename : Option String) : Run Nat := do
  if let some n := dotted then
    unless (dottedParts n).all isIdentifier do
      throw (.plain .typeError
        ("each component of a module name must be a valid identifier, got '" ++ n ++ "'"))
  let uuid ← gensym ""
  let file := match filename, dotted with
    | some f, _ => f
    | none, some n => "<dynamically created module '" ++ n ++ "'>"
    | none, none => "<dynamically created module " ++ uuid ++ ">"
  let name := dotted.getD ("dynamically_created_module_" ++ uuid)
  let package ← match splitLast? name with
    | some (parent, _) =>
        if (← registered? parent).isNone then
          throw (.plain .importError ("while dynamically creating module '" ++ name ++
            "': its parent package '" ++ parent ++ "' not found"))
        pure parent
    | none => pure ""
  let r ← newModule (.fresh name (some file) package)
  registerChild r
  pure r

/-- Compiles a source and runs it in the target module; the module's docstring becomes
the source's. -/
def runIn (source : Source) (target : Target) : Run Nat := do
  let r ← match target with
    | .fresh => createModule none none
    | .named n => do
        match ← registered? n with
        | some r => pure r
        | none => throw (.plain .importError ("module '" ++ n ++ "' not found in the module registry"))
  let m ← Run.module r
  let code ← compileSource engineFuel source m.filename (some m.name)
  execCode engineFuel code r
  pure r

/-- Expands the dialects and macros of a source. -/
def expand (source : Source) (filename : String) (selfName : Option String) : Run Module :=
  expandSource engineFuel source filename selfName

/-- Compiles a source ready to run. -/
def compile (source : Source) (filename : String) (selfName : Option String) : Run CodeObject :=
  compileSource engineFuel source filename selfName

/-- Imports a module by absolute name. -/
def importNamed (name : String) (reload : Bool) : Run Nat := importModule engineFuel name reload

/-- Evaluates an expression at the top level of a module. -/
def evalIn (r : Nat) (e : Expr) : Run Value := do
  let m ← Run.module r
  eval engineFuel { globals := r, filename := m.filename } none e

/-- What a module holds. -/
def viewModule (r : Nat) : Run ModuleView := do
  let m ← Run.module r
  let mut vars := []
  for n in m.publicNames do
    if let some v := getVar? m.vars n then
      vars := vars ++ [(n, ← repr v)]
  pure { name := m.name, package := m.package, doc := m.doc, vars }

/-- How a value shows. -/
def viewValue (v : Value) : Run ValueView := do
  pure { repr := ← repr v, str := ← display v, typeName := v.typeName }

/-- Forgets the dependency times and the compiled code. -/
def invalidateCaches : Run Unit := modify fun s => { s with xstats := [], codeCache := [] }

/-- Whether compiled code is kept for a file. -/
def isCodeCached (path : String) : Run Bool := do
  let s ← get
  let key := (s.files.canonicalize path).toOption.getD path
  pure (s.codeCache.lookup key).isSome

/-- The dependency time of a file. -/
def xstatsOf (path : String) : Run Nat := pathXstats engineFuel path

end Run

/-! ## Expanding a tree with chosen macros -/

/-- How a tree is expanded. -/
inductive ExpandMode where
  /-- The module pass: expansion, then markers removed and locations filled. -/
  | full
  /-- The module pass run twice, the second on the result of the first. -/
  | twice
  /-- One recursive walk of a statement list, markers kept. -/
  | module
  /-- One layer of macros: results are not expanded again. -/
  | once
  /-- Expansion to a fixpoint. -/
  | recursive
  /-- The expander's default walk, which is recursive. -/
  | visit
deriving DecidableEq

/-- The mode a word names; an unknown word is the default walk. -/
def ExpandMode.ofLabel : String → ExpandMode
  | "full" => .full
  | "twice" => .twice
  | "module" => .module
  | "once" => .once
  | "recursive" => .recursive
  | _ => .visit

/-- An expander over the given bindings, bounded by `maxDepth`. -/
def macroExpander (bindings : Bindings MacroRef) (filename : String) (maxDepth : Option Nat) :
    Expander Run MacroRef :=
  { bindings, filename, maxDepth, isNameMacro := MacroRef.isNameMacro,
    invoke := Run.invokeMacro engineFuel }

/-- Expands a tree in a mode. The module passes take their bound from the settings and
apply to statements only; on an expression they fall back to the default walk, which is
the only place `maxDepth` counts. -/
def Run.expandTree (mode : ExpandMode) (bindings : Bindings MacroRef) (filename : String)
    (maxDepth : Option Nat) (t : Tree) : Run Tree :=
  let X := macroExpander bindings filename maxDepth
  match mode, t with
  | .full, .stmts ss => do
      let m ← Run.expandMacros engineFuel ⟨ss⟩ bindings filename
      pure (.stmts m.body)
  | .twice, .stmts ss => do
      let m ← Run.expandMacros engineFuel ⟨ss⟩ bindings filename
      let m ← Run.expandMacros engineFuel m bindings filename
      pure (.stmts m.body)
  | .module, .stmts ss => .stmts <$> X.visitBody engineFuel 0 true ss
  | .once, t => X.visitTree engineFuel 0 false t
  | _, t => X.visitTree engineFuel 0 true t

/-- Emitted lines as one text: each line after a non-empty text starts with a line feed,
so empty lines written first leave no trace. -/
def joinEmitted (lines : List String) : String :=
  lines.foldl (fun acc l => if acc.isEmpty then l else acc ++ "\n" ++ l) ""

end Espalier
