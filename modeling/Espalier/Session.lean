import Espalier.Value.Show
import Espalier.Config
import Espalier.FileSystem
import Espalier.ModuleName

/-!
# Sessions

A session is everything that outlives one compilation: the settings, the store of lists,
modules and classes, the registry of loaded modules by dotted name, the importer's caches,
the files, the output written so far, and the counters for fresh names and call depth.

Compiling and running are computations in `Run`, which may fail with an `Error`; a failed
computation keeps every effect it had before failing, as later steps of a session see
them.
-/

namespace Espalier

/-- An expanded module body, checked and ready to run, with its docstring. -/
structure CodeObject where
  filename : String
  body : List Stmt
  docstring : Option String
deriving Inhabited

/-- Compiled code remembered for a file, with the dependency time it was compiled at. -/
structure CachedCode where
  mtime : Nat
  code : CodeObject
deriving Inhabited

/-- The state of a session. -/
structure Session where
  config : Config := {}
  store : Store := {}
  /-- Loaded modules by absolute dotted name. -/
  registry : List (String × Nat) := []
  /-- Compiled code by canonical file path. -/
  codeCache : List (String × CachedCode) := []
  /-- Dependency times by canonical file path. -/
  xstats : List (String × Nat) := []
  /-- The files whose dependency time is being computed. -/
  inProgress : List String := []
  files : FileSystem := {}
  /-- Every text written to the output, in order. -/
  output : Array String := #[]
  /-- Whether output is kept; otherwise it is discarded. -/
  keepOutput : Bool := true
  gensyms : Nat := 0
  callDepth : Nat := 0
deriving Inhabited

/-- A computation in a session. -/
abbrev Run := EStateM Error Session

/-- Sets a key of an association list, in place if present, else at the end. -/
def assocSet {α : Type} (xs : List (String × α)) (k : String) (v : α) : List (String × α) :=
  if xs.any (·.1 == k) then xs.map fun (k', v') => if k' == k then (k, v) else (k', v')
  else xs ++ [(k, v)]

namespace Run

/-- Fails with an error. -/
def fail {α : Type} (e : Error) : Run α := throw e

/-- The settings. -/
def config : Run Config := return (← get).config

/-- The store. -/
def store : Run Store := return (← get).store

/-- Changes the store. -/
def modifyStore (f : Store → Store) : Run Unit := modify fun s => { s with store := f s.store }

/-- Writes one text to the output. -/
def emit (text : String) : Run Unit :=
  modify fun s => if s.keepOutput then { s with output := s.output.push text } else s

/-- A name unique within the session, built from `base`. -/
def gensym (base : String) : Run String := do
  let s ← get
  let n := s.gensyms + 1
  set { s with gensyms := n }
  pure (if base.isEmpty then "gs" ++ toString n else base ++ "_gs" ++ toString n)

/-- Shows a value as `str` does. -/
def display (v : Value) : Run String := do
  let st ← store
  pure (v.display st st.fuel)

/-- Shows a value as `repr` does. -/
def repr (v : Value) : Run String := do
  let st ← store
  pure (v.repr st st.fuel)

/-- Whether a value counts as true. -/
def truthy (v : Value) : Run Bool := return v.truthy (← store)

/-- Whether two values are equal as `==` decides. -/
def eqv (a b : Value) : Run Bool := do
  let st ← store
  pure (a.eqv st st.fuel b)

/-- Reads a macro's result as a tree. -/
def toTree? (v : Value) : Run (Option Tree) := do
  let st ← store
  match v.toTree? st st.fuel with
  | .ok t => pure t
  | .error e => throw e

/-- Makes a list. -/
def newList (items : List Value) : Run Value := do
  let (st, r) := (← store).newList items.toArray
  modifyStore fun _ => st
  pure (.list r)

/-- The items of a list. -/
def listItems (r : Nat) : Run (Array Value) := return (← store).listItems r

/-- Replaces the items of a list. -/
def setListItems (r : Nat) (items : Array Value) : Run Unit := modifyStore (·.setList r items)

/-- A fresh identity for a function. -/
def freshFunctionId : Run Nat := do
  let st ← store
  modifyStore fun st => { st with functions := st.functions + 1 }
  pure st.functions

/-- The module behind a reference. -/
def module (r : Nat) : Run ModuleObject := return (← store).module r

/-- A variable of a module. -/
def moduleVar? (r : Nat) (k : String) : Run (Option Value) := return getVar? (← module r).vars k

/-- Sets a variable of a module. -/
def setModuleVar (r : Nat) (k : String) (v : Value) : Run Unit :=
  modifyStore (·.modifyModule r fun m => { m with vars := setVar m.vars k v })

/-- Sets a module's docstring. -/
def setModuleDoc (r : Nat) (doc : Option String) : Run Unit :=
  modifyStore (·.modifyModule r fun m => { m with doc })

/-- Adds a module to the store, not yet registered. -/
def newModule (m : ModuleObject) : Run Nat := do
  let (st, r) := (← store).newModule m
  modifyStore fun _ => st
  pure r

/-- An attribute of a class. -/
def classAttr? (r : Nat) (k : String) : Run (Option Value) := return getVar? ((← store).classObj r).attrs k

/-- Sets an attribute of a class. -/
def setClassAttr (r : Nat) (k : String) (v : Value) : Run Unit :=
  modifyStore (·.modifyClass r fun c => { c with attrs := setVar c.attrs k v })

/-- Adds a class. -/
def newClass (c : ClassObject) : Run Nat := do
  let (st, r) := (← store).newClass c
  modifyStore fun _ => st
  pure r

/-- The registered module of a dotted name. -/
def registered? (name : String) : Run (Option Nat) := return (← get).registry.lookup name

/-- Registers a module under its name, replacing one registered before. -/
def register (r : Nat) : Run Unit := do
  let m ← module r
  modify fun s => { s with registry := assocSet s.registry m.name r }

/-- Removes a module from the registry. -/
def unregister (name : String) : Run Unit :=
  modify fun s => { s with registry := s.registry.filter (·.1 != name) }

/-- The registered module names, sorted. -/
def registryNames : Run (List String) :=
  return ((← get).registry.map (·.1)).mergeSort fun a b => decide (a ≤ b)

/-- Binds a module as an attribute of its registered parent package. -/
def attachToParent (r : Nat) : Run Unit := do
  let m ← module r
  match splitLast? m.name with
  | some (parent, child) =>
      match ← registered? parent with
      | some p => setModuleVar p child (.module r)
      | none => pure ()
  | none => pure ()

/-- Registers a module and binds it in its parent. -/
def registerChild (r : Nat) : Run Unit := do
  register r
  attachToParent r

/-- Registers empty namespace modules for a dotted name and each of its packages that is
not registered yet, and returns the module of the whole name. -/
def ensureNamespace (name : String) : Run Nat := do
  let parts := dottedParts name
  let mut current : Option Nat := none
  let mut pre := ""
  for part in parts do
    pre := if pre.isEmpty then part else pre ++ "." ++ part
    match ← registered? pre with
    | some r => current := some r
    | none =>
        let r ← newModule (.namespacePackage pre)
        registerChild r
        current := some r
  match current with
  | some r => pure r
  | none => newModule (.namespacePackage name)

end Run

end Espalier
