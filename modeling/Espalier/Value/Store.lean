import Espalier.Value.Basic

/-!
# The store

What the references of values point to: the items of every list, the variables of every
module, and the attributes of every class. A reference is an index into the store, handed
out once and never reused.
-/

namespace Espalier

/-- A loaded module: its dotted name, the file it came from, the package its relative
imports resolve against, its docstring and its variables. -/
structure ModuleObject where
  name : String
  file : Option String
  package : String
  doc : Option String := none
  /-- The module's variables; a name occurs at most once. -/
  vars : List (String × Value)
deriving Inhabited

/-- Sets a name in a variable table, in place if it is there, else at the end. -/
def setVar (vars : List (String × Value)) (k : String) (v : Value) : List (String × Value) :=
  if vars.any (·.1 == k) then vars.map fun (k', v') => if k' == k then (k, v) else (k', v')
  else vars ++ [(k, v)]

/-- Looks up a name in a variable table. -/
def getVar? (vars : List (String × Value)) (k : String) : Option Value := (vars.find? (·.1 == k)).map (·.2)

namespace ModuleObject

/-- A module with only its name and package set as variables. -/
def fresh (name : String) (file : Option String) (package : String) : ModuleObject :=
  { name, file, package, vars := [("__name__", .str name), ("__package__", .str package)] }

/-- A module with no file, standing for a directory without an `__init__` file. -/
def namespacePackage (name : String) : ModuleObject := fresh name none name

/-- The name used for the module in messages: its file, or a description. -/
def filename (m : ModuleObject) : String := m.file.getD ("<module '" ++ m.name ++ "'>")

/-- The public variable names, those not starting with `__`, sorted. -/
def publicNames (m : ModuleObject) : List String :=
  ((m.vars.map (·.1)).filter (!·.startsWith "__")).mergeSort (fun a b => decide (a ≤ b))

end ModuleObject

/-- A class: its name and attributes. -/
structure ClassObject where
  name : String
  attrs : List (String × Value)
deriving Inhabited

/-- The contents behind every reference. -/
structure Store where
  lists : Array (Array Value) := #[]
  modules : Array ModuleObject := #[]
  classes : Array ClassObject := #[]
  /-- How many functions have been made, for their identities. -/
  functions : Nat := 0
deriving Inhabited

namespace Store

/-- The items of a list. -/
def listItems (st : Store) (r : Nat) : Array Value := st.lists.getD r #[]

/-- Makes a new list. -/
def newList (st : Store) (items : Array Value) : Store × Nat :=
  ({ st with lists := st.lists.push items }, st.lists.size)

/-- Replaces the items of a list. -/
def setList (st : Store) (r : Nat) (items : Array Value) : Store :=
  { st with lists := st.lists.setIfInBounds r items }

/-- The module behind a reference. -/
def module (st : Store) (r : Nat) : ModuleObject := st.modules.getD r default

/-- Adds a module. -/
def newModule (st : Store) (m : ModuleObject) : Store × Nat :=
  ({ st with modules := st.modules.push m }, st.modules.size)

/-- Changes a module. -/
def modifyModule (st : Store) (r : Nat) (f : ModuleObject → ModuleObject) : Store :=
  { st with modules := st.modules.modify r f }

/-- The class behind a reference. -/
def classObj (st : Store) (r : Nat) : ClassObject := st.classes.getD r default

/-- Adds a class. -/
def newClass (st : Store) (c : ClassObject) : Store × Nat :=
  ({ st with classes := st.classes.push c }, st.classes.size)

/-- Changes a class. -/
def modifyClass (st : Store) (r : Nat) (f : ClassObject → ClassObject) : Store :=
  { st with classes := st.classes.modify r f }

end Store

end Espalier
