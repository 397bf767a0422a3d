import Espalier.Syntax.Tree

/-!
# Values

The values a program computes with. Scalars, tuples, trees, functions, dialects and
macros are immutable and held directly; lists, modules and classes can change in place
and be shared, so a value holds a *reference* to them, a number that the `Store` maps to
their current contents.

A function value carries an identity besides its code and captured variables: two
function values are equal only when they come from the same definition or `namemacro`
call.

Integers stay within the signed 64-bit range; arithmetic checks every result.
-/

namespace Espalier

/-- A function defined in a program: its code, the module whose variables it sees, and
the local variables it captured when it was defined. -/
structure Closure (V : Type) where
  /-- Distinguishes this function from every other one made in the session. -/
  id : Nat
  name : String
  params : List String
  body : List Stmt
  /-- The reference of the module whose variables are its globals. -/
  globals : Nat
  /-- The captured local variables, newest binding first. -/
  env : List (String × V)
  /-- Whether a bare reference to the function invokes it as a macro. -/
  nameMacro : Bool := false

/-- A dialect made by a program: a name and the functions that transform a module's text,
its tree before macro expansion, and its tree after. -/
structure DialectSpec (V : Type) where
  name : String
  source : Option (Closure V) := none
  ast : Option (Closure V) := none
  postprocess : Option (Closure V) := none

/-- The functions every module sees and those of the engine's own modules. -/
inductive Builtin where
  | append | int | len | nameMacroFn | print | range | repr | str
  | dialect | gensym
  | assignNode | attributeNode | binOpNode | callNode | constantNode | exprNode | listNode
  | nameNode | returnNode | subscriptNode | tupleNode
  | field | kind | parse | parseExpr | splice | statements | unparse | value
  | missingLocations
deriving DecidableEq, Repr, Inhabited

/-- The name a builtin is known by. -/
def Builtin.name : Builtin → String
  | .append => "append" | .int => "int" | .len => "len" | .nameMacroFn => "namemacro"
  | .print => "print" | .range => "range" | .repr => "repr" | .str => "str"
  | .dialect => "dialect" | .gensym => "gensym"
  | .assignNode => "Assign" | .attributeNode => "Attribute" | .binOpNode => "BinOp"
  | .callNode => "Call" | .constantNode => "Constant" | .exprNode => "Expr"
  | .listNode => "List" | .nameNode => "Name" | .returnNode => "Return"
  | .subscriptNode => "Subscript" | .tupleNode => "Tuple"
  | .field => "field" | .kind => "kind" | .parse => "parse" | .parseExpr => "parse_expr"
  | .splice => "splice" | .statements => "statements" | .unparse => "unparse" | .value => "value"
  | .missingLocations => "missing_locations"

/-- The builtins every module sees, by name. -/
def Builtin.global : List Builtin :=
  [.append, .int, .len, .nameMacroFn, .print, .range, .repr, .str]

/-- Looks up a builtin every module sees. -/
def Builtin.lookup? (n : String) : Option Builtin := Builtin.global.find? (·.name == n)

/-- Macros implemented by the engine. -/
inductive EngineMacro where
  /-- Expands its argument one layer at a time, printing each step. -/
  | stepExpansion
  /-- Prints the macro bindings of the module it appears in. -/
  | showBindings
  /-- One of the sample macros, by name. -/
  | sample (name : String)
deriving DecidableEq, Repr, Inhabited

/-- A runtime value. -/
inductive Value where
  | none
  | bool (b : Bool)
  | int (n : Int)
  | str (s : String)
  | list (ref : Nat)
  | tuple (items : List Value)
  | function (f : Closure Value)
  | builtin (b : Builtin)
  | module (ref : Nat)
  | classNs (ref : Nat)
  | engineMacro (m : EngineMacro)
  | dialect (d : DialectSpec Value)
  | tree (t : Tree)

instance : Inhabited Value := ⟨.none⟩

namespace Value

/-- The name of a value's type, as messages give it. -/
def typeName : Value → String
  | .none => "NoneType" | .bool _ => "bool" | .int _ => "int" | .str _ => "str"
  | .list _ => "list" | .tuple _ => "tuple" | .function _ => "function"
  | .builtin _ => "builtin" | .module _ => "module" | .classNs _ => "class"
  | .engineMacro _ => "macro" | .dialect _ => "dialect" | .tree _ => "tree"

/-- The integer a value stands for: integers, and booleans as 0 and 1. -/
def asInt? : Value → Option Int
  | .int n => some n
  | .bool b => some (if b then 1 else 0)
  | _ => Option.none

/-- The value of a constant. -/
def ofConstant : Constant → Value
  | .none => .none
  | .bool b => .bool b
  | .int n => .int n
  | .str s => .str s

/-- The constant a scalar value stands for. -/
def toConstant? : Value → Option Constant
  | .none => some .none
  | .bool b => some (.bool b)
  | .int n => some (.int n)
  | .str s => some (.str s)
  | _ => Option.none

end Value

/-- The smallest signed 64-bit integer. -/
def intMin : Int := -9223372036854775808

/-- The largest signed 64-bit integer. -/
def intMax : Int := 9223372036854775807

/-- Whether an integer fits in 64 signed bits. -/
def fitsInt (n : Int) : Bool := intMin ≤ n && n ≤ intMax

/-- A result that must fit in 64 signed bits. -/
def checkedInt? (n : Int) : Option Int := if fitsInt n then some n else none

end Espalier
