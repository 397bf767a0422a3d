import Espalier.Syntax.Tree
import Espalier.Text.Escape

/-!
# Macro bindings and invocation shapes

A macro is bound to a name in a module by a macro-import. Where the name is written
decides how it is invoked, whatever the macro:

| shape       | written as         | the macro receives                       |
|-------------|--------------------|------------------------------------------|
| `expr`      | `double[21]`       | the index expression                     |
| `block`     | `with trace: ...`  | the body statements                      |
| `decorator` | `@trace def f():`  | the definition, macro decorators removed |
| `name`      | `it`               | the name node; only for macros that opt in |

`Bindings M` maps names to macros of type `M`. The detectors below answer which bound
name a node invokes, looking at the node itself and never below it.
-/

namespace Espalier

/-- The syntactic shape of a macro invocation. -/
inductive Shape where
  | expr | block | decorator | name
deriving DecidableEq, Repr, Inhabited

/-- The word for a shape, as macros receive it. -/
def Shape.label : Shape → String
  | .expr => "expr" | .block => "block" | .decorator => "decorator" | .name => "name"

/-- The order of shapes in inventories. -/
def Shape.rank : Shape → Nat
  | .expr => 0 | .block => 1 | .decorator => 2 | .name => 3

/-- A table from names to macros; a name is bound at most once. -/
structure Bindings (M : Type) where
  entries : List (String × M) := []

namespace Bindings

variable {M : Type}

/-- The macro bound to `n`. -/
def get? (b : Bindings M) (n : String) : Option M := (b.entries.find? (·.1 == n)).map (·.2)

/-- Whether `n` is bound. -/
def isBound (b : Bindings M) (n : String) : Bool := b.entries.any (·.1 == n)

/-- Binds `n` to `m`, replacing an earlier binding of `n`. -/
def insert (b : Bindings M) (n : String) (m : M) : Bindings M :=
  ⟨(b.entries.filter (·.1 != n)) ++ [(n, m)]⟩

/-- Adds every binding of `other`, which wins over a binding of the same name. -/
def extend (b : Bindings M) (other : Bindings M) : Bindings M :=
  other.entries.foldl (fun acc (n, m) => acc.insert n m) b

/-- The number of bound names. -/
def size (b : Bindings M) : Nat := b.entries.length

/-- The bound names in ascending order. -/
def names (b : Bindings M) : List String :=
  (b.entries.map (·.1)).mergeSort (fun x y => decide (x ≤ y))

/-- The bound names as they are shown for inspection: sorted, each quoted with its escapes,
between braces. -/
def debugText (b : Bindings M) : String :=
  "\x7b" ++ ", ".intercalate (b.names.map Text.quoteEscaped) ++ "\x7d"

end Bindings

/-- The first name of a macro-import: `from m import macros, ...`. -/
def macrosMagic : String := "macros"

/-- The first name of a dialect-import: `from m import dialects, ...`. -/
def dialectsMagic : String := "dialects"

/-- The pseudo-module that names the next phase of the module being compiled. -/
def selfModule : String := "__self__"

/-- Whether a statement is `from ... import <magic>, ...`, with `magic` first and not
renamed. -/
def Stmt.isMagicImport (magic : String) : Stmt → Bool
  | .mk (.importFrom _ _ (a :: _)) _ => a.name == magic && a.asname.isNone
  | _ => false

/-! ## Detecting invocations -/

section
variable {M : Type} (b : Bindings M)

/-- `name[...]` with `name` bound: an expression invocation. -/
def exprInvocation? : Expr → Option String
  | .mk (.subscript (.mk (.name id) _) _) _ => if b.isBound id then some id else none
  | _ => none

/-- A bare bound name whose macro opted in to name invocation. -/
def nameInvocation? (isNameMacro : M → Bool) : Expr → Option String
  | .mk (.name id) _ =>
      match b.get? id with
      | some m => if isNameMacro m then some id else none
      | none => none
  | _ => none

/-- `with name [as alias]:` with `name` bound: a block invocation. -/
def blockInvocation? : Stmt → Option String
  | .mk (.withBlock (.mk (.name id) _) _ _) _ => if b.isBound id then some id else none
  | _ => none

/-- Whether a decorator is a bare bound name. -/
def decoratorMacro? : Expr → Option String
  | .mk (.name id) _ => if b.isBound id then some id else none
  | _ => none

/-- The bound bare-name decorators of a definition, outermost first. -/
def decoratorInvocations : Stmt → List String
  | .mk (.functionDef _ _ _ ds) _ | .mk (.classDef _ _ ds) _ => ds.filterMap (decoratorMacro? b)
  | _ => []

/-- Splits decorators into macro names and the other decorators, keeping order within each. -/
def splitDecorators (ds : List Expr) : List String × List Expr :=
  (ds.filterMap (decoratorMacro? b), ds.filter (fun d => (decoratorMacro? b d).isNone))

end

end Espalier
