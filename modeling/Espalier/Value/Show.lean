import Espalier.Value.Store
import Espalier.Syntax.Printer
import Espalier.Text.Blank
import Espalier.Diagnostic

/-!
# Showing and comparing values

`Value.display` is the text `str` gives and `print` writes; `Value.repr` differs only in
quoting strings. Lists and tuples show their items' `repr`, a one-item tuple with a
trailing comma; a tree shows as its source.

`Value.eqv` is the equality of `==`: lists, tuples, strings and trees compare by contents,
functions, modules and classes by identity, builtins and dialects by name, and otherwise
two values are equal when both stand for the same integer.

A list can contain itself; the functions that look inside lists take fuel and give up
when it runs out.
-/

namespace Espalier

/-- The name an engine macro is known by. -/
def EngineMacro.name : EngineMacro → String
  | .stepExpansion => "step_expansion"
  | .showBindings => "show_bindings"
  | .sample n => n

namespace Value

mutual
/-- The text of a value, as `str` gives it. -/
def display (st : Store) : Nat → Value → String
  | 0, _ => "..."
  | _ + 1, .none => "None"
  | _ + 1, .bool b => if b then "True" else "False"
  | _ + 1, .int n => toString n
  | _ + 1, .str s => s
  | f + 1, .list r => "[" ++ ", ".intercalate (reprList st f (st.listItems r).toList) ++ "]"
  | f + 1, .tuple [v] => "(" ++ repr st f v ++ ",)"
  | f + 1, .tuple vs => "(" ++ ", ".intercalate (reprList st f vs) ++ ")"
  | _ + 1, .function c => "<function " ++ c.name ++ ">"
  | _ + 1, .builtin b => "<built-in function " ++ b.name ++ ">"
  | _ + 1, .module r => "<module '" ++ (st.module r).name ++ "'>"
  | _ + 1, .classNs r => "<class '" ++ (st.classObj r).name ++ "'>"
  | _ + 1, .engineMacro m => "<macro " ++ m.name ++ ">"
  | _ + 1, .dialect d => "<dialect " ++ d.name ++ ">"
  | _ + 1, .tree (.expr e) => unparseExpr e
  | _ + 1, .tree (.stmts ss) => String.ofList (Text.trimEnd (unparseStmts ss).toList)

/-- The text of a value with strings quoted, as `repr` gives it. -/
def repr (st : Store) : Nat → Value → String
  | 0, _ => "..."
  | _ + 1, .str s => quote s
  | f + 1, v => display st (f + 1) v

/-- The `repr` of each value of a list. -/
def reprList (st : Store) : Nat → List Value → List String
  | 0, _ => []
  | _, [] => []
  | f + 1, v :: vs => repr st f v :: reprList st (f + 1) vs
end

mutual
/-- Equality of values, as `==` decides it. -/
def eqv (st : Store) : Nat → Value → Value → Bool
  | 0, _, _ => false
  | _ + 1, .none, .none => true
  | _ + 1, .str a, .str b => a == b
  | f + 1, .list a, .list b =>
      a == b || eqvList st f (st.listItems a).toList (st.listItems b).toList
  | f + 1, .tuple a, .tuple b => eqvList st f a b
  | _ + 1, .function a, .function b => a.id == b.id
  | _ + 1, .builtin a, .builtin b => a.name == b.name
  | _ + 1, .module a, .module b => a == b
  | _ + 1, .classNs a, .classNs b => a == b
  | _ + 1, .engineMacro a, .engineMacro b => a == b
  | _ + 1, .dialect a, .dialect b => a.name == b.name
  | _ + 1, .tree a, .tree b => a == b
  | _ + 1, a, b =>
      match a.asInt?, b.asInt? with
      | some x, some y => x == y
      | _, _ => false

/-- Item-wise equality of two lists of values. -/
def eqvList (st : Store) : Nat → List Value → List Value → Bool
  | 0, _, _ => false
  | _ + 1, [], [] => true
  | f + 1, a :: as, b :: bs => eqv st f a b && eqvList st (f + 1) as bs
  | _ + 1, _, _ => false
end

/-- Whether a value counts as true in a test. -/
def truthy (st : Store) : Value → Bool
  | .none => false
  | .bool b => b
  | .int n => n != 0
  | .str s => !s.isEmpty
  | .list r => !(st.listItems r).isEmpty
  | .tuple vs => !vs.isEmpty
  | _ => true

/-- Reads what a macro returned as a tree: `None` is no tree, a list is the statements of
its items in order, and a scalar is a constant. -/
def toTree? (st : Store) : Nat → Value → Except Error (Option Tree)
  | 0, _ => .error (.plain .internalError "a macro result nests too deeply")
  | _ + 1, .none => .ok Option.none
  | _ + 1, .tree t => .ok (some t)
  | f + 1, .list r => do
      let mut out : List Stmt := []
      for item in (st.listItems r).toList do
        match ← toTree? st f item with
        | some t => out := out ++ t.toStmts
        | Option.none => pure ()
      pure (some (.stmts out))
  | _ + 1, v =>
      match v.toConstant? with
      | some c => .ok (some (.expr (.bare (.const c))))
      | Option.none => .error (.plain .typeError
          ("a macro must return a tree, a list of trees or None, not " ++ v.typeName))

end Value

/-- Enough fuel to show or compare any value whose lists do not contain themselves. -/
def Store.fuel (st : Store) : Nat := 4 * st.lists.size + 100000

end Espalier
