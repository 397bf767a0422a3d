import Espalier.Macro.Basic

/-!
# Inventory of invocations

`collect` lists the macro invocations still present in a tree, as pairs of a bound name and
a shape, sorted by name and then by shape, without repeats. It looks where expansion looks:
markers hide what they wrap; in `name[...]` with a bare base only the index is searched,
whether or not `name` is bound; a bound `with` item or bare decorator is an invocation and
is not searched further.
-/

namespace Espalier

section
variable {M : Type} (b : Bindings M) (isNameMacro : M → Bool)

mutual
/-- The invocations in an expression, in visiting order. -/
def Expr.invocations : Expr → List (String × Shape)
  | e@(.mk k _) =>
    match k with
    | .done _ => []
    | .subscript (.mk (.name _) _) index =>
        ((exprInvocation? b e).map (·, Shape.expr)).toList ++ index.invocations
    | .name _ => ((nameInvocation? b isNameMacro e).map (·, Shape.name)).toList
    | .const _ => []
    | .binOp _ a c => a.invocations ++ c.invocations
    | .unaryOp _ a => a.invocations
    | .call f args => f.invocations ++ Expr.invocationsList args
    | .attribute v _ => v.invocations
    | .subscript v i => v.invocations ++ i.invocations
    | .list items | .tuple items => Expr.invocationsList items
    | .lambda _ body => body.invocations
    | .ifExp t body o => body.invocations ++ t.invocations ++ o.invocations

/-- The invocations in a list of expressions. -/
def Expr.invocationsList : List Expr → List (String × Shape)
  | [] => []
  | e :: es => e.invocations ++ Expr.invocationsList es
end

/-- The invocations in an optional expression. -/
def Expr.invocationsOpt : Option Expr → List (String × Shape)
  | some e => e.invocations b isNameMacro
  | none => []

/-- The invocations in decorators: a bound bare name is one, anything else is searched. -/
def decoratorsInvocations : List Expr → List (String × Shape)
  | [] => []
  | d :: ds =>
      (match decoratorMacro? b d with
        | some n => [(n, Shape.decorator)]
        | none => d.invocations b isNameMacro) ++ decoratorsInvocations ds

mutual
/-- The invocations in a statement, in visiting order. -/
def Stmt.invocations : Stmt → List (String × Shape)
  | s@(.mk k _) =>
    match k with
    | .done _ => []
    | .withBlock item _ body =>
        (match blockInvocation? b s with
          | some n => [(n, Shape.block)]
          | none => item.invocations b isNameMacro) ++ Stmt.invocationsList body
    | .functionDef _ _ body ds | .classDef _ body ds =>
        decoratorsInvocations b isNameMacro ds ++ Stmt.invocationsList body
    | .expr v => v.invocations b isNameMacro
    | .assign t v => t.invocations b isNameMacro ++ v.invocations b isNameMacro
    | .importModule .. | .importFrom .. | .pass | .breakLoop | .continueLoop => []
    | .ret v => Expr.invocationsOpt b isNameMacro v
    | .ifElse t body o =>
        t.invocations b isNameMacro ++ Stmt.invocationsList body ++ Stmt.invocationsList o
    | .whileLoop t body => t.invocations b isNameMacro ++ Stmt.invocationsList body
    | .forLoop _ i body => i.invocations b isNameMacro ++ Stmt.invocationsList body
    | .assertion t m => t.invocations b isNameMacro ++ Expr.invocationsOpt b isNameMacro m

/-- The invocations in a statement list. -/
def Stmt.invocationsList : List Stmt → List (String × Shape)
  | [] => []
  | s :: ss => s.invocations ++ Stmt.invocationsList ss
end

/-- Whether one inventory entry sorts before or with another: by name, then by shape. -/
def invocationLe (x y : String × Shape) : Bool :=
  x.1 < y.1 || (x.1 == y.1 && x.2.rank ≤ y.2.rank)

/-- Sorted entries without repeats. -/
def dedupInvocations : List (String × Shape) → List (String × Shape)
  | x :: y :: rest => if x == y then dedupInvocations (y :: rest) else x :: dedupInvocations (y :: rest)
  | l => l

/-- The inventory of a tree: distinct invocations, by name and then by shape. -/
def Tree.collect : Tree → List (String × Shape)
  | t =>
    let found := match t with
      | .expr e => e.invocations b isNameMacro
      | .stmts ss => Stmt.invocationsList b isNameMacro ss
    dedupInvocations (found.mergeSort invocationLe)

end

end Espalier
