import Espalier.Syntax.Tree

/-!
# Locations and markers

Macros build nodes without locations; `fillLocs` gives every such node the location of its
nearest located ancestor, or a stand-in `parent` when none of its ancestors has one. At the
top level of a module, a statement without a location takes the previous statement's, and
the first one takes line 1, column 0.

`missingLocs` lists, in pre-order, the kind of every node that has no location. Its order
visits a conditional expression's value before its test, and a statement's expressions
before its bodies.

`stripMarkers` removes the markers that expansion leaves around finished subtrees, and
`markerLocs` lists where markers are.
-/

namespace Espalier

mutual
/-- Fills missing locations of an expression from its nearest located ancestor. -/
def Expr.fillLocs (parent : Option Loc) : Expr → Expr
  | .mk k l =>
    let here := l.orElse (fun _ => parent)
    let k' := match k with
      | .name id => .name id
      | .const c => .const c
      | .binOp op a b => .binOp op (a.fillLocs here) (b.fillLocs here)
      | .unaryOp op a => .unaryOp op (a.fillLocs here)
      | .call f args => .call (f.fillLocs here) (Expr.fillLocsList here args)
      | .attribute v a => .attribute (v.fillLocs here) a
      | .subscript v i => .subscript (v.fillLocs here) (i.fillLocs here)
      | .list items => .list (Expr.fillLocsList here items)
      | .tuple items => .tuple (Expr.fillLocsList here items)
      | .lambda ps b => .lambda ps (b.fillLocs here)
      | .ifExp t b o => .ifExp (t.fillLocs here) (b.fillLocs here) (o.fillLocs here)
      | .done e => .done (e.fillLocs here)
    .mk k' here

/-- Fills missing locations of each expression of a list. -/
def Expr.fillLocsList (parent : Option Loc) : List Expr → List Expr
  | [] => []
  | e :: es => e.fillLocs parent :: Expr.fillLocsList parent es
end

/-- Fills missing locations of an optional expression. -/
def Expr.fillLocsOpt (parent : Option Loc) : Option Expr → Option Expr
  | some e => some (e.fillLocs parent)
  | none => none

mutual
/-- Fills missing locations of a statement from its nearest located ancestor. -/
def Stmt.fillLocs (parent : Option Loc) : Stmt → Stmt
  | .mk k l =>
    let here := l.orElse (fun _ => parent)
    let k' := match k with
      | .expr v => .expr (v.fillLocs here)
      | .assign t v => .assign (t.fillLocs here) (v.fillLocs here)
      | .importModule m a => .importModule m a
      | .importFrom m lvl ns => .importFrom m lvl ns
      | .withBlock i a b => .withBlock (i.fillLocs here) a (Stmt.fillLocsList here b)
      | .functionDef n ps b ds =>
          .functionDef n ps (Stmt.fillLocsList here b) (Expr.fillLocsList here ds)
      | .classDef n b ds => .classDef n (Stmt.fillLocsList here b) (Expr.fillLocsList here ds)
      | .ret v => .ret (Expr.fillLocsOpt here v)
      | .ifElse t b o => .ifElse (t.fillLocs here) (Stmt.fillLocsList here b) (Stmt.fillLocsList here o)
      | .whileLoop t b => .whileLoop (t.fillLocs here) (Stmt.fillLocsList here b)
      | .forLoop x i b => .forLoop x (i.fillLocs here) (Stmt.fillLocsList here b)
      | .assertion t m => .assertion (t.fillLocs here) (Expr.fillLocsOpt here m)
      | .pass => .pass
      | .breakLoop => .breakLoop
      | .continueLoop => .continueLoop
      | .done ss => .done (Stmt.fillLocsList here ss)
    .mk k' here

/-- Fills missing locations of each statement of a list. -/
def Stmt.fillLocsList (parent : Option Loc) : List Stmt → List Stmt
  | [] => []
  | s :: ss => s.fillLocs parent :: Stmt.fillLocsList parent ss
end

/-- Fills missing locations of a tree. -/
def Tree.fillLocs (parent : Option Loc) : Tree → Tree
  | .expr e => .expr (e.fillLocs parent)
  | .stmts ss => .stmts (Stmt.fillLocsList parent ss)

/-- Fills missing locations of top-level statements: each falls back on the location of the
statement before it, the first on line 1, column 0. -/
def fillTopLevel (previous : Loc) : List Stmt → List Stmt
  | [] => []
  | s :: ss =>
      let s' := s.fillLocs (some previous)
      s' :: fillTopLevel (s'.loc.getD previous) ss

/-- Fills every missing location of a module. -/
def Module.fillLocs (m : Module) : Module := ⟨fillTopLevel ⟨1, 0⟩ m.body⟩

mutual
/-- The kinds of the expression nodes without a location, in pre-order. -/
def Expr.missingLocs : Expr → List String
  | e@(.mk k l) =>
    let here := if l.isNone then [e.typeName] else []
    here ++ match k with
      | .name _ | .const _ => []
      | .binOp _ a b => a.missingLocs ++ b.missingLocs
      | .unaryOp _ a => a.missingLocs
      | .call f args => f.missingLocs ++ Expr.missingLocsList args
      | .attribute v _ => v.missingLocs
      | .subscript v i => v.missingLocs ++ i.missingLocs
      | .list items | .tuple items => Expr.missingLocsList items
      | .lambda _ b => b.missingLocs
      | .ifExp t b o => b.missingLocs ++ t.missingLocs ++ o.missingLocs
      | .done inner => inner.missingLocs

/-- The kinds of unlocated nodes of a list of expressions. -/
def Expr.missingLocsList : List Expr → List String
  | [] => []
  | e :: es => e.missingLocs ++ Expr.missingLocsList es
end

/-- The kinds of unlocated nodes of an optional expression. -/
def Expr.missingLocsOpt : Option Expr → List String
  | some e => e.missingLocs
  | none => []

mutual
/-- The kinds of the nodes without a location, in pre-order; expressions before bodies. -/
def Stmt.missingLocs : Stmt → List String
  | s@(.mk k l) =>
    let here := if l.isNone then [s.typeName] else []
    here ++ match k with
      | .expr v => v.missingLocs
      | .assign t v => t.missingLocs ++ v.missingLocs
      | .importModule .. | .importFrom .. | .pass | .breakLoop | .continueLoop => []
      | .withBlock i _ b => i.missingLocs ++ Stmt.missingLocsList b
      | .functionDef _ _ b ds | .classDef _ b ds => Expr.missingLocsList ds ++ Stmt.missingLocsList b
      | .ret v => Expr.missingLocsOpt v
      | .ifElse t b o => t.missingLocs ++ Stmt.missingLocsList b ++ Stmt.missingLocsList o
      | .whileLoop t b => t.missingLocs ++ Stmt.missingLocsList b
      | .forLoop _ i b => i.missingLocs ++ Stmt.missingLocsList b
      | .assertion t m => t.missingLocs ++ Expr.missingLocsOpt m
      | .done ss => Stmt.missingLocsList ss

/-- The kinds of unlocated nodes of a statement list. -/
def Stmt.missingLocsList : List Stmt → List String
  | [] => []
  | s :: ss => s.missingLocs ++ Stmt.missingLocsList ss
end

/-- The kinds of unlocated nodes of a tree. -/
def Tree.missingLocs : Tree → List String
  | .expr e => e.missingLocs
  | .stmts ss => Stmt.missingLocsList ss

mutual
/-- The locations of the markers in an expression, in pre-order. -/
def Expr.markerLocs : Expr → List (Option Loc)
  | .mk k l =>
    match k with
    | .name _ | .const _ => []
    | .binOp _ a b => a.markerLocs ++ b.markerLocs
    | .unaryOp _ a => a.markerLocs
    | .call f args => f.markerLocs ++ Expr.markerLocsList args
    | .attribute v _ => v.markerLocs
    | .subscript v i => v.markerLocs ++ i.markerLocs
    | .list items | .tuple items => Expr.markerLocsList items
    | .lambda _ b => b.markerLocs
    | .ifExp t b o => b.markerLocs ++ t.markerLocs ++ o.markerLocs
    | .done inner => l :: inner.markerLocs

/-- The marker locations of a list of expressions. -/
def Expr.markerLocsList : List Expr → List (Option Loc)
  | [] => []
  | e :: es => e.markerLocs ++ Expr.markerLocsList es
end

/-- The marker locations of an optional expression. -/
def Expr.markerLocsOpt : Option Expr → List (Option Loc)
  | some e => e.markerLocs
  | none => []

mutual
/-- The locations of the markers in a statement, in pre-order. -/
def Stmt.markerLocs : Stmt → List (Option Loc)
  | .mk k l =>
    match k with
    | .expr v => v.markerLocs
    | .assign t v => t.markerLocs ++ v.markerLocs
    | .importModule .. | .importFrom .. | .pass | .breakLoop | .continueLoop => []
    | .withBlock i _ b => i.markerLocs ++ Stmt.markerLocsList b
    | .functionDef _ _ b ds | .classDef _ b ds => Expr.markerLocsList ds ++ Stmt.markerLocsList b
    | .ret v => Expr.markerLocsOpt v
    | .ifElse t b o => t.markerLocs ++ Stmt.markerLocsList b ++ Stmt.markerLocsList o
    | .whileLoop t b => t.markerLocs ++ Stmt.markerLocsList b
    | .forLoop _ i b => i.markerLocs ++ Stmt.markerLocsList b
    | .assertion t m => t.markerLocs ++ Expr.markerLocsOpt m
    | .done ss => l :: Stmt.markerLocsList ss

/-- The marker locations of a statement list. -/
def Stmt.markerLocsList : List Stmt → List (Option Loc)
  | [] => []
  | s :: ss => s.markerLocs ++ Stmt.markerLocsList ss
end

mutual
/-- Removes every marker from an expression, keeping what it wraps. -/
def Expr.stripMarkers : Expr → Expr
  | .mk k l =>
    match k with
    | .done inner => inner.stripMarkers
    | .name id => .mk (.name id) l
    | .const c => .mk (.const c) l
    | .binOp op a b => .mk (.binOp op a.stripMarkers b.stripMarkers) l
    | .unaryOp op a => .mk (.unaryOp op a.stripMarkers) l
    | .call f args => .mk (.call f.stripMarkers (Expr.stripMarkersList args)) l
    | .attribute v a => .mk (.attribute v.stripMarkers a) l
    | .subscript v i => .mk (.subscript v.stripMarkers i.stripMarkers) l
    | .list items => .mk (.list (Expr.stripMarkersList items)) l
    | .tuple items => .mk (.tuple (Expr.stripMarkersList items)) l
    | .lambda ps b => .mk (.lambda ps b.stripMarkers) l
    | .ifExp t b o => .mk (.ifExp t.stripMarkers b.stripMarkers o.stripMarkers) l

/-- Removes markers from each expression of a list. -/
def Expr.stripMarkersList : List Expr → List Expr
  | [] => []
  | e :: es => e.stripMarkers :: Expr.stripMarkersList es
end

/-- Removes markers from an optional expression. -/
def Expr.stripMarkersOpt : Option Expr → Option Expr
  | some e => some e.stripMarkers
  | none => none

mutual
/-- Removes every marker from a statement; a statement marker is replaced by the statements
it wraps, so one statement may become several. -/
def Stmt.stripMarkers : Stmt → List Stmt
  | .mk k l =>
    match k with
    | .done ss => Stmt.stripMarkersList ss
    | .expr v => [.mk (.expr v.stripMarkers) l]
    | .assign t v => [.mk (.assign t.stripMarkers v.stripMarkers) l]
    | .importModule m a => [.mk (.importModule m a) l]
    | .importFrom m lvl ns => [.mk (.importFrom m lvl ns) l]
    | .withBlock i a b => [.mk (.withBlock i.stripMarkers a (Stmt.stripMarkersList b)) l]
    | .functionDef n ps b ds =>
        [.mk (.functionDef n ps (Stmt.stripMarkersList b) (Expr.stripMarkersList ds)) l]
    | .classDef n b ds => [.mk (.classDef n (Stmt.stripMarkersList b) (Expr.stripMarkersList ds)) l]
    | .ret v => [.mk (.ret (Expr.stripMarkersOpt v)) l]
    | .ifElse t b o =>
        [.mk (.ifElse t.stripMarkers (Stmt.stripMarkersList b) (Stmt.stripMarkersList o)) l]
    | .whileLoop t b => [.mk (.whileLoop t.stripMarkers (Stmt.stripMarkersList b)) l]
    | .forLoop x i b => [.mk (.forLoop x i.stripMarkers (Stmt.stripMarkersList b)) l]
    | .assertion t m => [.mk (.assertion t.stripMarkers (Expr.stripMarkersOpt m)) l]
    | .pass => [.mk .pass l]
    | .breakLoop => [.mk .breakLoop l]
    | .continueLoop => [.mk .continueLoop l]

/-- Removes markers from a statement list. -/
def Stmt.stripMarkersList : List Stmt → List Stmt
  | [] => []
  | s :: ss => s.stripMarkers ++ Stmt.stripMarkersList ss
end

/-- Removes markers from a tree. -/
def Tree.stripMarkers : Tree → Tree
  | .expr e => .expr e.stripMarkers
  | .stmts ss => .stmts (Stmt.stripMarkersList ss)

end Espalier
