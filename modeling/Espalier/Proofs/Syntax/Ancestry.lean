import Mathlib
import Espalier.Proofs.Syntax.Walk

/-!
# Where filled-in locations come from

`fillLocs` specified node by node. A tree is viewed as its *shape*, the tree with every
location erased (`eraseLocs`), and its locations listed in pre-order (`locs`). The *ancestry*
of a node lists its own location and then those of its ancestors, innermost first
(`ancestry`, one list per node in the same pre-order). The reference rule, `nearestLoc`: a
node's location after filling is the first known location of its ancestry, or the stand-in
`parent` when none of them is known; a node that had a location keeps it.

* `Expr.eq_of_eraseLocs_of_locs`, `Stmt.eq_of_eraseLocs_of_locs`: a tree is determined by
  its shape and its locations.
* `Expr.fillLocs_reference`, `Stmt.fillLocsList_reference`: the filled tree is the one tree
  that has the original's shape and, at every node, the location the reference rule gives.
* `Module.fillLocs_reference`: at the top level of a module the stand-in of a statement is
  the location the statement before it has after filling, and line 1, column 0 for the first.

Every law is one structural recursion over expressions and statements, the list forms
alongside, as in `Espalier.Proofs.Syntax.Walk`.
-/

namespace Espalier

/-! ## The reference rule -/

/-- The first known location of an ancestry, or `parent` when none of it is known. -/
def nearestLoc (parent : Option Loc) (ancestry : List (Option Loc)) : Option Loc :=
  ancestry.reduceOption.head?.orElse fun _ => parent

@[simp] theorem nearestLoc_nil (parent : Option Loc) : nearestLoc parent [] = parent := rfl

/-- A node's own location comes first in its ancestry; filling reads it the same way. -/
@[simp] theorem nearestLoc_cons (parent l : Option Loc) (above : List (Option Loc)) :
    nearestLoc parent (l :: above) = l.orElse fun _ => nearestLoc parent above := by
  cases l with
  | none => simp [nearestLoc, List.reduceOption_cons_of_none]
  | some x => simp [nearestLoc, List.reduceOption_cons_of_some]

/-! ## Views of a tree: shape, locations, ancestries -/

mutual
/-- The expression with every location erased. -/
def Expr.eraseLocs : Expr → Expr
  | .mk k _ =>
    let k' := match k with
      | .name id => .name id
      | .const c => .const c
      | .binOp op a b => .binOp op a.eraseLocs b.eraseLocs
      | .unaryOp op a => .unaryOp op a.eraseLocs
      | .call f args => .call f.eraseLocs (Expr.eraseLocsList args)
      | .attribute v a => .attribute v.eraseLocs a
      | .subscript v i => .subscript v.eraseLocs i.eraseLocs
      | .list items => .list (Expr.eraseLocsList items)
      | .tuple items => .tuple (Expr.eraseLocsList items)
      | .lambda ps b => .lambda ps b.eraseLocs
      | .ifExp t b o => .ifExp t.eraseLocs b.eraseLocs o.eraseLocs
      | .done e => .done e.eraseLocs
    .mk k' none

/-- Erases the locations of each expression of a list. -/
def Expr.eraseLocsList : List Expr → List Expr
  | [] => []
  | e :: es => e.eraseLocs :: Expr.eraseLocsList es
end

/-- Erases the locations of an optional expression. -/
def Expr.eraseLocsOpt : Option Expr → Option Expr
  | some e => some e.eraseLocs
  | none => none

mutual
/-- The statement with every location erased. -/
def Stmt.eraseLocs : Stmt → Stmt
  | .mk k _ =>
    let k' := match k with
      | .expr v => .expr v.eraseLocs
      | .assign t v => .assign t.eraseLocs v.eraseLocs
      | .importModule m a => .importModule m a
      | .importFrom m lvl ns => .importFrom m lvl ns
      | .withBlock i a b => .withBlock i.eraseLocs a (Stmt.eraseLocsList b)
      | .functionDef n ps b ds =>
          .functionDef n ps (Stmt.eraseLocsList b) (Expr.eraseLocsList ds)
      | .classDef n b ds => .classDef n (Stmt.eraseLocsList b) (Expr.eraseLocsList ds)
      | .ret v => .ret (Expr.eraseLocsOpt v)
      | .ifElse t b o => .ifElse t.eraseLocs (Stmt.eraseLocsList b) (Stmt.eraseLocsList o)
      | .whileLoop t b => .whileLoop t.eraseLocs (Stmt.eraseLocsList b)
      | .forLoop x i b => .forLoop x i.eraseLocs (Stmt.eraseLocsList b)
      | .assertion t m => .assertion t.eraseLocs (Expr.eraseLocsOpt m)
      | .pass => .pass
      | .breakLoop => .breakLoop
      | .continueLoop => .continueLoop
      | .done ss => .done (Stmt.eraseLocsList ss)
    .mk k' none

/-- Erases the locations of each statement of a list. -/
def Stmt.eraseLocsList : List Stmt → List Stmt
  | [] => []
  | s :: ss => s.eraseLocs :: Stmt.eraseLocsList ss
end

mutual
/-- The location of every node of an expression, in pre-order. -/
def Expr.locs : Expr → List (Option Loc)
  | .mk k l =>
    l :: match k with
      | .name _ | .const _ => []
      | .binOp _ a b => a.locs ++ b.locs
      | .unaryOp _ a => a.locs
      | .call f args => f.locs ++ Expr.locsList args
      | .attribute v _ => v.locs
      | .subscript v i => v.locs ++ i.locs
      | .list items | .tuple items => Expr.locsList items
      | .lambda _ b => b.locs
      | .ifExp t b o => t.locs ++ b.locs ++ o.locs
      | .done inner => inner.locs

/-- The node locations of a list of expressions. -/
def Expr.locsList : List Expr → List (Option Loc)
  | [] => []
  | e :: es => e.locs ++ Expr.locsList es
end

/-- The node locations of an optional expression. -/
def Expr.locsOpt : Option Expr → List (Option Loc)
  | some e => e.locs
  | none => []

mutual
/-- The location of every node of a statement, in pre-order; expressions before bodies. -/
def Stmt.locs : Stmt → List (Option Loc)
  | .mk k l =>
    l :: match k with
      | .expr v => v.locs
      | .assign t v => t.locs ++ v.locs
      | .importModule .. | .importFrom .. | .pass | .breakLoop | .continueLoop => []
      | .withBlock i _ b => i.locs ++ Stmt.locsList b
      | .functionDef _ _ b ds | .classDef _ b ds => Expr.locsList ds ++ Stmt.locsList b
      | .ret v => Expr.locsOpt v
      | .ifElse t b o => t.locs ++ Stmt.locsList b ++ Stmt.locsList o
      | .whileLoop t b => t.locs ++ Stmt.locsList b
      | .forLoop _ i b => i.locs ++ Stmt.locsList b
      | .assertion t m => t.locs ++ Expr.locsOpt m
      | .done ss => Stmt.locsList ss

/-- The node locations of a statement list. -/
def Stmt.locsList : List Stmt → List (Option Loc)
  | [] => []
  | s :: ss => s.locs ++ Stmt.locsList ss
end

mutual
/-- The ancestry of every node of an expression, in pre-order: the node's own location,
then those of its ancestors inside the expression, then `above`. -/
def Expr.ancestryFrom (above : List (Option Loc)) : Expr → List (List (Option Loc))
  | .mk k l =>
    let here := l :: above
    here :: match k with
      | .name _ | .const _ => []
      | .binOp _ a b => a.ancestryFrom here ++ b.ancestryFrom here
      | .unaryOp _ a => a.ancestryFrom here
      | .call f args => f.ancestryFrom here ++ Expr.ancestryFromList here args
      | .attribute v _ => v.ancestryFrom here
      | .subscript v i => v.ancestryFrom here ++ i.ancestryFrom here
      | .list items | .tuple items => Expr.ancestryFromList here items
      | .lambda _ b => b.ancestryFrom here
      | .ifExp t b o => t.ancestryFrom here ++ b.ancestryFrom here ++ o.ancestryFrom here
      | .done inner => inner.ancestryFrom here

/-- The node ancestries of a list of expressions that share the ancestors `above`. -/
def Expr.ancestryFromList (above : List (Option Loc)) : List Expr → List (List (Option Loc))
  | [] => []
  | e :: es => e.ancestryFrom above ++ Expr.ancestryFromList above es
end

/-- The node ancestries of an optional expression. -/
def Expr.ancestryFromOpt (above : List (Option Loc)) : Option Expr → List (List (Option Loc))
  | some e => e.ancestryFrom above
  | none => []

mutual
/-- The ancestry of every node of a statement, in the pre-order of `Stmt.locs`. -/
def Stmt.ancestryFrom (above : List (Option Loc)) : Stmt → List (List (Option Loc))
  | .mk k l =>
    let here := l :: above
    here :: match k with
      | .expr v => v.ancestryFrom here
      | .assign t v => t.ancestryFrom here ++ v.ancestryFrom here
      | .importModule .. | .importFrom .. | .pass | .breakLoop | .continueLoop => []
      | .withBlock i _ b => i.ancestryFrom here ++ Stmt.ancestryFromList here b
      | .functionDef _ _ b ds | .classDef _ b ds =>
          Expr.ancestryFromList here ds ++ Stmt.ancestryFromList here b
      | .ret v => Expr.ancestryFromOpt here v
      | .ifElse t b o =>
          t.ancestryFrom here ++ Stmt.ancestryFromList here b ++ Stmt.ancestryFromList here o
      | .whileLoop t b => t.ancestryFrom here ++ Stmt.ancestryFromList here b
      | .forLoop _ i b => i.ancestryFrom here ++ Stmt.ancestryFromList here b
      | .assertion t m => t.ancestryFrom here ++ Expr.ancestryFromOpt here m
      | .done ss => Stmt.ancestryFromList here ss

/-- The node ancestries of a statement list whose statements share the ancestors `above`. -/
def Stmt.ancestryFromList (above : List (Option Loc)) : List Stmt → List (List (Option Loc))
  | [] => []
  | s :: ss => s.ancestryFrom above ++ Stmt.ancestryFromList above ss
end

/-- The ancestry of every node of an expression, its own ancestors only. -/
def Expr.ancestry (e : Expr) : List (List (Option Loc)) := e.ancestryFrom []

/-- The ancestry of every node of a statement, its own ancestors only. -/
def Stmt.ancestry (s : Stmt) : List (List (Option Loc)) := s.ancestryFrom []

/-- The ancestry of every node of a statement list, its own ancestors only. -/
def Stmt.ancestryList (ss : List Stmt) : List (List (Option Loc)) := Stmt.ancestryFromList [] ss

/-! ## A tree is its shape and its locations

Erasing keeps one node for each node, so two trees of one shape list equally many
locations, and a list of locations splits the same way in both; node by node, equal shapes
and equal location lists make equal trees. -/

mutual
theorem Expr.locs_eraseLocs : ∀ e : Expr, e.eraseLocs.locs = e.locs.map fun _ => none
  | .mk k l => by
    cases k <;> simp [Expr.eraseLocs, Expr.locs, Expr.locs_eraseLocs, Expr.locsList_eraseLocsList,
      Nat.add_assoc]

theorem Expr.locsList_eraseLocsList :
    ∀ es : List Expr, Expr.locsList (Expr.eraseLocsList es) = (Expr.locsList es).map fun _ => none
  | [] => rfl
  | e :: es => by
    simp [Expr.eraseLocsList, Expr.locsList, Expr.locs_eraseLocs e, Expr.locsList_eraseLocsList es]
end

theorem Expr.locsOpt_eraseLocsOpt (e : Option Expr) :
    Expr.locsOpt (Expr.eraseLocsOpt e) = (Expr.locsOpt e).map fun _ => none := by
  cases e <;> simp [Expr.eraseLocsOpt, Expr.locsOpt, Expr.locs_eraseLocs]

mutual
theorem Stmt.locs_eraseLocs : ∀ s : Stmt, s.eraseLocs.locs = s.locs.map fun _ => none
  | .mk k l => by
    cases k <;> simp [Stmt.eraseLocs, Stmt.locs, Expr.locs_eraseLocs, Expr.locsList_eraseLocsList,
      Expr.locsOpt_eraseLocsOpt, Stmt.locsList_eraseLocsList, Nat.add_assoc]

theorem Stmt.locsList_eraseLocsList :
    ∀ ss : List Stmt, Stmt.locsList (Stmt.eraseLocsList ss) = (Stmt.locsList ss).map fun _ => none
  | [] => rfl
  | s :: ss => by
    simp [Stmt.eraseLocsList, Stmt.locsList, Stmt.locs_eraseLocs s, Stmt.locsList_eraseLocsList ss]
end

/-- Locations listed ahead of others split off alike in two trees of one shape. -/
theorem Expr.locs_append_inj {a a' : Expr} {r r' : List (Option Loc)}
    (hs : a.eraseLocs = a'.eraseLocs) (h : a.locs ++ r = a'.locs ++ r') :
    a.locs = a'.locs ∧ r = r' := by
  refine List.append_inj h ?_
  simpa [Expr.locs_eraseLocs] using congrArg (fun e => e.locs.length) hs

theorem Expr.locsList_append_inj {as as' : List Expr} {r r' : List (Option Loc)}
    (hs : Expr.eraseLocsList as = Expr.eraseLocsList as')
    (h : Expr.locsList as ++ r = Expr.locsList as' ++ r') :
    Expr.locsList as = Expr.locsList as' ∧ r = r' := by
  refine List.append_inj h ?_
  simpa [Expr.locsList_eraseLocsList] using congrArg (fun es => (Expr.locsList es).length) hs

theorem Stmt.locs_append_inj {s s' : Stmt} {r r' : List (Option Loc)}
    (hs : s.eraseLocs = s'.eraseLocs) (h : s.locs ++ r = s'.locs ++ r') :
    s.locs = s'.locs ∧ r = r' := by
  refine List.append_inj h ?_
  simpa [Stmt.locs_eraseLocs] using congrArg (fun s => s.locs.length) hs

theorem Stmt.locsList_append_inj {ss ss' : List Stmt} {r r' : List (Option Loc)}
    (hs : Stmt.eraseLocsList ss = Stmt.eraseLocsList ss')
    (h : Stmt.locsList ss ++ r = Stmt.locsList ss' ++ r') :
    Stmt.locsList ss = Stmt.locsList ss' ∧ r = r' := by
  refine List.append_inj h ?_
  simpa [Stmt.locsList_eraseLocsList] using congrArg (fun ss => (Stmt.locsList ss).length) hs

mutual
theorem Expr.eq_of_eraseLocs_of_locs :
    ∀ {e e' : Expr}, e.eraseLocs = e'.eraseLocs → e.locs = e'.locs → e = e'
  | .mk k l, .mk k' l', hs, hl => by
    -- two shapes that agree have the same constructor: the other pairs close here
    cases k <;> cases k' <;> simp only [Expr.eraseLocs, Expr.locs, Expr.mk.injEq, reduceCtorEq,
      ExprKind.name.injEq, ExprKind.const.injEq, ExprKind.binOp.injEq, ExprKind.unaryOp.injEq,
      ExprKind.call.injEq, ExprKind.attribute.injEq, ExprKind.subscript.injEq,
      ExprKind.list.injEq, ExprKind.tuple.injEq, ExprKind.lambda.injEq, ExprKind.ifExp.injEq,
      ExprKind.done.injEq, List.cons.injEq, and_true] at hs hl ⊢
    case name.name | const.const => exact ⟨hs, hl⟩
    case binOp.binOp =>
      obtain ⟨hop, ha, hb⟩ := hs
      obtain ⟨hla, hlb⟩ := Expr.locs_append_inj ha hl.2
      exact ⟨⟨hop, Expr.eq_of_eraseLocs_of_locs ha hla, Expr.eq_of_eraseLocs_of_locs hb hlb⟩, hl.1⟩
    case unaryOp.unaryOp | lambda.lambda =>
      exact ⟨⟨hs.1, Expr.eq_of_eraseLocs_of_locs hs.2 hl.2⟩, hl.1⟩
    case call.call =>
      obtain ⟨hf, hargs⟩ := hs
      obtain ⟨hlf, hlargs⟩ := Expr.locs_append_inj hf hl.2
      exact ⟨⟨Expr.eq_of_eraseLocs_of_locs hf hlf,
        Expr.eq_of_eraseLocsList_of_locsList hargs hlargs⟩, hl.1⟩
    case attribute.attribute => exact ⟨⟨Expr.eq_of_eraseLocs_of_locs hs.1 hl.2, hs.2⟩, hl.1⟩
    case subscript.subscript =>
      obtain ⟨hv, hi⟩ := hs
      obtain ⟨hlv, hli⟩ := Expr.locs_append_inj hv hl.2
      exact ⟨⟨Expr.eq_of_eraseLocs_of_locs hv hlv, Expr.eq_of_eraseLocs_of_locs hi hli⟩, hl.1⟩
    case list.list | tuple.tuple => exact ⟨Expr.eq_of_eraseLocsList_of_locsList hs hl.2, hl.1⟩
    case ifExp.ifExp =>
      obtain ⟨ht, hb, ho⟩ := hs
      obtain ⟨hlt, hlbo⟩ := Expr.locs_append_inj ht (by simpa only [List.append_assoc] using hl.2)
      obtain ⟨hlb, hlo⟩ := Expr.locs_append_inj hb hlbo
      exact ⟨⟨Expr.eq_of_eraseLocs_of_locs ht hlt, Expr.eq_of_eraseLocs_of_locs hb hlb,
        Expr.eq_of_eraseLocs_of_locs ho hlo⟩, hl.1⟩
    case done.done => exact ⟨Expr.eq_of_eraseLocs_of_locs hs hl.2, hl.1⟩

theorem Expr.eq_of_eraseLocsList_of_locsList :
    ∀ {es es' : List Expr}, Expr.eraseLocsList es = Expr.eraseLocsList es' →
      Expr.locsList es = Expr.locsList es' → es = es'
  | [], [], _, _ => rfl
  | [], _ :: _, hs, _ | _ :: _, [], hs, _ => by simp [Expr.eraseLocsList] at hs
  | e :: es, e' :: es', hs, hl => by
    simp only [Expr.eraseLocsList, List.cons.injEq] at hs
    obtain ⟨hle, hles⟩ := Expr.locs_append_inj hs.1 hl
    rw [Expr.eq_of_eraseLocs_of_locs hs.1 hle, Expr.eq_of_eraseLocsList_of_locsList hs.2 hles]
end


theorem Expr.eq_of_eraseLocsOpt_of_locsOpt {e e' : Option Expr}
    (hs : Expr.eraseLocsOpt e = Expr.eraseLocsOpt e') (hl : Expr.locsOpt e = Expr.locsOpt e') :
    e = e' := by
  cases e <;> cases e' <;> simp only [Expr.eraseLocsOpt, Expr.locsOpt, reduceCtorEq,
    Option.some.injEq] at hs hl ⊢
  exact Expr.eq_of_eraseLocs_of_locs hs hl

mutual
theorem Stmt.eq_of_eraseLocs_of_locs :
    ∀ {s s' : Stmt}, s.eraseLocs = s'.eraseLocs → s.locs = s'.locs → s = s'
  | .mk k l, .mk k' l', hs, hl => by
    -- two shapes that agree have the same constructor: the other pairs close here
    cases k <;> cases k' <;> simp only [Stmt.eraseLocs, Stmt.locs, Stmt.mk.injEq, reduceCtorEq,
      StmtKind.expr.injEq, StmtKind.assign.injEq, StmtKind.importModule.injEq,
      StmtKind.importFrom.injEq, StmtKind.withBlock.injEq, StmtKind.functionDef.injEq,
      StmtKind.classDef.injEq, StmtKind.ret.injEq, StmtKind.ifElse.injEq,
      StmtKind.whileLoop.injEq, StmtKind.forLoop.injEq, StmtKind.assertion.injEq,
      StmtKind.done.injEq, List.cons.injEq, and_true, true_and] at hs hl ⊢
    case expr.expr => exact ⟨Expr.eq_of_eraseLocs_of_locs hs hl.2, hl.1⟩
    case assign.assign =>
      obtain ⟨ht, hv⟩ := hs
      obtain ⟨hlt, hlv⟩ := Expr.locs_append_inj ht hl.2
      exact ⟨⟨Expr.eq_of_eraseLocs_of_locs ht hlt, Expr.eq_of_eraseLocs_of_locs hv hlv⟩, hl.1⟩
    case importModule.importModule | importFrom.importFrom => exact ⟨hs, hl⟩
    case withBlock.withBlock =>
      obtain ⟨hi, ha, hb⟩ := hs
      obtain ⟨hli, hlb⟩ := Expr.locs_append_inj hi hl.2
      exact ⟨⟨Expr.eq_of_eraseLocs_of_locs hi hli, ha,
        Stmt.eq_of_eraseLocsList_of_locsList hb hlb⟩, hl.1⟩
    case functionDef.functionDef =>
      obtain ⟨hn, hps, hb, hds⟩ := hs
      obtain ⟨hlds, hlb⟩ := Expr.locsList_append_inj hds hl.2
      exact ⟨⟨hn, hps, Stmt.eq_of_eraseLocsList_of_locsList hb hlb,
        Expr.eq_of_eraseLocsList_of_locsList hds hlds⟩, hl.1⟩
    case classDef.classDef =>
      obtain ⟨hn, hb, hds⟩ := hs
      obtain ⟨hlds, hlb⟩ := Expr.locsList_append_inj hds hl.2
      exact ⟨⟨hn, Stmt.eq_of_eraseLocsList_of_locsList hb hlb,
        Expr.eq_of_eraseLocsList_of_locsList hds hlds⟩, hl.1⟩
    case ret.ret => exact ⟨Expr.eq_of_eraseLocsOpt_of_locsOpt hs hl.2, hl.1⟩
    case ifElse.ifElse =>
      obtain ⟨ht, hb, ho⟩ := hs
      obtain ⟨hlt, hlbo⟩ := Expr.locs_append_inj ht (by simpa only [List.append_assoc] using hl.2)
      obtain ⟨hlb, hlo⟩ := Stmt.locsList_append_inj hb hlbo
      exact ⟨⟨Expr.eq_of_eraseLocs_of_locs ht hlt, Stmt.eq_of_eraseLocsList_of_locsList hb hlb,
        Stmt.eq_of_eraseLocsList_of_locsList ho hlo⟩, hl.1⟩
    case whileLoop.whileLoop =>
      obtain ⟨ht, hb⟩ := hs
      obtain ⟨hlt, hlb⟩ := Expr.locs_append_inj ht hl.2
      exact ⟨⟨Expr.eq_of_eraseLocs_of_locs ht hlt, Stmt.eq_of_eraseLocsList_of_locsList hb hlb⟩,
        hl.1⟩
    case forLoop.forLoop =>
      obtain ⟨hx, hi, hb⟩ := hs
      obtain ⟨hli, hlb⟩ := Expr.locs_append_inj hi hl.2
      exact ⟨⟨hx, Expr.eq_of_eraseLocs_of_locs hi hli,
        Stmt.eq_of_eraseLocsList_of_locsList hb hlb⟩, hl.1⟩
    case assertion.assertion =>
      obtain ⟨ht, hm⟩ := hs
      obtain ⟨hlt, hlm⟩ := Expr.locs_append_inj ht hl.2
      exact ⟨⟨Expr.eq_of_eraseLocs_of_locs ht hlt, Expr.eq_of_eraseLocsOpt_of_locsOpt hm hlm⟩,
        hl.1⟩
    case pass.pass | breakLoop.breakLoop | continueLoop.continueLoop => exact hl
    case done.done => exact ⟨Stmt.eq_of_eraseLocsList_of_locsList hs hl.2, hl.1⟩

theorem Stmt.eq_of_eraseLocsList_of_locsList :
    ∀ {ss ss' : List Stmt}, Stmt.eraseLocsList ss = Stmt.eraseLocsList ss' →
      Stmt.locsList ss = Stmt.locsList ss' → ss = ss'
  | [], [], _, _ => rfl
  | [], _ :: _, hs, _ | _ :: _, [], hs, _ => by simp [Stmt.eraseLocsList] at hs
  | s :: ss, s' :: ss', hs, hl => by
    simp only [Stmt.eraseLocsList, List.cons.injEq] at hs
    obtain ⟨hls, hlss⟩ := Stmt.locs_append_inj hs.1 hl
    rw [Stmt.eq_of_eraseLocs_of_locs hs.1 hls, Stmt.eq_of_eraseLocsList_of_locsList hs.2 hlss]
end

/-! ## Filling keeps the shape -/

mutual
theorem Expr.eraseLocs_fillLocs (q : Option Loc) :
    ∀ e : Expr, (e.fillLocs q).eraseLocs = e.eraseLocs
  | .mk k l => by
    cases k <;> simp [Expr.fillLocs, Expr.eraseLocs, Expr.eraseLocs_fillLocs,
      Expr.eraseLocsList_fillLocsList]

theorem Expr.eraseLocsList_fillLocsList (q : Option Loc) :
    ∀ es : List Expr, Expr.eraseLocsList (Expr.fillLocsList q es) = Expr.eraseLocsList es
  | [] => rfl
  | e :: es => by
    simp [Expr.fillLocsList, Expr.eraseLocsList, Expr.eraseLocs_fillLocs q e,
      Expr.eraseLocsList_fillLocsList q es]
end

theorem Expr.eraseLocsOpt_fillLocsOpt (q : Option Loc) (e : Option Expr) :
    Expr.eraseLocsOpt (Expr.fillLocsOpt q e) = Expr.eraseLocsOpt e := by
  cases e <;> simp [Expr.fillLocsOpt, Expr.eraseLocsOpt, Expr.eraseLocs_fillLocs]

mutual
theorem Stmt.eraseLocs_fillLocs (q : Option Loc) :
    ∀ s : Stmt, (s.fillLocs q).eraseLocs = s.eraseLocs
  | .mk k l => by
    cases k <;> simp [Stmt.fillLocs, Stmt.eraseLocs, Expr.eraseLocs_fillLocs,
      Expr.eraseLocsList_fillLocsList, Expr.eraseLocsOpt_fillLocsOpt,
      Stmt.eraseLocsList_fillLocsList]

theorem Stmt.eraseLocsList_fillLocsList (q : Option Loc) :
    ∀ ss : List Stmt, Stmt.eraseLocsList (Stmt.fillLocsList q ss) = Stmt.eraseLocsList ss
  | [] => rfl
  | s :: ss => by
    simp [Stmt.fillLocsList, Stmt.eraseLocsList, Stmt.eraseLocs_fillLocs q s,
      Stmt.eraseLocsList_fillLocsList q ss]
end

/-! ## Filling follows the reference rule

The stand-in a subtree is filled from is the nearest location of the ancestors above it, so
the laws are stated for a stand-in `nearestLoc parent above` and any `above`; at the root
`above` is empty and the stand-in is `parent` itself. -/

mutual
theorem Expr.locs_fillLocs (parent : Option Loc) :
    ∀ (above : List (Option Loc)) (e : Expr),
      (e.fillLocs (nearestLoc parent above)).locs = (e.ancestryFrom above).map (nearestLoc parent)
  | above, .mk k l => by
    -- the children are filled from the node's own filled location, which is the stand-in
    -- of the longer ancestry
    have here : (l.orElse fun _ => nearestLoc parent above) = nearestLoc parent (l :: above) :=
      (nearestLoc_cons parent l above).symm
    cases k <;> simp only [Expr.fillLocs, Expr.locs, Expr.ancestryFrom, here, List.map_cons,
      List.map_append, Expr.locs_fillLocs, Expr.locsList_fillLocsList, List.map_nil]

theorem Expr.locsList_fillLocsList (parent : Option Loc) :
    ∀ (above : List (Option Loc)) (es : List Expr),
      Expr.locsList (Expr.fillLocsList (nearestLoc parent above) es) =
        (Expr.ancestryFromList above es).map (nearestLoc parent)
  | _, [] => rfl
  | above, e :: es => by
    simp only [Expr.fillLocsList, Expr.locsList, Expr.ancestryFromList, List.map_append,
      Expr.locs_fillLocs parent above e, Expr.locsList_fillLocsList parent above es]
end

theorem Expr.locsOpt_fillLocsOpt (parent : Option Loc) (above : List (Option Loc))
    (e : Option Expr) :
    Expr.locsOpt (Expr.fillLocsOpt (nearestLoc parent above) e) =
      (Expr.ancestryFromOpt above e).map (nearestLoc parent) := by
  cases e with
  | none => rfl
  | some e => exact Expr.locs_fillLocs parent above e

mutual
theorem Stmt.locs_fillLocs (parent : Option Loc) :
    ∀ (above : List (Option Loc)) (s : Stmt),
      (s.fillLocs (nearestLoc parent above)).locs = (s.ancestryFrom above).map (nearestLoc parent)
  | above, .mk k l => by
    have here : (l.orElse fun _ => nearestLoc parent above) = nearestLoc parent (l :: above) :=
      (nearestLoc_cons parent l above).symm
    cases k <;> simp only [Stmt.fillLocs, Stmt.locs, Stmt.ancestryFrom, here, List.map_cons,
      List.map_append, Expr.locs_fillLocs, Expr.locsList_fillLocsList, Expr.locsOpt_fillLocsOpt,
      Stmt.locsList_fillLocsList, List.map_nil]

theorem Stmt.locsList_fillLocsList (parent : Option Loc) :
    ∀ (above : List (Option Loc)) (ss : List Stmt),
      Stmt.locsList (Stmt.fillLocsList (nearestLoc parent above) ss) =
        (Stmt.ancestryFromList above ss).map (nearestLoc parent)
  | _, [] => rfl
  | above, s :: ss => by
    simp only [Stmt.fillLocsList, Stmt.locsList, Stmt.ancestryFromList, List.map_append,
      Stmt.locs_fillLocs parent above s, Stmt.locsList_fillLocsList parent above ss]
end

theorem Expr.locs_fillLocs_root (parent : Option Loc) (e : Expr) :
    (e.fillLocs parent).locs = e.ancestry.map (nearestLoc parent) :=
  Expr.locs_fillLocs parent [] e

theorem Stmt.locs_fillLocs_root (parent : Option Loc) (s : Stmt) :
    (s.fillLocs parent).locs = s.ancestry.map (nearestLoc parent) :=
  Stmt.locs_fillLocs parent [] s

theorem Stmt.locsList_fillLocsList_root (parent : Option Loc) (ss : List Stmt) :
    Stmt.locsList (Stmt.fillLocsList parent ss) = (Stmt.ancestryList ss).map (nearestLoc parent) :=
  Stmt.locsList_fillLocsList parent [] ss

/-- Filling an expression from `parent` gives the one expression that has its shape and, at
every node, its own location if it had one, else that of its nearest located ancestor, else
`parent`. -/
theorem Expr.fillLocs_reference (parent : Option Loc) (e e' : Expr) :
    e' = e.fillLocs parent ↔
      e'.eraseLocs = e.eraseLocs ∧ e'.locs = e.ancestry.map (nearestLoc parent) := by
  constructor
  · rintro rfl
    exact ⟨Expr.eraseLocs_fillLocs parent e, Expr.locs_fillLocs_root parent e⟩
  · rintro ⟨hs, hl⟩
    apply Expr.eq_of_eraseLocs_of_locs
    · rw [hs, Expr.eraseLocs_fillLocs]
    · rw [hl, Expr.locs_fillLocs_root]

/-- Filling a statement list from `parent` gives the one list that has its shape and, at
every node, its own location if it had one, else that of its nearest located ancestor, else
`parent`. -/
theorem Stmt.fillLocsList_reference (parent : Option Loc) (ss ss' : List Stmt) :
    ss' = Stmt.fillLocsList parent ss ↔
      Stmt.eraseLocsList ss' = Stmt.eraseLocsList ss ∧
        Stmt.locsList ss' = (Stmt.ancestryList ss).map (nearestLoc parent) := by
  constructor
  · rintro rfl
    exact ⟨Stmt.eraseLocsList_fillLocsList parent ss, Stmt.locsList_fillLocsList_root parent ss⟩
  · rintro ⟨hs, hl⟩
    apply Stmt.eq_of_eraseLocsList_of_locsList
    · rw [hs, Stmt.eraseLocsList_fillLocsList]
    · rw [hl, Stmt.locsList_fillLocsList_root]

/-! ## The top level of a module -/

/-- The stand-in of the `i`-th top-level statement: the location the statement before it
has after filling, and `first` for the first statement. -/
def topStandIn (first : Loc) (filled : List Stmt) : Nat → Option Loc
  | 0 => some first
  | i + 1 => filled[i]?.bind Stmt.loc

/-- A filled statement's own location is its old one, or the stand-in. -/
@[simp] theorem Stmt.loc_fillLocs (q : Option Loc) (s : Stmt) :
    (s.fillLocs q).loc = s.loc.orElse fun _ => q := by
  cases s with
  | mk k l => rfl

/-- Past the first statement, the stand-ins of a filled list are those of its tail, whose
first stand-in is the location of the first statement. -/
theorem topStandIn_cons {first : Loc} {s : Stmt} (h : s.loc.isSome) (rest : List Stmt) (i : Nat) :
    topStandIn first (s :: rest) (i + 1) = topStandIn (s.loc.getD first) rest i := by
  cases i with
  | zero =>
    obtain ⟨x, hx⟩ := Option.isSome_iff_exists.mp h
    simp [topStandIn, hx]
  | succ i => rfl

theorem eraseLocsList_fillTopLevel :
    ∀ (previous : Loc) (ss : List Stmt),
      Stmt.eraseLocsList (fillTopLevel previous ss) = Stmt.eraseLocsList ss
  | _, [] => rfl
  | previous, s :: ss => by
    simp [fillTopLevel, Stmt.eraseLocsList, Stmt.eraseLocs_fillLocs, eraseLocsList_fillTopLevel]

/-- Each top-level statement is filled by the reference rule from its stand-in. -/
theorem locs_fillTopLevel :
    ∀ (previous : Loc) (ss : List Stmt) (i : Nat),
      (fillTopLevel previous ss)[i]?.map Stmt.locs =
        ss[i]?.map fun s : Stmt => s.ancestry.map (nearestLoc (topStandIn previous (fillTopLevel previous ss) i))
  | _, [], _ => rfl
  | previous, s :: ss, 0 => by
    simp [fillTopLevel, topStandIn, Stmt.locs_fillLocs_root]
  | previous, s :: ss, i + 1 => by
    -- the first statement is filled from a known location, so it has one
    have known : (s.fillLocs (some previous)).loc.isSome := by
      cases s.loc <;> simp
    simp only [fillTopLevel, List.getElem?_cons_succ, topStandIn_cons known]
    exact locs_fillTopLevel _ ss i

/-- Filling a module leaves no node unlocated, keeps its shape, and fills each top-level
statement by the reference rule, from the filled location of the statement before it or,
for the first, from line 1, column 0. -/
theorem Module.fillLocs_reference (m : Module) :
    Stmt.missingLocsList m.fillLocs.body = [] ∧
      Stmt.eraseLocsList m.fillLocs.body = Stmt.eraseLocsList m.body ∧
      ∀ i, m.fillLocs.body[i]?.map Stmt.locs =
        m.body[i]?.map fun s : Stmt => s.ancestry.map (nearestLoc (topStandIn ⟨1, 0⟩ m.fillLocs.body i)) :=
  ⟨Module.missingLocs_fillLocs m, eraseLocsList_fillTopLevel _ _, locs_fillTopLevel _ _⟩

/-- Location filling meets its reference rule on expressions, statement lists and modules. -/
theorem fillLocs_meets_reference :
    (∀ (parent : Option Loc) (e e' : Expr), e' = e.fillLocs parent ↔
      e'.eraseLocs = e.eraseLocs ∧ e'.locs = e.ancestry.map (nearestLoc parent)) ∧
    (∀ (parent : Option Loc) (ss ss' : List Stmt), ss' = Stmt.fillLocsList parent ss ↔
      Stmt.eraseLocsList ss' = Stmt.eraseLocsList ss ∧
        Stmt.locsList ss' = (Stmt.ancestryList ss).map (nearestLoc parent)) ∧
    (∀ m : Module,
      Stmt.missingLocsList m.fillLocs.body = [] ∧
        Stmt.eraseLocsList m.fillLocs.body = Stmt.eraseLocsList m.body ∧
        ∀ i, m.fillLocs.body[i]?.map Stmt.locs =
          m.body[i]?.map fun s : Stmt =>
            s.ancestry.map (nearestLoc (topStandIn ⟨1, 0⟩ m.fillLocs.body i))) :=
  ⟨Expr.fillLocs_reference, Stmt.fillLocsList_reference, Module.fillLocs_reference⟩

end Espalier
