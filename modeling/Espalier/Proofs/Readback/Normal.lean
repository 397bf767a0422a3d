import Espalier.Proofs.Syntax.Tokens

/-!
# Printable trees and their normal form

`unparseModule` writes every tree, but reading the text back can only give back some trees.
Every name it writes must be an identifier of the grammar and no expansion marker may be left
(`Stmt.printable`, `Module.printable`). Even then, reading cannot restore what printing forgets:
locations, whether `-5` was a negative constant or a negated one, and whether an empty body was
empty or held `pass`.

`Expr.canon` and `Stmt.canon` forget exactly that: every location, every negative integer
literal (written as the negation of its magnitude), and every empty body (written as `pass`).
Printing a tree and printing its normal form give the same text (`Expr.print_canon`,
`unparseModule_canon`), so two trees with one normal form print alike.
-/

namespace Espalier

open Syntax

/-- A module name as an import writes it: identifiers separated by dots. -/
def isDottedName (m : String) : Bool :=
  (m.toList.splitOn '.').all fun part => Syntax.isIdentifier (String.ofList part)

mutual
/-- Every name in the expression is an identifier, and no marker is left in it. -/
def Expr.printable : Expr → Bool
  | .mk k _ =>
    match k with
    | .name id => Syntax.isIdentifier id
    | .const _ => true
    | .binOp _ l r => l.printable && r.printable
    | .unaryOp _ e => e.printable
    | .call f args => f.printable && Expr.printableList args
    | .attribute v a => v.printable && Syntax.isIdentifier a
    | .subscript v i => v.printable && i.printable
    | .list items => Expr.printableList items
    | .tuple items => Expr.printableList items
    | .lambda ps b => ps.all Syntax.isIdentifier && b.printable
    | .ifExp t b o => t.printable && b.printable && o.printable
    | .done _ => false

/-- Every expression of the list is printable. -/
def Expr.printableList : List Expr → Bool
  | [] => true
  | e :: es => e.printable && Expr.printableList es
end

/-- An import alias whose names are identifiers. -/
def Alias.printable (a : Alias) : Bool :=
  Syntax.isIdentifier a.name && a.asname.all Syntax.isIdentifier

mutual
/-- Every name in the statement is an identifier (of a module, each dotted part), and no
marker is left in it. -/
def Stmt.printable : Stmt → Bool
  | .mk k _ =>
    match k with
    | .expr v => v.printable
    | .assign t v => t.printable && v.printable
    | .importModule m a => isDottedName m && a.all Syntax.isIdentifier
    | .importFrom m _ ns => m.all isDottedName && ns.all Alias.printable
    | .withBlock i a b => i.printable && a.all Syntax.isIdentifier && Stmt.printableList b
    | .functionDef n ps b ds =>
        Syntax.isIdentifier n && ps.all Syntax.isIdentifier && Stmt.printableList b &&
          Expr.printableList ds
    | .classDef n b ds => Syntax.isIdentifier n && Stmt.printableList b && Expr.printableList ds
    | .ret v => v.all Expr.printable
    | .ifElse t b o => t.printable && Stmt.printableList b && Stmt.printableList o
    | .whileLoop t b => t.printable && Stmt.printableList b
    | .forLoop x i b => Syntax.isIdentifier x && i.printable && Stmt.printableList b
    | .assertion t m => t.printable && m.all Expr.printable
    | .pass | .breakLoop | .continueLoop => true
    | .done _ => false

/-- Every statement of the list is printable. -/
def Stmt.printableList : List Stmt → Bool
  | [] => true
  | s :: ss => s.printable && Stmt.printableList ss
end

/-- A module whose statements are printable. -/
def Module.printable (m : Module) : Bool := Stmt.printableList m.body

/-! ## Normal forms -/

mutual
/-- The normal form of an expression: no locations, and a negative integer literal written as
the negation of its magnitude. -/
def Expr.canon : Expr → Expr
  | .mk k _ =>
    match k with
    | .name id => .mk (.name id) none
    | .const (.int n) =>
        if n < 0 then .mk (.unaryOp .neg (.mk (.const (.int (-n))) none)) none
        else .mk (.const (.int n)) none
    | .const c => .mk (.const c) none
    | .binOp op l r => .mk (.binOp op l.canon r.canon) none
    | .unaryOp op e => .mk (.unaryOp op e.canon) none
    | .call f args => .mk (.call f.canon (Expr.canonList args)) none
    | .attribute v a => .mk (.attribute v.canon a) none
    | .subscript v i => .mk (.subscript v.canon i.canon) none
    | .list items => .mk (.list (Expr.canonList items)) none
    | .tuple items => .mk (.tuple (Expr.canonList items)) none
    | .lambda ps b => .mk (.lambda ps b.canon) none
    | .ifExp t b o => .mk (.ifExp t.canon b.canon o.canon) none
    | .done inner => .mk (.done inner.canon) none

/-- The normal form of each expression of a list. -/
def Expr.canonList : List Expr → List Expr
  | [] => []
  | e :: es => e.canon :: Expr.canonList es
end

/-- A body as printing writes it: an empty one holds `pass`. -/
def padPass : List Stmt → List Stmt
  | [] => [.mk .pass none]
  | ss => ss

mutual
/-- The normal form of a statement: no locations, expressions in normal form, and `pass` in
every empty body. An empty `else` branch stays empty: printing writes nothing for it. -/
def Stmt.canon : Stmt → Stmt
  | .mk k _ =>
    match k with
    | .expr v => .mk (.expr v.canon) none
    | .assign t v => .mk (.assign t.canon v.canon) none
    | .importModule m a => .mk (.importModule m a) none
    | .importFrom m lvl ns => .mk (.importFrom m lvl ns) none
    | .withBlock i a b => .mk (.withBlock i.canon a (padPass (Stmt.canonList b))) none
    | .functionDef n ps b ds =>
        .mk (.functionDef n ps (padPass (Stmt.canonList b)) (Expr.canonList ds)) none
    | .classDef n b ds => .mk (.classDef n (padPass (Stmt.canonList b)) (Expr.canonList ds)) none
    | .ret v => .mk (.ret (v.map Expr.canon)) none
    | .ifElse t b o => .mk (.ifElse t.canon (padPass (Stmt.canonList b)) (Stmt.canonList o)) none
    | .whileLoop t b => .mk (.whileLoop t.canon (padPass (Stmt.canonList b))) none
    | .forLoop x i b => .mk (.forLoop x i.canon (padPass (Stmt.canonList b))) none
    | .assertion t m => .mk (.assertion t.canon (m.map Expr.canon)) none
    | .pass => .mk .pass none
    | .breakLoop => .mk .breakLoop none
    | .continueLoop => .mk .continueLoop none
    | .done ss => .mk (.done (Stmt.canonList ss)) none

/-- The normal form of each statement of a list. -/
def Stmt.canonList : List Stmt → List Stmt
  | [] => []
  | s :: ss => s.canon :: Stmt.canonList ss
end

/-- The normal form of a module: its statements in normal form, `pass` if there are none. -/
def Module.canon (m : Module) : Module := ⟨padPass (Stmt.canonList m.body)⟩

/-! ## Printing forgets what the normal form forgets -/

theorem toString_of_neg {n : Int} (h : n < 0) : toString n = "-" ++ toString (-n) := by
  obtain ⟨m, rfl⟩ : ∃ m : Nat, n = Int.negSucc m := by
    cases n with
    | ofNat k => exact absurd h (by simp)
    | negSucc m => exact ⟨m, rfl⟩
  rfl

/-- A node that is not an expansion marker. -/
def Expr.NotMarker (e : Expr) : Prop := ∀ inner l, e ≠ .mk (.done inner) l

theorem Expr.print_eq_wrap {e : Expr} (he : e.NotMarker) (q : Nat) :
    e.print q = if e.prec < q then "(" ++ e.print 0 ++ ")" else e.print 0 := by
  obtain ⟨k, l⟩ := e
  cases k with
  | done inner => exact absurd rfl (he inner l)
  | _ => simp only [Expr.print, Nat.not_lt_zero, if_false]

theorem Expr.print_eq_of_text {e e' : Expr} (he : e.NotMarker) (he' : e'.NotMarker)
    (hp : e.prec = e'.prec) (ht : e.print 0 = e'.print 0) (q : Nat) : e.print q = e'.print q := by
  rw [Expr.print_eq_wrap he, Expr.print_eq_wrap he', hp, ht]

theorem Expr.prec_canon : ∀ e : Expr, e.canon.prec = e.prec
  | .mk (.const (.int n)) l => by
    by_cases h : n < 0
    · simp [Expr.canon, Expr.prec, h]
    · simp [Expr.canon, Expr.prec, h]
  | .mk (.done inner) l => by simp [Expr.canon, Expr.prec, Expr.prec_canon inner]
  | .mk (.name _) _ | .mk (.const .none) _ | .mk (.const (.bool _)) _ | .mk (.const (.str _)) _
  | .mk (.binOp ..) _ | .mk (.call ..) _ | .mk (.attribute ..) _ | .mk (.subscript ..) _
  | .mk (.list _) _ | .mk (.tuple _) _ | .mk (.lambda ..) _ | .mk (.ifExp ..) _ => by
    simp [Expr.canon, Expr.prec]
  | .mk (.unaryOp op _) _ => by cases op <;> simp [Expr.canon, Expr.prec]

theorem Expr.length_canonList : ∀ es : List Expr, (Expr.canonList es).length = es.length := by
  intro es
  induction es with
  | nil => rfl
  | cons _ es ih => simp [Expr.canonList, ih]

theorem Expr.NotMarker.canon {e : Expr} (he : e.NotMarker) : e.canon.NotMarker := by
  obtain ⟨k, l⟩ := e
  intro inner l' h
  cases k with
  | done inner => exact he inner l rfl
  | const c =>
    cases c with
    | int n => by_cases hn : n < 0 <;> simp [Expr.canon, hn] at h
    | _ => simp [Expr.canon] at h
  | _ => simp [Expr.canon] at h

mutual
theorem Expr.print_canon : ∀ (e : Expr) (q : Nat), e.canon.print q = e.print q
  | .mk (.done inner) l, q => by
    have hp := Expr.prec_canon (.mk (.done inner) l)
    simp only [Expr.canon] at hp ⊢
    rw [Expr.print.eq_12, Expr.print.eq_12, hp, Expr.print_canon inner]
  | .mk (.name _) _, q | .mk (.const .none) _, q | .mk (.const (.bool _)) _, q
  | .mk (.const (.str _)) _, q =>
    Expr.print_eq_of_text (Expr.NotMarker.canon (by simp [Expr.NotMarker])) (by simp [Expr.NotMarker])
      (Expr.prec_canon _) (by simp [Expr.canon, Expr.print]) q
  | .mk (.const (.int n)) _, q =>
    Expr.print_eq_of_text (Expr.NotMarker.canon (by simp [Expr.NotMarker])) (by simp [Expr.NotMarker])
      (Expr.prec_canon _) (by
        by_cases h : n < 0
        · have h' : ¬ 0 < n := by omega
          simp [Expr.canon, Expr.print, Expr.prec, h, h', Constant.print, UnaryOp.symbol,
            toString_of_neg h]
        · simp [Expr.canon, Expr.print, h]) q
  | .mk (.binOp op a b) _, q =>
    Expr.print_eq_of_text (Expr.NotMarker.canon (by simp [Expr.NotMarker])) (by simp [Expr.NotMarker])
      (Expr.prec_canon _) (by simp [Expr.canon, Expr.print, Expr.print_canon a, Expr.print_canon b]) q
  | .mk (.unaryOp op a) _, q =>
    Expr.print_eq_of_text (Expr.NotMarker.canon (by simp [Expr.NotMarker])) (by simp [Expr.NotMarker])
      (Expr.prec_canon _) (by simp [Expr.canon, Expr.print, Expr.print_canon a]) q
  | .mk (.call f args) _, q =>
    Expr.print_eq_of_text (Expr.NotMarker.canon (by simp [Expr.NotMarker])) (by simp [Expr.NotMarker])
      (Expr.prec_canon _) (by simp [Expr.canon, Expr.print, Expr.print_canon f, Expr.printList_canon args]) q
  | .mk (.attribute v a) _, q =>
    Expr.print_eq_of_text (Expr.NotMarker.canon (by simp [Expr.NotMarker])) (by simp [Expr.NotMarker])
      (Expr.prec_canon _) (by simp [Expr.canon, Expr.print, Expr.print_canon v]) q
  | .mk (.subscript v i) _, q =>
    Expr.print_eq_of_text (Expr.NotMarker.canon (by simp [Expr.NotMarker])) (by simp [Expr.NotMarker])
      (Expr.prec_canon _) (by simp [Expr.canon, Expr.print, Expr.print_canon v, Expr.print_canon i]) q
  | .mk (.list items) _, q =>
    Expr.print_eq_of_text (Expr.NotMarker.canon (by simp [Expr.NotMarker])) (by simp [Expr.NotMarker])
      (Expr.prec_canon _) (by simp [Expr.canon, Expr.print, Expr.printList_canon items]) q
  | .mk (.tuple items) _, q =>
    Expr.print_eq_of_text (Expr.NotMarker.canon (by simp [Expr.NotMarker])) (by simp [Expr.NotMarker])
      (Expr.prec_canon _) (by simp [Expr.canon, Expr.print, Expr.printList_canon items,
        Expr.length_canonList]) q
  | .mk (.lambda ps b) _, q =>
    Expr.print_eq_of_text (Expr.NotMarker.canon (by simp [Expr.NotMarker])) (by simp [Expr.NotMarker])
      (Expr.prec_canon _) (by simp [Expr.canon, Expr.print, Expr.print_canon b]) q
  | .mk (.ifExp t b o) _, q =>
    Expr.print_eq_of_text (Expr.NotMarker.canon (by simp [Expr.NotMarker])) (by simp [Expr.NotMarker])
      (Expr.prec_canon _) (by simp [Expr.canon, Expr.print, Expr.print_canon t, Expr.print_canon b,
        Expr.print_canon o]) q

theorem Expr.printList_canon : ∀ es : List Expr, Expr.printList (Expr.canonList es) = Expr.printList es
  | [] => rfl
  | [e] => by simp [Expr.canonList, Expr.printList, Expr.print_canon e]
  | e :: e' :: es => by
    rw [Expr.canonList, Expr.printList.eq_3 _ _ (by simp [Expr.canonList]),
      Expr.printList.eq_3 _ _ (by simp), Expr.print_canon e, Expr.printList_canon (e' :: es)]
end

theorem unparseExpr_canon (e : Expr) : unparseExpr e.canon = unparseExpr e := Expr.print_canon e 0

theorem Stmt.decoratorLines_canon (d : Nat) : ∀ ds : List Expr,
    Stmt.decoratorLines d (Expr.canonList ds) = Stmt.decoratorLines d ds := by
  intro ds
  induction ds with
  | nil => rfl
  | cons e ds ih => simp [Expr.canonList, Stmt.decoratorLines, unparseExpr_canon, ih]

/-- A body prints alike once its statements do, `pass` standing in for an empty one. -/
theorem Stmt.block_padPass {d : Nat} {ss : List Stmt}
    (h : Stmt.seqLines d (Stmt.canonList ss) = Stmt.seqLines d ss) :
    Stmt.block d (padPass (Stmt.canonList ss)) = Stmt.block d ss := by
  cases ss with
  | nil => simp [Stmt.canonList, padPass, Stmt.block, Stmt.seqLines, Stmt.lines]
  | cons s ss =>
    rw [show padPass (Stmt.canonList (s :: ss)) = Stmt.canonList (s :: ss) by
      simp [Stmt.canonList, padPass], Stmt.block, Stmt.block, h]

theorem Stmt.block_canonList {d : Nat} {ss : List Stmt}
    (h : Stmt.seqLines d (Stmt.canonList ss) = Stmt.seqLines d ss) :
    Stmt.block d (Stmt.canonList ss) = Stmt.block d ss := by
  rw [Stmt.block, Stmt.block, h]

mutual
theorem Stmt.lines_canon : ∀ (s : Stmt) (d : Nat), s.canon.lines d = s.lines d
  | .mk (.expr v) _, d => by simp [Stmt.canon, Stmt.lines, unparseExpr_canon]
  | .mk (.assign t v) _, d => by simp [Stmt.canon, Stmt.lines, unparseExpr_canon]
  | .mk (.importModule _ none) _, d | .mk (.importModule _ (some _)) _, d
  | .mk (.importFrom ..) _, d | .mk .pass _, d
  | .mk .breakLoop _, d | .mk .continueLoop _, d => by simp [Stmt.canon, Stmt.lines]
  | .mk (.withBlock i none b) _, d | .mk (.withBlock i (some _) b) _, d => by
    simp [Stmt.canon, Stmt.lines, unparseExpr_canon, Stmt.block_padPass (Stmt.seqLines_canon b (d + 1))]
  | .mk (.functionDef n ps b ds) _, d => by
    simp [Stmt.canon, Stmt.lines, Stmt.decoratorLines_canon,
      Stmt.block_padPass (Stmt.seqLines_canon b (d + 1))]
  | .mk (.classDef n b ds) _, d => by
    simp [Stmt.canon, Stmt.lines, Stmt.decoratorLines_canon,
      Stmt.block_padPass (Stmt.seqLines_canon b (d + 1))]
  | .mk (.ret none) _, d => by simp [Stmt.canon, Stmt.lines]
  | .mk (.ret (some v)) _, d => by simp [Stmt.canon, Stmt.lines, unparseExpr_canon]
  | .mk (.ifElse t b o) _, d => by
    simp [Stmt.canon, Stmt.lines, unparseExpr_canon, Stmt.block_padPass (Stmt.seqLines_canon b (d + 1)),
      Stmt.orelse_canon o d]
  | .mk (.whileLoop t b) _, d => by
    simp [Stmt.canon, Stmt.lines, unparseExpr_canon, Stmt.block_padPass (Stmt.seqLines_canon b (d + 1))]
  | .mk (.forLoop x i b) _, d => by
    simp [Stmt.canon, Stmt.lines, unparseExpr_canon, Stmt.block_padPass (Stmt.seqLines_canon b (d + 1))]
  | .mk (.assertion t none) _, d => by simp [Stmt.canon, Stmt.lines, unparseExpr_canon]
  | .mk (.assertion t (some m)) _, d => by simp [Stmt.canon, Stmt.lines, unparseExpr_canon]
  | .mk (.done ss) _, d => by simp [Stmt.canon, Stmt.lines, Stmt.seqLines_canon ss d]

theorem Stmt.seqLines_canon : ∀ (ss : List Stmt) (d : Nat),
    Stmt.seqLines d (Stmt.canonList ss) = Stmt.seqLines d ss
  | [], _ => rfl
  | s :: ss, d => by
    simp [Stmt.canonList, Stmt.seqLines, Stmt.lines_canon s d, Stmt.seqLines_canon ss d]

theorem Stmt.orelse_canon : ∀ (o : List Stmt) (d : Nat),
    Stmt.orelse d (Stmt.canonList o) = Stmt.orelse d o
  | [], _ => rfl
  | [.mk (.ifElse t b o) _], d => by
    simp [Stmt.canonList, Stmt.canon, Stmt.orelse, unparseExpr_canon,
      Stmt.block_padPass (Stmt.seqLines_canon b (d + 1)), Stmt.orelse_canon o d]
  | s :: s' :: rest, d => by
    rw [Stmt.orelse.eq_3 _ _ (by simp [Stmt.canonList]) (by simp [Stmt.canonList]),
      Stmt.orelse.eq_3 _ _ (by simp) (by simp),
      Stmt.block_canonList (Stmt.seqLines_canon (s :: s' :: rest) (d + 1))]
  | [.mk (.expr _) _], d | [.mk (.assign ..) _], d | [.mk (.importModule ..) _], d
  | [.mk (.importFrom ..) _], d | [.mk (.withBlock ..) _], d | [.mk (.functionDef ..) _], d
  | [.mk (.classDef ..) _], d | [.mk (.ret _) _], d | [.mk (.whileLoop ..) _], d
  | [.mk (.forLoop ..) _], d | [.mk (.assertion ..) _], d | [.mk .pass _], d
  | [.mk .breakLoop _], d | [.mk .continueLoop _], d | [.mk (.done _) _], d => by
    rw [Stmt.orelse.eq_3 _ _ (by simp [Stmt.canonList]) (by simp [Stmt.canonList, Stmt.canon]),
      Stmt.orelse.eq_3 _ _ (by simp) (by simp),
      Stmt.block_canonList (Stmt.seqLines_canon _ (d + 1))]
end

theorem unparseModule_canon (m : Module) : unparseModule m.canon = unparseModule m := by
  simp only [unparseModule, unparseStmts, Module.canon,
    Stmt.block_padPass (Stmt.seqLines_canon m.body 0)]

end Espalier
