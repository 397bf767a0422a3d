import Espalier.Splice

/-!
# Where splicing puts each statement

`spliceDialect body template tag` wraps a module body in a dialect template. The code does
its list surgery with one walk, `Stmt.replaceWhereList`, that rewrites a statement list and
hands back what it took out. This module reads that walk through two views said on their
own:

* `Stmt.nodesList ss`, every statement of `ss` at any depth in pre-order, so that "the
  statements `p` picks, at any depth, in source order" is `(Stmt.nodesList ss).filter p`;
* `Stmt.substList p r ss`, the statements with every statement that `p` picks, at any
  depth, replaced by `r`, which is not searched again.

`Stmt.replaceWhereList_eq`: when `p` picks only statements without bodies (macro-imports
and paste markers are such), the walk is the pair of these two views.

Main statement, `spliceDialect_layout`: for a non-empty body and template, with `t₁` the
template moved to the first body statement's location, `D` the body's docstring, `A` its
top-level `__all__` assignments, `b₁` the rest, and `t₂`, `b₂` the two lists with their
macro-imports taken out at any depth, splicing fails exactly when `b₂` is empty, or when
`t₂` is not empty and holds no paste marker at any depth; otherwise it gives
`D ++ A ++ (macro-imports of t₁) ++ (macro-imports of b₁) ++ S`, where `S` is `b₂` for an
empty `t₂` and otherwise `t₂` with every marker replaced by `b₂`.
-/

namespace Espalier

/-! ## Two views of a statement list -/

mutual
/-- Every statement of `s` at any depth, in pre-order: each statement before the statements
of its bodies, an `if` body before its `else` branch. -/
def Stmt.nodes : Stmt → List Stmt
  | .mk k l => .mk k l :: match k with
    | .withBlock _ _ b | .functionDef _ _ b _ | .classDef _ b _ | .whileLoop _ b
    | .forLoop _ _ b | .done b => Stmt.nodesList b
    | .ifElse _ b o => Stmt.nodesList b ++ Stmt.nodesList o
    | _ => []

/-- Every statement of a list at any depth, in pre-order. -/
def Stmt.nodesList : List Stmt → List Stmt
  | [] => []
  | s :: ss => s.nodes ++ Stmt.nodesList ss
end

mutual
/-- `s` with every statement that `p` picks, at any depth, replaced by the statements `r`;
a picked statement is not searched further, and neither is `r`. -/
def Stmt.subst (p : Stmt → Bool) (r : List Stmt) : Stmt → List Stmt
  | .mk k l =>
    if p (.mk k l) then r else
    let k' := match k with
      | .withBlock i a b => .withBlock i a (Stmt.substList p r b)
      | .functionDef n ps b ds => .functionDef n ps (Stmt.substList p r b) ds
      | .classDef n b ds => .classDef n (Stmt.substList p r b) ds
      | .ifElse t b o => .ifElse t (Stmt.substList p r b) (Stmt.substList p r o)
      | .whileLoop t b => .whileLoop t (Stmt.substList p r b)
      | .forLoop x i b => .forLoop x i (Stmt.substList p r b)
      | .done b => .done (Stmt.substList p r b)
      | k => k
    [.mk k' l]

/-- `Stmt.subst` over a statement list. -/
def Stmt.substList (p : Stmt → Bool) (r : List Stmt) : List Stmt → List Stmt
  | [] => []
  | s :: ss => s.subst p r ++ Stmt.substList p r ss
end

@[simp] theorem Stmt.nodesList_nil : Stmt.nodesList [] = [] := by simp [Stmt.nodesList]

@[simp] theorem Stmt.nodesList_cons (s : Stmt) (ss : List Stmt) :
    Stmt.nodesList (s :: ss) = s.nodes ++ Stmt.nodesList ss := by simp [Stmt.nodesList]

@[simp] theorem Stmt.substList_nil (p : Stmt → Bool) (r : List Stmt) :
    Stmt.substList p r [] = [] := by simp [Stmt.substList]

@[simp] theorem Stmt.substList_cons (p : Stmt → Bool) (r : List Stmt) (s : Stmt) (ss : List Stmt) :
    Stmt.substList p r (s :: ss) = s.subst p r ++ Stmt.substList p r ss := by
  simp [Stmt.substList]

/-! ## The walk is the two views -/

section Walk
variable {p : Stmt → Bool} {r : List Stmt}

mutual
/-- When `p` picks only statements without bodies, the walk of `Stmt.replaceWhere` gives the
substitution and the picked statements in pre-order. -/
theorem Stmt.replaceWhere_eq (hp : ∀ s, p s = true → s.nodes = [s]) :
    ∀ s : Stmt, s.replaceWhere p r = (s.subst p r, s.nodes.filter p)
  | .mk k l => by
    unfold Stmt.replaceWhere Stmt.subst
    by_cases hs : p (.mk k l) = true
    · rw [if_pos hs, if_pos hs, hp _ hs]
      simp [hs]
    · -- an unpicked statement keeps its place and hands the walk on to its bodies
      rw [if_neg hs, if_neg hs]
      cases k <;> simp only [Stmt.replaceWhereList_eq hp, Stmt.nodes, List.filter_cons, hs,
        List.filter_append] <;> simp

/-- `Stmt.replaceWhere_eq` over a statement list. -/
theorem Stmt.replaceWhereList_eq (hp : ∀ s, p s = true → s.nodes = [s]) :
    ∀ ss : List Stmt,
      Stmt.replaceWhereList p r ss = (Stmt.substList p r ss, (Stmt.nodesList ss).filter p)
  | [] => by simp [Stmt.replaceWhereList]
  | s :: ss => by
    unfold Stmt.replaceWhereList
    rw [Stmt.replaceWhere_eq hp s, Stmt.replaceWhereList_eq hp ss]
    simp [List.filter_append]
end

end Walk

theorem Stmt.nodes_of_isPasteMarker {tag : String} {s : Stmt} (h : s.isPasteMarker tag = true) :
    s.nodes = [s] := by
  obtain ⟨k, l⟩ := s
  cases k <;> simp_all [Stmt.isPasteMarker, Stmt.nodes]

theorem Stmt.nodes_of_isMagicImport {magic : String} {s : Stmt}
    (h : s.isMagicImport magic = true) : s.nodes = [s] := by
  obtain ⟨k, l⟩ := s
  cases k <;> simp_all [Stmt.isMagicImport, Stmt.nodes]

/-! ## Splicing -/

/-- Pasting a body into a template: an empty body fails, an empty template gives the body,
and otherwise every marker of the template, at any depth, is replaced by the body, which
fails when there is no marker at all. -/
theorem spliceStatements_eq (body template : List Stmt) (tag : String) :
    spliceStatements body template tag =
      if body = [] then .error emptyBodyError
      else if template = [] then .ok body
      else if ∀ s ∈ Stmt.nodesList template, s.isPasteMarker tag = false then
        .error (.plain .internalError ("splice template has no '" ++ tag ++ "' marker"))
      else .ok (Stmt.substList (Stmt.isPasteMarker tag) body template) := by
  unfold spliceStatements
  rw [Stmt.replaceWhereList_eq fun _ => Stmt.nodes_of_isPasteMarker]
  simp [List.filter_eq_nil_iff]

/-- Where splicing a module body `first :: rest` into a dialect template `t₀ :: ts` puts each
statement, and when it fails. -/
theorem spliceDialect_layout (first : Stmt) (rest : List Stmt) (t₀ : Stmt) (ts : List Stmt)
    (tag : String) :
    let isMacroImport := Stmt.isMagicImport macrosMagic
    let t₁ := (t₀ :: ts).map fun s => (Stmt.mk s.kind first.loc).fillLocs first.loc
    let D := [first].filter Stmt.isDocstring
    let remaining := (first :: rest).drop D.length
    let A := remaining.filter Stmt.isExportList
    let b₁ := remaining.filter fun s => !s.isExportList
    let t₂ := Stmt.substList isMacroImport [] t₁
    let b₂ := Stmt.substList isMacroImport [] b₁
    spliceDialect (first :: rest) (t₀ :: ts) tag =
      if b₂ = [] then .error emptyBodyError
      else if t₂ ≠ [] ∧ ∀ s ∈ Stmt.nodesList t₂, s.isPasteMarker tag = false then
        .error (.plain .internalError ("splice template has no '" ++ tag ++ "' marker"))
      else .ok (D ++ A ++ (Stmt.nodesList t₁).filter isMacroImport ++
        (Stmt.nodesList b₁).filter isMacroImport ++
        if t₂ = [] then b₂ else Stmt.substList (Stmt.isPasteMarker tag) b₂ t₂) := by
  intro isMacroImport t₁ D remaining A b₁ t₂ b₂
  have hleaf : ∀ s, isMacroImport s = true → s.nodes = [s] := fun _ => Stmt.nodes_of_isMagicImport
  have hdoc : (if first.isDocstring then ([first], rest) else ([], first :: rest)) =
      (D, remaining) := by
    by_cases h : first.isDocstring <;> simp [D, remaining, h]
  unfold spliceDialect
  simp only [List.isEmpty_cons, Bool.false_eq_true, if_false]
  rw [hdoc, List.partition_eq_filter_filter]
  dsimp only
  rw [takeMacroImports, takeMacroImports, Stmt.replaceWhereList_eq hleaf,
    Stmt.replaceWhereList_eq hleaf]
  change (D ++ A ++ (Stmt.nodesList t₁).filter isMacroImport ++
    (Stmt.nodesList b₁).filter isMacroImport ++ ·) <$> spliceStatements b₂ t₂ tag = _
  rw [spliceStatements_eq]
  -- the pasting step decides the outcome: empty body, empty template, no marker, or a paste
  by_cases hb : b₂ = []
  · rw [if_pos hb, if_pos hb]
    rfl
  rw [if_neg hb, if_neg hb]
  by_cases ht : t₂ = []
  · rw [if_pos ht, if_neg (fun h => h.1 ht), if_pos ht]
    rfl
  rw [if_neg ht, if_neg ht]
  by_cases hm : ∀ s ∈ Stmt.nodesList t₂, s.isPasteMarker tag = false
  · rw [if_pos hm, if_pos ⟨ht, hm⟩]
    rfl
  · rw [if_neg hm, if_neg fun h => hm h.2]
    rfl

end Espalier
