import Mathlib
import Espalier.Macro.Collect
import Espalier.Syntax.Walk

/-!
# The inventory of invocations

`Tree.collect` sorts and deduplicates the pairs that `Expr.invocations` and
`Stmt.invocationsList` find in visiting order; as a set it is exactly what they find.
The detectors of `Espalier.Macro.Basic` each report a pair that the inventory holds; every
pair of the inventory names a bound macro, a name macro for name invocations; and the
inventory looks at names and shapes only, so filling in locations does not change it.
-/

namespace Espalier

variable {M : Type} (b : Bindings M) (isNameMacro : M → Bool)

/-! ## The inventory as a set -/

theorem mem_dedupInvocations {x : String × Shape} :
    ∀ l : List (String × Shape), x ∈ dedupInvocations l ↔ x ∈ l
  | [] => Iff.rfl
  | [_] => Iff.rfl
  | y :: z :: rest => by
    have ih := mem_dedupInvocations (x := x) (z :: rest)
    -- a repeated neighbour is dropped, and it is still in the list through its twin
    unfold dedupInvocations
    split
    · rename_i hyz
      have : y = z := by simpa using hyz
      subst this
      simp [ih]
    · simp [ih]

theorem mem_collect_expr {x : String × Shape} {e : Expr} :
    x ∈ Tree.collect b isNameMacro (.expr e) ↔ x ∈ e.invocations b isNameMacro := by
  simp [Tree.collect, mem_dedupInvocations]

theorem mem_collect_stmts {x : String × Shape} {ss : List Stmt} :
    x ∈ Tree.collect b isNameMacro (.stmts ss) ↔ x ∈ Stmt.invocationsList b isNameMacro ss := by
  simp [Tree.collect, mem_dedupInvocations]

theorem Stmt.invocationsList_append (ss ts : List Stmt) :
    Stmt.invocationsList b isNameMacro (ss ++ ts) =
      Stmt.invocationsList b isNameMacro ss ++ Stmt.invocationsList b isNameMacro ts := by
  induction ss with
  | nil => rfl
  | cons s ss ih => simp [Stmt.invocationsList, ih]

theorem collect_expr_eq_nil {e : Expr} :
    Tree.collect b isNameMacro (.expr e) = [] ↔ e.invocations b isNameMacro = [] := by
  simp only [List.eq_nil_iff_forall_not_mem, mem_collect_expr]

theorem collect_stmts_eq_nil {ss : List Stmt} :
    Tree.collect b isNameMacro (.stmts ss) = [] ↔ Stmt.invocationsList b isNameMacro ss = [] := by
  simp only [List.eq_nil_iff_forall_not_mem, mem_collect_stmts]

/-! ## Bound names -/

theorem Bindings.isBound_iff_get? {n : String} : b.isBound n = true ↔ ∃ m, b.get? n = some m := by
  simp only [Bindings.isBound, Bindings.get?, Option.map_eq_some_iff, List.any_eq_true]
  constructor
  · rintro ⟨x, hx, hxn⟩
    obtain ⟨y, hy⟩ := Option.isSome_iff_exists.mp
      (List.find?_isSome.mpr ⟨x, hx, hxn⟩ : (b.entries.find? (·.1 == n)).isSome)
    exact ⟨y.2, y, hy, rfl⟩
  · rintro ⟨_, y, hy, _⟩
    exact ⟨y, List.mem_of_find?_eq_some hy, by simpa using List.find?_some hy⟩

/-! ## The detectors report pairs of the inventory -/

theorem exprInvocation_mem {e : Expr} {n : String} (h : exprInvocation? b e = some n) :
    (n, Shape.expr) ∈ e.invocations b isNameMacro := by
  match e, h with
  | .mk (.subscript (.mk (.name _) _) _) _, h => simp [Expr.invocations, h]

theorem nameInvocation_mem {e : Expr} {n : String} (h : nameInvocation? b isNameMacro e = some n) :
    (n, Shape.name) ∈ e.invocations b isNameMacro := by
  match e, h with
  | .mk (.name _) _, h => simp [Expr.invocations, h]

theorem blockInvocation_mem {s : Stmt} {n : String} (h : blockInvocation? b s = some n) :
    (n, Shape.block) ∈ s.invocations b isNameMacro := by
  match s, h with
  | .mk (.withBlock (.mk (.name _) _) _ _) _, h => simp [Stmt.invocations, h]

theorem mem_decoratorsInvocations {ds : List Expr} {n : String}
    (h : n ∈ ds.filterMap (decoratorMacro? b)) :
    (n, Shape.decorator) ∈ decoratorsInvocations b isNameMacro ds := by
  induction ds with
  | nil => simp at h
  | cons d ds ih =>
    simp only [List.filterMap_cons] at h
    cases hd : decoratorMacro? b d with
    | none =>
      simp only [hd] at h
      simp [decoratorsInvocations, hd, ih h]
    | some m =>
      simp only [hd, List.mem_cons] at h
      rcases h with rfl | h
      · simp [decoratorsInvocations, hd]
      · simp [decoratorsInvocations, ih h]

theorem decoratorInvocation_mem {s : Stmt} {n : String} (h : n ∈ decoratorInvocations b s) :
    (n, Shape.decorator) ∈ s.invocations b isNameMacro := by
  match s, h with
  | .mk (.functionDef _ _ _ _) _, h | .mk (.classDef _ _ _) _, h =>
    simp only [decoratorInvocations] at h
    simp [Stmt.invocations, mem_decoratorsInvocations b isNameMacro h]

/-- Decorators none of which is a bound bare name are searched as any expression list. -/
theorem decoratorsInvocations_of_filterMap_nil {ds : List Expr}
    (h : ds.filterMap (decoratorMacro? b) = []) :
    decoratorsInvocations b isNameMacro ds = Expr.invocationsList b isNameMacro ds := by
  induction ds with
  | nil => rfl
  | cons d ds ih =>
    have hd : decoratorMacro? b d = none := by
      cases hd : decoratorMacro? b d <;> simp_all
    have hds : ds.filterMap (decoratorMacro? b) = [] := by simpa [hd] using h
    simp [decoratorsInvocations, Expr.invocationsList, hd, ih hds]

/-! ## The inventory lists bound names -/

/-- A subscript whose base is not a bare name is searched in both parts. -/
theorem Expr.invocations_subscript_of_asName (v i : Expr) (l : Option Loc) (hv : v.asName? = none) :
    (Expr.mk (.subscript v i) l).invocations b isNameMacro =
      v.invocations b isNameMacro ++ i.invocations b isNameMacro := by
  obtain ⟨vk, vl⟩ := v
  cases vk <;> simp_all [Expr.asName?, Expr.invocations]

/-- What an inventory entry promises of the table: its name is bound, and to a macro that
takes name invocations if the entry is one. -/
def Bindings.Backs (p : String × Shape) : Prop :=
  ∃ m, b.get? p.1 = some m ∧ (p.2 = .name → isNameMacro m = true)

theorem Bindings.backs_of_isBound {n : String} {shape : Shape} (h : b.isBound n = true)
    (hs : shape ≠ .name) : b.Backs isNameMacro (n, shape) := by
  obtain ⟨m, hm⟩ := (Bindings.isBound_iff_get? b).mp h
  exact ⟨m, hm, fun h' => absurd h' hs⟩

theorem exprInvocation_backs {e : Expr} {n : String} (h : exprInvocation? b e = some n) :
    b.Backs isNameMacro (n, .expr) := by
  match e, h with
  | .mk (.subscript (.mk (.name _) _) _) _, h =>
    simp only [exprInvocation?, Option.ite_none_right_eq_some, Option.some.injEq] at h
    obtain ⟨hb, rfl⟩ := h
    exact b.backs_of_isBound isNameMacro hb (by decide)

theorem nameInvocation_backs {e : Expr} {n : String} (h : nameInvocation? b isNameMacro e = some n) :
    b.Backs isNameMacro (n, .name) := by
  match e, h with
  | .mk (.name _) _, h =>
    simp only [nameInvocation?] at h
    split at h
    · rename_i m hm
      simp only [Option.ite_none_right_eq_some, Option.some.injEq] at h
      obtain ⟨hn, rfl⟩ := h
      exact ⟨m, hm, fun _ => hn⟩
    · simp at h

theorem blockInvocation_backs {s : Stmt} {n : String} (h : blockInvocation? b s = some n) :
    b.Backs isNameMacro (n, .block) := by
  match s, h with
  | .mk (.withBlock (.mk (.name _) _) _ _) _, h =>
    simp only [blockInvocation?, Option.ite_none_right_eq_some, Option.some.injEq] at h
    obtain ⟨hb, rfl⟩ := h
    exact b.backs_of_isBound isNameMacro hb (by decide)

mutual
theorem Expr.backs_of_mem_invocations : ∀ (e : Expr) {p : String × Shape},
    p ∈ e.invocations b isNameMacro → b.Backs isNameMacro p
  | .mk k l, p, h => by
    cases k with
    | name n =>
      obtain ⟨n', hn, rfl⟩ : ∃ n', nameInvocation? b isNameMacro (.mk (.name n) l) = some n' ∧
          (n', Shape.name) = p := by simpa [Expr.invocations] using h
      exact nameInvocation_backs b isNameMacro hn
    | subscript v i =>
      cases hv : v.asName? with
      | none =>
        rw [Expr.invocations_subscript_of_asName b isNameMacro v i l hv, List.mem_append] at h
        exact h.elim (Expr.backs_of_mem_invocations v) (Expr.backs_of_mem_invocations i)
      | some _ =>
        obtain ⟨vk, vl⟩ := v
        cases vk with
        | name n =>
          simp only [Expr.invocations, List.mem_append] at h
          rcases h with h | h
          · obtain ⟨n', hn, rfl⟩ : ∃ n', exprInvocation? b (.mk (.subscript (.mk (.name n) vl) i) l) =
                some n' ∧ (n', Shape.expr) = p := by simpa using h
            exact exprInvocation_backs b isNameMacro hn
          · exact Expr.backs_of_mem_invocations i h
        | _ => simp [Expr.asName?] at hv
    | const _ | done _ => simp [Expr.invocations] at h
    | binOp _ a c =>
      simp only [Expr.invocations, List.mem_append] at h
      exact h.elim (Expr.backs_of_mem_invocations a) (Expr.backs_of_mem_invocations c)
    | unaryOp _ a | «attribute» a _ | lambda _ a =>
      exact Expr.backs_of_mem_invocations a (by simpa [Expr.invocations] using h)
    | call fn args =>
      simp only [Expr.invocations, List.mem_append] at h
      exact h.elim (Expr.backs_of_mem_invocations fn) (Expr.backs_of_mem_invocationsList args)
    | list items | tuple items =>
      exact Expr.backs_of_mem_invocationsList items (by simpa [Expr.invocations] using h)
    | ifExp t body o =>
      simp only [Expr.invocations, List.mem_append] at h
      rcases h with (h | h) | h
      · exact Expr.backs_of_mem_invocations body h
      · exact Expr.backs_of_mem_invocations t h
      · exact Expr.backs_of_mem_invocations o h
theorem Expr.backs_of_mem_invocationsList : ∀ (es : List Expr) {p : String × Shape},
    p ∈ Expr.invocationsList b isNameMacro es → b.Backs isNameMacro p
  | [], p, h => by simp [Expr.invocationsList] at h
  | e :: es, p, h => by
    simp only [Expr.invocationsList, List.mem_append] at h
    exact h.elim (Expr.backs_of_mem_invocations e) (Expr.backs_of_mem_invocationsList es)
end

theorem Expr.backs_of_mem_invocationsOpt {e : Option Expr} {p : String × Shape}
    (h : p ∈ Expr.invocationsOpt b isNameMacro e) : b.Backs isNameMacro p := by
  cases e with
  | none => simp [Expr.invocationsOpt] at h
  | some e => exact Expr.backs_of_mem_invocations b isNameMacro e h

theorem backs_of_mem_decoratorsInvocations {p : String × Shape} :
    ∀ ds : List Expr, p ∈ decoratorsInvocations b isNameMacro ds → b.Backs isNameMacro p
  | [], h => by simp [decoratorsInvocations] at h
  | d :: ds, h => by
    simp only [decoratorsInvocations, List.mem_append] at h
    rcases h with h | h
    · split at h
      · rename_i n hn
        obtain rfl : p = (n, .decorator) := by simpa using h
        match d, hn with
        | .mk (.name _) _, hn =>
          simp only [decoratorMacro?, Option.ite_none_right_eq_some, Option.some.injEq] at hn
          obtain ⟨hb, rfl⟩ := hn
          exact b.backs_of_isBound isNameMacro hb (by decide)
      · exact Expr.backs_of_mem_invocations b isNameMacro d h
    · exact backs_of_mem_decoratorsInvocations ds h

mutual
theorem Stmt.backs_of_mem_invocations : ∀ (s : Stmt) {p : String × Shape},
    p ∈ s.invocations b isNameMacro → b.Backs isNameMacro p
  | .mk k l, p, h => by
    cases k with
    | withBlock item a body =>
      simp only [Stmt.invocations, List.mem_append] at h
      rcases h with h | h
      · split at h
        · rename_i n hn
          obtain rfl : p = (n, .block) := by simpa using h
          exact blockInvocation_backs b isNameMacro hn
        · exact Expr.backs_of_mem_invocations b isNameMacro item h
      · exact Stmt.backs_of_mem_invocationsList body h
    | functionDef _ _ body ds | classDef _ body ds =>
      simp only [Stmt.invocations, List.mem_append] at h
      exact h.elim (backs_of_mem_decoratorsInvocations b isNameMacro ds)
        (Stmt.backs_of_mem_invocationsList body)
    | expr v => exact Expr.backs_of_mem_invocations b isNameMacro v (by simpa [Stmt.invocations] using h)
    | assign t v =>
      simp only [Stmt.invocations, List.mem_append] at h
      exact h.elim (Expr.backs_of_mem_invocations b isNameMacro t)
        (Expr.backs_of_mem_invocations b isNameMacro v)
    | importModule _ _ | importFrom _ _ _ | pass | breakLoop | continueLoop | done _ =>
      simp [Stmt.invocations] at h
    | ret v => exact Expr.backs_of_mem_invocationsOpt b isNameMacro (by simpa [Stmt.invocations] using h)
    | ifElse t body o =>
      simp only [Stmt.invocations, List.mem_append] at h
      rcases h with (h | h) | h
      · exact Expr.backs_of_mem_invocations b isNameMacro t h
      · exact Stmt.backs_of_mem_invocationsList body h
      · exact Stmt.backs_of_mem_invocationsList o h
    | whileLoop t body | forLoop _ t body =>
      simp only [Stmt.invocations, List.mem_append] at h
      exact h.elim (Expr.backs_of_mem_invocations b isNameMacro t) (Stmt.backs_of_mem_invocationsList body)
    | assertion t m =>
      simp only [Stmt.invocations, List.mem_append] at h
      exact h.elim (Expr.backs_of_mem_invocations b isNameMacro t) (Expr.backs_of_mem_invocationsOpt b isNameMacro)
theorem Stmt.backs_of_mem_invocationsList : ∀ (ss : List Stmt) {p : String × Shape},
    p ∈ Stmt.invocationsList b isNameMacro ss → b.Backs isNameMacro p
  | [], p, h => by simp [Stmt.invocationsList] at h
  | s :: ss, p, h => by
    simp only [Stmt.invocationsList, List.mem_append] at h
    exact h.elim (Stmt.backs_of_mem_invocations s) (Stmt.backs_of_mem_invocationsList ss)
end

theorem backs_of_mem_collect {t : Tree} {p : String × Shape} (h : p ∈ Tree.collect b isNameMacro t) :
    b.Backs isNameMacro p := by
  cases t with
  | expr e => exact Expr.backs_of_mem_invocations b isNameMacro e ((mem_collect_expr b isNameMacro).mp h)
  | stmts ss => exact Stmt.backs_of_mem_invocationsList b isNameMacro ss ((mem_collect_stmts b isNameMacro).mp h)

/-! ## Locations do not matter -/

theorem Expr.asName?_fillLocs (p : Option Loc) (e : Expr) : (e.fillLocs p).asName? = e.asName? := by
  obtain ⟨k, l⟩ := e
  cases k <;> simp [Expr.fillLocs, Expr.asName?]

mutual
theorem Expr.invocations_fillLocs (p : Option Loc) :
    ∀ e : Expr, (e.fillLocs p).invocations b isNameMacro = e.invocations b isNameMacro
  | .mk k l => by
    cases k with
    | subscript v i =>
      cases hv : v.asName? with
      | none =>
        have hv' : (v.fillLocs (l.orElse fun _ => p)).asName? = none := by
          rw [Expr.asName?_fillLocs, hv]
        simp only [Expr.fillLocs]
        rw [Expr.invocations_subscript_of_asName b isNameMacro _ _ _ hv',
          Expr.invocations_subscript_of_asName b isNameMacro _ _ _ hv,
          Expr.invocations_fillLocs _ v, Expr.invocations_fillLocs _ i]
      | some id =>
        obtain ⟨vk, vl⟩ := v
        cases vk <;> simp_all [Expr.asName?, Expr.fillLocs, Expr.invocations, exprInvocation?,
          Expr.invocations_fillLocs _ i]
    | _ => simp [Expr.fillLocs, Expr.invocations, nameInvocation?, Expr.invocations_fillLocs,
        Expr.invocationsList_fillLocsList]

theorem Expr.invocationsList_fillLocsList (p : Option Loc) :
    ∀ es : List Expr,
      Expr.invocationsList b isNameMacro (Expr.fillLocsList p es) = Expr.invocationsList b isNameMacro es
  | [] => rfl
  | e :: es => by
    simp [Expr.fillLocsList, Expr.invocationsList, Expr.invocations_fillLocs p e,
      Expr.invocationsList_fillLocsList p es]
end

theorem Expr.invocationsOpt_fillLocsOpt (p : Option Loc) (e : Option Expr) :
    Expr.invocationsOpt b isNameMacro (Expr.fillLocsOpt p e) = Expr.invocationsOpt b isNameMacro e := by
  cases e <;> simp [Expr.fillLocsOpt, Expr.invocationsOpt, Expr.invocations_fillLocs]

theorem decoratorMacro?_fillLocs (p : Option Loc) (d : Expr) :
    decoratorMacro? b (d.fillLocs p) = decoratorMacro? b d := by
  obtain ⟨k, l⟩ := d
  cases k <;> simp [Expr.fillLocs, decoratorMacro?]

theorem decoratorsInvocations_fillLocsList (p : Option Loc) (ds : List Expr) :
    decoratorsInvocations b isNameMacro (Expr.fillLocsList p ds) =
      decoratorsInvocations b isNameMacro ds := by
  induction ds with
  | nil => rfl
  | cons d ds ih =>
    simp [Expr.fillLocsList, decoratorsInvocations, decoratorMacro?_fillLocs, ih,
      Expr.invocations_fillLocs]

/-- A `with` statement whose item is not a bare name is searched in its item and body. -/
theorem Stmt.invocations_withBlock_of_asName (item : Expr) (a : Option String) (body : List Stmt)
    (l : Option Loc) (hv : item.asName? = none) :
    (Stmt.mk (.withBlock item a body) l).invocations b isNameMacro =
      item.invocations b isNameMacro ++ Stmt.invocationsList b isNameMacro body := by
  obtain ⟨k, il⟩ := item
  cases k <;> simp_all [Expr.asName?, Stmt.invocations, blockInvocation?]

mutual
theorem Stmt.invocations_fillLocs (p : Option Loc) :
    ∀ s : Stmt, (s.fillLocs p).invocations b isNameMacro = s.invocations b isNameMacro
  | .mk k l => by
    cases k with
    | withBlock item a body =>
      cases hv : item.asName? with
      | none =>
        have hv' : (item.fillLocs (l.orElse fun _ => p)).asName? = none := by
          rw [Expr.asName?_fillLocs, hv]
        simp only [Stmt.fillLocs]
        rw [Stmt.invocations_withBlock_of_asName b isNameMacro _ _ _ _ hv',
          Stmt.invocations_withBlock_of_asName b isNameMacro _ _ _ _ hv,
          Expr.invocations_fillLocs, Stmt.invocationsList_fillLocsList]
      | some id =>
        obtain ⟨ik, il⟩ := item
        cases ik <;> simp_all [Expr.asName?, Expr.fillLocs, Stmt.fillLocs, Stmt.invocations,
          blockInvocation?, Expr.invocations, nameInvocation?, Stmt.invocationsList_fillLocsList]
    | _ => simp [Stmt.fillLocs, Stmt.invocations, Expr.invocations_fillLocs,
        Expr.invocationsOpt_fillLocsOpt, decoratorsInvocations_fillLocsList,
        Stmt.invocationsList_fillLocsList]

theorem Stmt.invocationsList_fillLocsList (p : Option Loc) :
    ∀ ss : List Stmt,
      Stmt.invocationsList b isNameMacro (Stmt.fillLocsList p ss) = Stmt.invocationsList b isNameMacro ss
  | [] => rfl
  | s :: ss => by
    simp [Stmt.fillLocsList, Stmt.invocationsList, Stmt.invocations_fillLocs p s,
      Stmt.invocationsList_fillLocsList p ss]
end

theorem invocationsList_fillTopLevel :
    ∀ (previous : Loc) (ss : List Stmt),
      Stmt.invocationsList b isNameMacro (fillTopLevel previous ss) = Stmt.invocationsList b isNameMacro ss
  | _, [] => rfl
  | previous, s :: ss => by
    simp [fillTopLevel, Stmt.invocationsList, Stmt.invocations_fillLocs,
      invocationsList_fillTopLevel]

end Espalier
