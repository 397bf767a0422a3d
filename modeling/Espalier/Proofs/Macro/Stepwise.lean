import Espalier.Proofs.Macro.Monotone
import Espalier.Proofs.Macro.Fixpoint

/-!
# Expanding one layer at a time

`stepwise` expands a tree one layer at a time until nothing is left to expand, as the
`step_expansion` macro does when it prints each step. For plain macros whose results can be
expanded where they land (`InPlace`), and a tree with no marker in which each definition
carries at most one macro decorator, the layers reach exactly what full expansion gives
(`stepwise_reaches_expansion`).

The argument is a simulation. Full expansion under a depth bound `L + 1` is one layer under
`L + 1`, then full expansion of the layer's result under `L` (`Sim`, `sim`): where the layer
puts a macro's result, the full walk would have expanded that result one level deeper, and
`transfer` moves that work one level up under a bound one lower. Each layer keeps the tree
free of markers and of long decorator chains, so induction on the bound runs the layers down
to a tree with nothing left to expand.

A definition with two macro decorators breaks the simulation: full expansion hands the outer
decorator the inner one's result expanded, a layer hands it that result as the macro gave it,
and the two can end apart (`stepwise_misses_chained_decorators`).
-/

namespace Espalier

section Chains
variable {M : Type} (b : Bindings M)

mutual
/-- Whether every definition in the statement carries at most one macro decorator. -/
def Stmt.shortChains : Stmt → Bool
  | .mk k l => decide ((decoratorInvocations b (.mk k l)).length ≤ 1) &&
    match k with
    | .withBlock _ _ body | .functionDef _ _ body _ | .classDef _ body _ | .whileLoop _ body
      | .forLoop _ _ body | .done body => Stmt.shortChainsList body
    | .ifElse _ body o => Stmt.shortChainsList body && Stmt.shortChainsList o
    | _ => true

/-- Whether every definition in the statements carries at most one macro decorator. -/
def Stmt.shortChainsList : List Stmt → Bool
  | [] => true
  | s :: ss => s.shortChains && Stmt.shortChainsList ss
end

/-- Whether every definition in the tree carries at most one macro decorator. -/
def Tree.shortChains : Tree → Bool
  | .expr _ => true
  | .stmts ss => Stmt.shortChainsList b ss

theorem decoratorInvocations_fillLocs (p : Option Loc) (s : Stmt) :
    decoratorInvocations b (s.fillLocs p) = decoratorInvocations b s := by
  obtain ⟨k, l⟩ := s
  have hds : ∀ (q : Option Loc) (ds : List Expr),
      (Expr.fillLocsList q ds).filterMap (decoratorMacro? b) = ds.filterMap (decoratorMacro? b) := by
    intro q ds
    induction ds with
    | nil => rfl
    | cons d ds ih =>
      simp only [Expr.fillLocsList, List.filterMap_cons, decoratorMacro?_fillLocs b q d, ih]
  cases k <;> simp [Stmt.fillLocs, decoratorInvocations, hds]

mutual
theorem Stmt.shortChains_fillLocs (p : Option Loc) :
    ∀ s : Stmt, (s.fillLocs p).shortChains b = s.shortChains b
  | .mk k l => by
    have hdec := decoratorInvocations_fillLocs b p (.mk k l)
    cases k <;> simp_all [Stmt.fillLocs, Stmt.shortChains, Stmt.shortChainsList_fillLocs]

theorem Stmt.shortChainsList_fillLocs (p : Option Loc) :
    ∀ ss : List Stmt, Stmt.shortChainsList b (Stmt.fillLocsList p ss) = Stmt.shortChainsList b ss
  | [] => rfl
  | s :: ss => by
    simp [Stmt.fillLocsList, Stmt.shortChainsList, Stmt.shortChains_fillLocs p s,
      Stmt.shortChainsList_fillLocs p ss]
end

theorem Stmt.decoratorInvocations_length_le {st : Stmt} (h : st.shortChains b = true) :
    (decoratorInvocations b st).length ≤ 1 := by
  obtain ⟨k, l⟩ := st
  cases k <;> simp_all [Stmt.shortChains]

theorem Tree.shortChains_fillLocs (p : Option Loc) (t : Tree) :
    (t.fillLocs p).shortChains b = t.shortChains b := by
  cases t with
  | expr e => rfl
  | stmts ss => exact Stmt.shortChainsList_fillLocs b p ss

end Chains

/-! ## What one layer of expansion keeps -/

section Ready
variable {M : Type} (b : Bindings M)

/-- What one layer of expansion keeps of an expression: it adds no marker, and it puts no
bound bare name where there was none. -/
structure ExprStep (e e₁ : Expr) : Prop where
  unmarked : e₁.markerLocs = []
  head : ¬ e.IsBoundName b → ¬ e₁.IsBoundName b

/-- What one layer of expansion keeps of a list of expressions. -/
structure ExprsStep (es es₁ : List Expr) : Prop where
  unmarked : Expr.markerLocsList es₁ = []
  heads : (∀ e ∈ es, ¬ e.IsBoundName b) → ∀ e ∈ es₁, ¬ e.IsBoundName b

/-- Statements with no marker, each definition among them carrying at most one macro
decorator. -/
def BodyReady (ss : List Stmt) : Prop :=
  Stmt.markerLocsList ss = [] ∧ Stmt.shortChainsList b ss = true

/-- A node that is no bare name steps to itself. -/
theorem ExprStep.of_asName {e e₁ : Expr} (h : e₁.asName? = none) (hm : e₁.markerLocs = []) :
    ExprStep b e e₁ :=
  ⟨hm, fun _ => Expr.not_isBoundName_of_asName b h⟩

theorem ExprStep.refl {e : Expr} (hm : e.markerLocs = []) : ExprStep b e e :=
  ⟨hm, id⟩

theorem ExprsStep.nil : ExprsStep b [] [] :=
  ⟨rfl, fun _ _ h => nomatch h⟩

theorem ExprsStep.cons {e e₁ : Expr} {es es₁ : List Expr} (he : ExprStep b e e₁)
    (hs : ExprsStep b es es₁) : ExprsStep b (e :: es) (e₁ :: es₁) := by
  refine ⟨by simp [Expr.markerLocsList, he.unmarked, hs.unmarked], fun hall x hx => ?_⟩
  rcases List.mem_cons.mp hx with rfl | hx
  · exact he.head (hall e List.mem_cons_self)
  · exact hs.heads (fun y hy => hall y (List.mem_cons_of_mem e hy)) x hx

theorem BodyReady.nil : BodyReady b [] := ⟨rfl, rfl⟩

theorem BodyReady.single {st : Stmt} (hm : st.markerLocs = []) (hc : st.shortChains b = true) :
    BodyReady b [st] :=
  ⟨by simp [Stmt.markerLocsList, hm], by simp [Stmt.shortChainsList, hc]⟩

/-- Decorators none of which is a bound bare name: no decorator macro among them. -/
theorem decorators_nil_iff {ds : List Expr} :
    ds.filterMap (decoratorMacro? b) = [] ↔ ∀ x ∈ ds, ¬ x.IsBoundName b := by
  simp only [List.filterMap_eq_nil_iff, decoratorMacro?_eq_none_iff]

theorem BodyReady.cons_iff {st : Stmt} {ss : List Stmt} :
    BodyReady b (st :: ss) ↔ (st.markerLocs = [] ∧ st.shortChains b = true) ∧ BodyReady b ss := by
  simp only [BodyReady, Stmt.markerLocsList, List.append_eq_nil_iff, Stmt.shortChainsList,
    Bool.and_eq_true]
  tauto

theorem BodyReady.append {xs ys : List Stmt} (hx : BodyReady b xs) (hy : BodyReady b ys) :
    BodyReady b (xs ++ ys) := by
  have hm : ∀ xs ys : List Stmt,
      Stmt.markerLocsList (xs ++ ys) = Stmt.markerLocsList xs ++ Stmt.markerLocsList ys := by
    intro xs ys
    induction xs with
    | nil => rfl
    | cons x xs ih => simp [Stmt.markerLocsList, ih]
  have hc : ∀ xs ys : List Stmt,
      Stmt.shortChainsList b (xs ++ ys) = (Stmt.shortChainsList b xs && Stmt.shortChainsList b ys) := by
    intro xs ys
    induction xs with
    | nil => simp [Stmt.shortChainsList]
    | cons x xs ih => simp [Stmt.shortChainsList, ih, Bool.and_assoc]
  exact ⟨by simp [hm, hx.1, hy.1], by simp [hc, hx.2, hy.2]⟩

/-- The statement view of a tree with no marker and short chains has neither. -/
theorem Tree.bodyReady_toStmts {t : Tree} (hm : t.Unmarked) (hc : t.shortChains b = true) :
    BodyReady b t.toStmts := by
  cases t with
  | expr e =>
    refine ⟨by simpa [Tree.toStmts, Stmt.markerLocsList, Stmt.markerLocs, Tree.Unmarked] using hm, ?_⟩
    simp [Tree.toStmts, Stmt.shortChainsList, Stmt.shortChains, decoratorInvocations]
  | stmts ss => exact ⟨hm, hc⟩

/-- A filled tree has an expression view only where the tree had one. -/
theorem Tree.toExpr?_of_fillLocs (q : Option Loc) {t : Tree} {e' : Expr}
    (h : (t.fillLocs q).toExpr? = some e') : ∃ e p, t.toExpr? = some e ∧ e' = e.fillLocs p := by
  cases t with
  | expr e =>
    simp only [Tree.fillLocs, Tree.toExpr?, Option.some.injEq] at h
    exact ⟨e, q, rfl, h.symm⟩
  | stmts ss =>
    rcases ss with _ | ⟨⟨k, l⟩, _ | ⟨s₂, ss⟩⟩
    · simp [Tree.fillLocs, Stmt.fillLocsList, Tree.toExpr?] at h
    · cases k <;> simp [Tree.fillLocs, Stmt.fillLocsList, Stmt.fillLocs, Tree.toExpr?] at h
      exact ⟨_, _, rfl, h.symm⟩
    · simp [Tree.fillLocs, Stmt.fillLocsList, Tree.toExpr?] at h

theorem exprInvocation?_fillLocs (p : Option Loc) (e : Expr) :
    exprInvocation? b (e.fillLocs p) = exprInvocation? b e := by
  obtain ⟨k, l⟩ := e
  cases k with
  | subscript v i =>
    obtain ⟨vk, vl⟩ := v
    cases vk <;> simp [Expr.fillLocs, exprInvocation?]
  | _ => simp [Expr.fillLocs, exprInvocation?]

theorem nameInvocation?_fillLocs (isNameMacro : M → Bool) (p : Option Loc) (e : Expr) :
    nameInvocation? b isNameMacro (e.fillLocs p) = nameInvocation? b isNameMacro e := by
  obtain ⟨k, l⟩ := e
  cases k <;> simp [Expr.fillLocs, nameInvocation?]

end Ready

namespace Expander

variable {σ Mac : Type}

/-! ## One layer, then the rest

Full expansion under a bound `m₁` agrees with one layer of expansion followed by full
expansion of its result under a bound one lower, `m₂`: what the layer leaves one level down,
full expansion would have reached one level deeper. Where the layer puts a macro's result,
the walk that follows must treat it as the full walk treated it; `InPlace` asks what that
takes of the macros. -/

/-- Whether a macro's result can be expanded where it lands, one layer at a time as well as
all at once: results carry no marker and no definition with two macro decorators; an
expression macro gives an expression that is no bound bare name; a name macro never gives
back its own name; and a block or decorator macro that gives an expression gives one that is
no invocation itself, since its expression statement keeps the location of the expression,
which expanding that invocation would change. -/
structure InPlace (X : Expander (EStateM Error σ) Mac)
    (g : String → Shape → Tree → Option String → Option Loc → Except Error (Option Tree)) :
    Prop where
  unmarked : ∀ {n sh t a l r}, g n sh t a l = .ok (some r) → r.Unmarked
  chains : ∀ {n sh t a l r}, g n sh t a l = .ok (some r) → r.shortChains X.bindings = true
  expr : ∀ {n t a l r}, g n .expr t a l = .ok (some r) →
    ∃ e, r.toExpr? = some e ∧ ¬ e.IsBoundName X.bindings
  name : ∀ {n t a l r e}, g n .name t a l = .ok (some r) → r.toExpr? = some e → e.asName? ≠ some n
  stmt : ∀ {n sh t a l e}, sh ≠ .expr → sh ≠ .name → g n sh t a l = .ok (some (.expr e)) →
    exprInvocation? X.bindings e = none ∧ nameInvocation? X.bindings X.isNameMacro e = none

/-- At fuel `f`, a successful full expansion under `m₁` leaves the state as it found it and
splits into one layer under `m₁` and full expansion of the layer's result under `m₂`, with the
same outcome. The layer adds no marker, no long decorator chain and no bound bare name where
there was none. A statement's layer is a list, which full expansion takes with one more unit
of fuel. -/
structure Sim (X : Expander (EStateM Error σ) Mac) (m₁ m₂ : Option Nat) (f : Nat) : Prop where
  expr : ∀ d e e' s s', e.markerLocs = [] →
    ((X.withLimit m₁).visitExpr f d true e).run s = .ok e' s' → s' = s ∧
    ∃ e₁, ((X.withLimit m₁).visitExpr f d false e).run s = .ok e₁ s ∧
      ((X.withLimit m₂).visitExpr f d true e₁).run s = .ok e' s ∧ ExprStep X.bindings e e₁
  exprs : ∀ d es es' s s', Expr.markerLocsList es = [] →
    ((X.withLimit m₁).visitExprs f d true es).run s = .ok es' s' → s' = s ∧
    ∃ es₁, ((X.withLimit m₁).visitExprs f d false es).run s = .ok es₁ s ∧
      ((X.withLimit m₂).visitExprs f d true es₁).run s = .ok es' s ∧ ExprsStep X.bindings es es₁
  opt : ∀ d o o' s s', Expr.markerLocsOpt o = [] →
    ((X.withLimit m₁).visitOpt f d true o).run s = .ok o' s' → s' = s ∧
    ∃ o₁, ((X.withLimit m₁).visitOpt f d false o).run s = .ok o₁ s ∧
      ((X.withLimit m₂).visitOpt f d true o₁).run s = .ok o' s ∧ Expr.markerLocsOpt o₁ = []
  stmt : ∀ d st ss' s s', st.markerLocs = [] → st.shortChains X.bindings = true →
    ((X.withLimit m₁).visitStmt f d true st).run s = .ok ss' s' → s' = s ∧
    ∃ ss₁, ((X.withLimit m₁).visitStmt f d false st).run s = .ok ss₁ s ∧
      ((X.withLimit m₂).visitBody (f + 1) d true ss₁).run s = .ok ss' s ∧ BodyReady X.bindings ss₁
  body : ∀ d ss ss' s s', BodyReady X.bindings ss →
    ((X.withLimit m₁).visitBody f d true ss).run s = .ok ss' s' → s' = s ∧
    ∃ ss₁, ((X.withLimit m₁).visitBody f d false ss).run s = .ok ss₁ s ∧
      ((X.withLimit m₂).visitBody f d true ss₁).run s = .ok ss' s ∧ BodyReady X.bindings ss₁

section Layer
variable {X : Expander (EStateM Error σ) Mac}
  {g : String → Shape → Tree → Option String → Option Loc → Except Error (Option Tree)}
  {m₁ m₂ : Option Nat} {f d : Nat} {s s' : σ}

/-- One level deeper under `m₁` is no deeper than here under a bound one lower. -/
theorem Below.lowered (hm : ∀ n, m₁.all (n + 1 < ·) → m₂.all (n < ·)) (f d : Nat) :
    Below true m₁ m₂ f (d + 1) d := by
  intro j _ h
  rw [show d + 1 + j = d + j + 1 by omega] at h
  exact hm (d + j) h

variable (hX : X.Plain g) (hm : ∀ n, m₁.all (n + 1 < ·) → m₂.all (n < ·))
include hX hm

/-- What full expansion does one level deeper under `m₁`, it does here under `m₂`. -/
theorem lift_expr {F : Nat} {e e' : Expr} (hF : f ≤ F)
    (h : ((X.withLimit m₁).visitExpr f (d + 1) true e).run s = .ok e' s') :
    s' = s ∧ ((X.withLimit m₂).visitExpr F d true e).run s = .ok e' s :=
  (transfer hX m₁ m₂ f).expr F (d + 1) d true e hF (Below.lowered hm f d) s e' s' h

/-- A tree expanded one level deeper under `m₁` gives, as statements, what its statement view
gives here under `m₂`, provided an expression tree is no invocation itself: only then does
its expression statement keep the expression's location. -/
theorem lift_toStmts {F : Nat} {u u' : Tree} (hF : f + 1 ≤ F)
    (h : ((X.withLimit m₁).visitTree f (d + 1) true u).run s = .ok u' s')
    (hu : ∀ e, u = .expr e → exprInvocation? X.bindings e = none ∧
      nameInvocation? X.bindings X.isNameMacro e = none) :
    s' = s ∧ ((X.withLimit m₂).visitBody F d true u.toStmts).run s = .ok u'.toStmts s := by
  cases f with
  | zero =>
    simp only [visitTree] at h
    cases h
  | succ f =>
    cases u with
    | stmts ss =>
      simp only [visitTree] at h
      obtain ⟨ss', hss, rfl⟩ := run_map_ok h
      exact (transfer hX m₁ m₂ f).body F (d + 1) d true ss (by omega) (Below.lowered hm f d)
        s ss' s' hss
    | expr e =>
      simp only [visitTree] at h
      obtain ⟨e', he, rfl⟩ := run_map_ok h
      obtain ⟨hx, hn⟩ := hu e rfl
      obtain ⟨F, rfl⟩ : ∃ F', F = F' + 2 := ⟨F - 2, by omega⟩
      obtain ⟨rfl, he₂⟩ := lift_expr hX hm (F := F) (by omega) he
      have hloc : e'.loc = e.loc := visitExpr_loc_run he (by simpa using hx) (by simpa using hn)
      refine ⟨rfl, ?_⟩
      simp only [Tree.toStmts, hloc]
      apply visitBody_singleton_run
      simp only [visitStmt, blockInvocation?, decoratorInvocations, List.isEmpty_nil]
      exact run_bind_of_ok he₂ rfl

variable (hP : InPlace X g)
include hP

/-- An expression invocation: the layer gives the macro's result, and full expansion of that
result under `m₂` is what the full walk made of it one level deeper under `m₁`. -/
theorem step_exprInvocation {e e' : Expr} {name : String}
    (hx : exprInvocation? X.bindings e = some name)
    (h : ((X.withLimit m₁).visitExpr (f + 1) d true e).run s = .ok e' s') :
    s' = s ∧ ∃ e₁, ((X.withLimit m₁).visitExpr (f + 1) d false e).run s = .ok e₁ s ∧
      ((X.withLimit m₂).visitExpr (f + 1) d true e₁).run s = .ok e' s ∧
      ExprStep X.bindings e e₁ := by
  obtain ⟨k, l⟩ := e
  cases k with
  | subscript v i =>
    simp only [visitExpr, withLimit_bindings, hx] at h
    obtain ⟨res, s₁, hres, h⟩ := run_bind_ok h
    obtain ⟨t', rfl, he', rfl⟩ := toExpr_run_ok h
    cases f with
    | zero =>
      simp only [apply] at hres
      cases hres
    | succ f =>
      obtain ⟨⟨mac, hmac⟩, hd, r, hg, hnone, hsome⟩ := apply_run_rec (hX.withLimit m₁) hres
      cases r with
      | none => cases (hnone rfl).1
      | some t =>
        obtain ⟨t'', ht, hres'⟩ := hsome t rfl
        cases hres'
        obtain ⟨x, hx₀, hnb⟩ := hP.expr hg
        obtain ⟨p, hfx⟩ := Tree.toExpr?_fillLocs l hx₀
        obtain ⟨f₀, hf₀, x', hvx, htx⟩ := visitTree_toExpr_run ht hfx
        rw [he'] at htx
        cases htx
        obtain ⟨rfl, he₂⟩ := lift_expr hX hm (F := f + 2) (by omega) hvx
        refine ⟨rfl, x.fillLocs p, ?_, he₂, ?_⟩
        · simp only [visitExpr, withLimit_bindings, hx]
          exact run_bind_of_ok (apply_run_once (hX.withLimit m₁) hmac hd hg) (toExpr_run_of hfx)
        · exact ⟨Tree.unmarked_of_toExpr? (Tree.unmarked_fillLocs l (hP.unmarked hg)) hfx,
            fun _ hb => hnb ((Expr.isBoundName_fillLocs _ p x).mp hb)⟩
  | _ => simp [exprInvocation?] at hx

/-- A name invocation: the layer gives the macro's result, which the full walk expands one
level deeper, since it is not the invoked name itself. -/
theorem step_nameInvocation {e e' : Expr} {name : String}
    (hn : nameInvocation? X.bindings X.isNameMacro e = some name)
    (h : ((X.withLimit m₁).visitExpr (f + 1) d true e).run s = .ok e' s') :
    s' = s ∧ ∃ e₁, ((X.withLimit m₁).visitExpr (f + 1) d false e).run s = .ok e₁ s ∧
      ((X.withLimit m₂).visitExpr (f + 1) d true e₁).run s = .ok e' s ∧
      ExprStep X.bindings e e₁ := by
  obtain ⟨k, l⟩ := e
  cases k with
  | name n =>
    simp only [visitExpr, withLimit_bindings, withLimit_isNameMacro, hn, exprInvocation?] at h
    cases f with
    | zero =>
      simp only [expandName] at h
      cases h
    | succ f =>
      simp only [expandName, Bool.not_true, Bool.false_eq_true, ↓reduceIte] at h
      obtain ⟨res, s₁, hres, h₁⟩ := run_bind_ok h
      cases f with
      | zero =>
        simp only [apply] at hres
        cases hres
      | succ f =>
        obtain ⟨⟨mac, hmac⟩, hd, r, hg, rfl, hs₁⟩ := apply_run_once_ok (hX.withLimit m₁) hres
        subst s₁
        obtain ⟨new, s₂, hnew, h₂⟩ := run_bind_ok h₁
        obtain ⟨t, ht, hte, hs₂⟩ := toExpr_run_ok hnew
        subst s₂
        cases r with
        | none => cases ht
        | some t₀ =>
          cases ht
          obtain ⟨x, p, hx₀, rfl⟩ := Tree.toExpr?_of_fillLocs _ hte
          have hname : (x.fillLocs p).asName? ≠ some name := by
            rw [Expr.asName?_fillLocs]
            exact hP.name hg hx₀
          -- the result is not the invoked name, so the full walk expands it one level deeper
          have hv : ((X.withLimit m₁).visitExpr (f + 1) (d + 1) true (x.fillLocs p)).run s =
              .ok e' s' := by
            revert h₂ hname
            generalize x.fillLocs p = new
            intro h hname
            obtain ⟨nk, nl⟩ := new
            cases nk with
            | name n' =>
              have hne : n' ≠ name := fun heq => hname (by simp [Expr.asName?, heq])
              simpa [hne] using h
            | _ => exact h
          obtain ⟨rfl, he₂⟩ := lift_expr hX hm (F := f + 1 + 1 + 1) (by omega) hv
          refine ⟨rfl, x.fillLocs p, ?_, he₂, ?_⟩
          · simp only [visitExpr, withLimit_bindings, withLimit_isNameMacro, hn, exprInvocation?,
              expandName]
            exact run_bind_of_ok (apply_run_once (hX.withLimit m₁) hmac hd hg)
              (run_bind_of_ok (toExpr_run_of hte) rfl)
          · exact ⟨Tree.unmarked_of_toExpr? (Tree.unmarked_fillLocs _ (hP.unmarked hg)) hte,
              fun hb => absurd (nameInvocation_isBoundName (X := X) hn) hb⟩
  | _ => simp [nameInvocation?] at hn

/-- A block or decorator application: the layer gives the statements of the macro's result,
and full expansion of those under `m₂` is what the full walk made of them one level deeper. -/
theorem step_applyStmts {shape : Shape} {name : String} {tree : Tree} {l : Option Loc}
    {asName : Option String} {ss' : List Stmt} {F : Nat} (hsh : shape ≠ .expr)
    (hsh' : shape ≠ .name) (hF : f + 2 ≤ F)
    (h : ((X.withLimit m₁).apply (f + 1) d true name shape tree l asName >>=
      fun r => pure (stmtsOf r)).run s = .ok ss' s') :
    s' = s ∧ ∃ ss₁, ((X.withLimit m₁).apply (f + 1) d false name shape tree l asName >>=
        fun r => pure (stmtsOf r)).run s = .ok ss₁ s ∧
      ((X.withLimit m₂).visitBody F d true ss₁).run s = .ok ss' s ∧ BodyReady X.bindings ss₁ := by
  obtain ⟨res, s₁, hres, h⟩ := run_bind_ok h
  cases h
  obtain ⟨⟨mac, hmac⟩, hd, r, hg, hnone, hsome⟩ := apply_run_rec (hX.withLimit m₁) hres
  have hS := apply_run_once (f := f) (s := s) (hX.withLimit m₁) hmac hd hg
  cases r with
  | none =>
    obtain ⟨rfl, rfl⟩ := hnone rfl
    refine ⟨rfl, [], run_bind_of_ok hS rfl, ?_, BodyReady.nil _⟩
    obtain ⟨F, rfl⟩ : ∃ F', F = F' + 1 := ⟨F - 1, by omega⟩
    rw [visitBody_nil]
    rfl
  | some t =>
    obtain ⟨t', ht', rfl⟩ := hsome t rfl
    -- an expression result lands as an expression statement at its own location
    have hu : ∀ e, t.fillLocs l = .expr e → exprInvocation? X.bindings e = none ∧
        nameInvocation? X.bindings X.isNameMacro e = none := by
      intro e he
      cases t with
      | expr e₀ =>
        cases he
        rw [exprInvocation?_fillLocs, nameInvocation?_fillLocs]
        exact hP.stmt hsh hsh' hg
      | stmts _ => cases he
    obtain ⟨rfl, hE₂⟩ := lift_toStmts hX hm (F := F) (by omega) ht' hu
    refine ⟨rfl, (t.fillLocs l).toStmts, run_bind_of_ok hS rfl, hE₂, ?_⟩
    refine Tree.bodyReady_toStmts _ (Tree.unmarked_fillLocs l (hP.unmarked hg)) ?_
    rw [Tree.shortChains_fillLocs]
    exact hP.chains hg

/-- A block invocation: the layer gives the statements of the macro's result. -/
theorem step_block {k : StmtKind} {l : Option Loc} {ss' : List Stmt} {name : String}
    (hbl : blockInvocation? X.bindings (.mk k l) = some name)
    (h : ((X.withLimit m₁).visitStmt (f + 1) d true (.mk k l)).run s = .ok ss' s') :
    s' = s ∧ ∃ ss₁, ((X.withLimit m₁).visitStmt (f + 1) d false (.mk k l)).run s = .ok ss₁ s ∧
      ((X.withLimit m₂).visitBody (f + 2) d true ss₁).run s = .ok ss' s ∧
      BodyReady X.bindings ss₁ := by
  cases k with
  | withBlock i a body =>
    simp only [visitStmt, withLimit_bindings, hbl] at h
    cases f with
    | zero =>
      obtain ⟨_, _, hres, -⟩ := run_bind_ok h
      simp only [apply] at hres
      cases hres
    | succ f =>
      obtain ⟨rfl, ss₁, hS, hE, hR⟩ :=
        step_applyStmts hX hm hP (F := f + 1 + 2) (by decide) (by decide) (by omega) h
      refine ⟨rfl, ss₁, ?_, hE, hR⟩
      simp only [visitStmt, withLimit_bindings, hbl]
      exact hS
  | _ => simp [blockInvocation?] at hbl

/-- A definition with one macro decorator: the layer gives the statements of the macro's
result on the definition without it. -/
theorem step_decorated {k : StmtKind} {l : Option Loc} {ss' : List Stmt} {name : String}
    (hdn : decoratorInvocations X.bindings (.mk k l) = [name])
    (h : ((X.withLimit m₁).visitStmt (f + 1) d true (.mk k l)).run s = .ok ss' s') :
    s' = s ∧ ∃ ss₁, ((X.withLimit m₁).visitStmt (f + 1) d false (.mk k l)).run s = .ok ss₁ s ∧
      ((X.withLimit m₂).visitBody (f + 2) d true ss₁).run s = .ok ss' s ∧
      BodyReady X.bindings ss₁ := by
  have hdec : decoratorInvocations (X.withLimit m₁).bindings (.mk k l) ≠ [] := by simp [hdn]
  rw [visitStmt_of_decorated hdec] at h
  cases f with
  | zero =>
    simp only [expandDecorated] at h
    cases h
  | succ f =>
    rw [expandDecorated_single (X.withLimit m₁) _ _ _ hdn] at h
    cases f with
    | zero =>
      obtain ⟨_, _, hres, -⟩ := run_bind_ok h
      simp only [apply] at hres
      cases hres
    | succ f =>
      obtain ⟨rfl, ss₁, hS, hE, hR⟩ :=
        step_applyStmts hX hm hP (F := f + 1 + 1 + 2) (by decide) (by decide) (by omega) h
      refine ⟨rfl, ss₁, ?_, hE, hR⟩
      rw [visitStmt_of_decorated hdec, expandDecorated_single (X.withLimit m₁) _ _ _ hdn]
      exact hS

end Layer

/-! ### The walk, part by part -/

theorem sim_zero {X : Expander (EStateM Error σ) Mac} {m₁ m₂ : Option Nat} : Sim X m₁ m₂ 0 where
  expr _ _ _ _ _ _ h := by simp only [visitExpr] at h; cases h
  exprs _ _ _ _ _ _ h := by simp only [visitExprs] at h; cases h
  opt _ _ _ _ _ _ h := by simp only [visitOpt] at h; cases h
  stmt _ _ _ _ _ _ _ h := by simp only [visitStmt] at h; cases h
  body _ _ _ _ _ _ h := by simp only [visitBody] at h; cases h

section SimSucc
variable {X : Expander (EStateM Error σ) Mac} {m₁ m₂ : Option Nat} {f d : Nat} {s s' : σ}
  {β : Type} (ih : Sim X m₁ m₂ f)
include ih

/-- A full run of a part followed by more work: the part steps, and the rest runs on what
the full run of the part gave. -/
theorem Sim.expr_bind {k : Expr → EStateM Error σ β} {a : Expr} {r : β} (ha : a.markerLocs = [])
    (h : ((X.withLimit m₁).visitExpr f d true a >>= k).run s = .ok r s') :
    ∃ a', (k a').run s = .ok r s' ∧ ∃ a₁,
      ((X.withLimit m₁).visitExpr f d false a).run s = .ok a₁ s ∧
      ((X.withLimit m₂).visitExpr f d true a₁).run s = .ok a' s ∧ ExprStep X.bindings a a₁ := by
  obtain ⟨a', s₁, h₁, h₂⟩ := run_bind_ok h
  obtain ⟨rfl, hS⟩ := ih.expr d a a' s s₁ ha h₁
  exact ⟨a', h₂, hS⟩

theorem Sim.exprs_bind {k : List Expr → EStateM Error σ β} {as : List Expr} {r : β}
    (ha : Expr.markerLocsList as = [])
    (h : ((X.withLimit m₁).visitExprs f d true as >>= k).run s = .ok r s') :
    ∃ as', (k as').run s = .ok r s' ∧ ∃ as₁,
      ((X.withLimit m₁).visitExprs f d false as).run s = .ok as₁ s ∧
      ((X.withLimit m₂).visitExprs f d true as₁).run s = .ok as' s ∧
      ExprsStep X.bindings as as₁ := by
  obtain ⟨as', s₁, h₁, h₂⟩ := run_bind_ok h
  obtain ⟨rfl, hS⟩ := ih.exprs d as as' s s₁ ha h₁
  exact ⟨as', h₂, hS⟩

theorem Sim.opt_bind {k : Option Expr → EStateM Error σ β} {o : Option Expr} {r : β}
    (ho : Expr.markerLocsOpt o = [])
    (h : ((X.withLimit m₁).visitOpt f d true o >>= k).run s = .ok r s') :
    ∃ o', (k o').run s = .ok r s' ∧ ∃ o₁,
      ((X.withLimit m₁).visitOpt f d false o).run s = .ok o₁ s ∧
      ((X.withLimit m₂).visitOpt f d true o₁).run s = .ok o' s ∧ Expr.markerLocsOpt o₁ = [] := by
  obtain ⟨o', s₁, h₁, h₂⟩ := run_bind_ok h
  obtain ⟨rfl, hS⟩ := ih.opt d o o' s s₁ ho h₁
  exact ⟨o', h₂, hS⟩

theorem Sim.body_bind {k : List Stmt → EStateM Error σ β} {ss : List Stmt} {r : β}
    (hss : BodyReady X.bindings ss)
    (h : ((X.withLimit m₁).visitBody f d true ss >>= k).run s = .ok r s') :
    ∃ ss', (k ss').run s = .ok r s' ∧ ∃ ss₁,
      ((X.withLimit m₁).visitBody f d false ss).run s = .ok ss₁ s ∧
      ((X.withLimit m₂).visitBody f d true ss₁).run s = .ok ss' s ∧ BodyReady X.bindings ss₁ := by
  obtain ⟨ss', s₁, h₁, h₂⟩ := run_bind_ok h
  obtain ⟨rfl, hS⟩ := ih.body d ss ss' s s₁ hss h₁
  exact ⟨ss', h₂, hS⟩

/-- A subscript that is no invocation: a base that is no bare name steps, and if it steps to
a bare name, that name is unbound, which the full walk leaves as it is. -/
theorem Sim.subscript_succ {v i : Expr} {l : Option Loc} {e' : Expr} (hv : v.markerLocs = [])
    (hi : i.markerLocs = []) (hx : exprInvocation? X.bindings (.mk (.subscript v i) l) = none)
    (h : ((X.withLimit m₁).visitExpr (f + 1) d true (.mk (.subscript v i) l)).run s = .ok e' s') :
    s' = s ∧ ∃ e₁,
      ((X.withLimit m₁).visitExpr (f + 1) d false (.mk (.subscript v i) l)).run s = .ok e₁ s ∧
      ((X.withLimit m₂).visitExpr (f + 1) d true e₁).run s = .ok e' s ∧
      ExprStep X.bindings (.mk (.subscript v i) l) e₁ := by
  cases hva : v.asName? with
  | none =>
    rw [visitExpr_subscript_of_asName d true f v i l hva] at h
    obtain ⟨v', h, v₁, hSv, hEv, sv⟩ := ih.expr_bind hv h
    obtain ⟨i', h, i₁, hSi, hEi, si⟩ := ih.expr_bind hi h
    cases h
    have hv₁ : ¬ v₁.IsBoundName X.bindings := sv.head (Expr.not_isBoundName_of_asName _ hva)
    refine ⟨rfl, .mk (.subscript v₁ i₁) l, ?_, ?_,
      .of_asName _ rfl (by simp [Expr.markerLocs, sv.unmarked, si.unmarked])⟩
    · rw [visitExpr_subscript_of_asName d false f v i l hva]
      exact run_bind_of_ok hSv (run_bind_of_ok hSi rfl)
    · cases hva₁ : v₁.asName? with
      | none =>
        rw [visitExpr_subscript_of_asName d true f v₁ i₁ l hva₁]
        exact run_bind_of_ok hEv (run_bind_of_ok hEi rfl)
      | some n =>
        obtain ⟨vk, vl⟩ := v₁
        cases vk with
        | name n' =>
          have hb : X.bindings.isBound n' = false := by
            simpa [Expr.IsBoundName, Expr.asName?] using hv₁
          obtain ⟨rfl, -⟩ := visitExpr_unbound_run (Y := X.withLimit m₂) hb hEv
          have hx₁ : exprInvocation? X.bindings (.mk (.subscript (.mk (.name n') vl) i₁) l) =
              none := by
            simp [exprInvocation?, hb]
          simp only [visitExpr, withLimit_bindings, hx₁, nameInvocation?]
          exact run_bind_of_ok hEi rfl
        | _ => simp [Expr.asName?] at hva₁
  | some n =>
    obtain ⟨vk, vl⟩ := v
    cases vk with
    | name n =>
      simp only [visitExpr, withLimit_bindings, hx, nameInvocation?] at h
      obtain ⟨i', h, i₁, hSi, hEi, si⟩ := ih.expr_bind hi h
      cases h
      have hx₁ : exprInvocation? X.bindings (.mk (.subscript (.mk (.name n) vl) i₁) l) = none := by
        simpa [exprInvocation?] using hx
      refine ⟨rfl, .mk (.subscript (.mk (.name n) vl) i₁) l, ?_, ?_,
        .of_asName _ rfl (by simp [Expr.markerLocs, si.unmarked])⟩
      · simp only [visitExpr, withLimit_bindings, hx, nameInvocation?]
        exact run_bind_of_ok hSi rfl
      · simp only [visitExpr, withLimit_bindings, hx₁, nameInvocation?]
        exact run_bind_of_ok hEi rfl
    | _ => simp [Expr.asName?] at hva

/-- A node that invokes nothing steps part by part, and the full walk of the stepped node
takes the same parts: the stepped node invokes nothing either, since no part that was no
bound bare name became one. -/
theorem Sim.node_succ {e e' : Expr} (he : e.markerLocs = [])
    (hx : exprInvocation? X.bindings e = none)
    (hn : nameInvocation? X.bindings X.isNameMacro e = none)
    (h : ((X.withLimit m₁).visitExpr (f + 1) d true e).run s = .ok e' s') :
    s' = s ∧ ∃ e₁, ((X.withLimit m₁).visitExpr (f + 1) d false e).run s = .ok e₁ s ∧
      ((X.withLimit m₂).visitExpr (f + 1) d true e₁).run s = .ok e' s ∧
      ExprStep X.bindings e e₁ := by
  obtain ⟨k, l⟩ := e
  cases k with
  | done inner => simp [Expr.markerLocs] at he
  | name n =>
    simp only [visitExpr, withLimit_bindings, withLimit_isNameMacro, hn, exprInvocation?] at h
    cases h
    refine ⟨rfl, _, ?_, ?_, .refl _ he⟩ <;>
      simp only [visitExpr, withLimit_bindings, withLimit_isNameMacro, hn, exprInvocation?] <;> rfl
  | const c =>
    simp only [visitExpr, exprInvocation?, nameInvocation?] at h
    cases h
    refine ⟨rfl, _, ?_, ?_, .refl _ he⟩ <;>
      simp only [visitExpr, exprInvocation?, nameInvocation?] <;> rfl
  | binOp op a c =>
    simp only [Expr.markerLocs, List.append_eq_nil_iff] at he
    simp only [visitExpr, exprInvocation?, nameInvocation?] at h
    obtain ⟨a', h, a₁, hSa, hEa, sa⟩ := ih.expr_bind he.1 h
    obtain ⟨c', h, c₁, hSc, hEc, sc⟩ := ih.expr_bind he.2 h
    cases h
    refine ⟨rfl, .mk (.binOp op a₁ c₁) l, ?_, ?_,
      .of_asName _ rfl (by simp [Expr.markerLocs, sa.unmarked, sc.unmarked])⟩ <;>
      simp only [visitExpr, exprInvocation?, nameInvocation?]
    · exact run_bind_of_ok hSa (run_bind_of_ok hSc rfl)
    · exact run_bind_of_ok hEa (run_bind_of_ok hEc rfl)
  | unaryOp op a =>
    simp only [Expr.markerLocs] at he
    simp only [visitExpr, exprInvocation?, nameInvocation?] at h
    obtain ⟨a', h, a₁, hSa, hEa, sa⟩ := ih.expr_bind he h
    cases h
    refine ⟨rfl, .mk (.unaryOp op a₁) l, ?_, ?_,
      .of_asName _ rfl (by simp [Expr.markerLocs, sa.unmarked])⟩ <;>
      simp only [visitExpr, exprInvocation?, nameInvocation?]
    · exact run_bind_of_ok hSa rfl
    · exact run_bind_of_ok hEa rfl
  | call fn args =>
    simp only [Expr.markerLocs, List.append_eq_nil_iff] at he
    simp only [visitExpr, exprInvocation?, nameInvocation?] at h
    obtain ⟨fn', h, fn₁, hSf, hEf, sf⟩ := ih.expr_bind he.1 h
    obtain ⟨args', h, args₁, hSa, hEa, sa⟩ := ih.exprs_bind he.2 h
    cases h
    refine ⟨rfl, .mk (.call fn₁ args₁) l, ?_, ?_,
      .of_asName _ rfl (by simp [Expr.markerLocs, sf.unmarked, sa.unmarked])⟩ <;>
      simp only [visitExpr, exprInvocation?, nameInvocation?]
    · exact run_bind_of_ok hSf (run_bind_of_ok hSa rfl)
    · exact run_bind_of_ok hEf (run_bind_of_ok hEa rfl)
  | «attribute» v a =>
    simp only [Expr.markerLocs] at he
    simp only [visitExpr, exprInvocation?, nameInvocation?] at h
    obtain ⟨v', h, v₁, hSv, hEv, sv⟩ := ih.expr_bind he h
    cases h
    refine ⟨rfl, .mk (.attribute v₁ a) l, ?_, ?_,
      .of_asName _ rfl (by simp [Expr.markerLocs, sv.unmarked])⟩ <;>
      simp only [visitExpr, exprInvocation?, nameInvocation?]
    · exact run_bind_of_ok hSv rfl
    · exact run_bind_of_ok hEv rfl
  | subscript v i =>
    simp only [Expr.markerLocs, List.append_eq_nil_iff] at he
    exact ih.subscript_succ he.1 he.2 hx h
  | list items =>
    simp only [Expr.markerLocs] at he
    simp only [visitExpr, exprInvocation?, nameInvocation?] at h
    obtain ⟨items', h, items₁, hS, hE, si⟩ := ih.exprs_bind he h
    cases h
    refine ⟨rfl, .mk (.list items₁) l, ?_, ?_,
      .of_asName _ rfl (by simp [Expr.markerLocs, si.unmarked])⟩ <;>
      simp only [visitExpr, exprInvocation?, nameInvocation?]
    · exact run_bind_of_ok hS rfl
    · exact run_bind_of_ok hE rfl
  | tuple items =>
    simp only [Expr.markerLocs] at he
    simp only [visitExpr, exprInvocation?, nameInvocation?] at h
    obtain ⟨items', h, items₁, hS, hE, si⟩ := ih.exprs_bind he h
    cases h
    refine ⟨rfl, .mk (.tuple items₁) l, ?_, ?_,
      .of_asName _ rfl (by simp [Expr.markerLocs, si.unmarked])⟩ <;>
      simp only [visitExpr, exprInvocation?, nameInvocation?]
    · exact run_bind_of_ok hS rfl
    · exact run_bind_of_ok hE rfl
  | lambda ps b =>
    simp only [Expr.markerLocs] at he
    simp only [visitExpr, exprInvocation?, nameInvocation?] at h
    obtain ⟨b', h, b₁, hSb, hEb, sb⟩ := ih.expr_bind he h
    cases h
    refine ⟨rfl, .mk (.lambda ps b₁) l, ?_, ?_,
      .of_asName _ rfl (by simp [Expr.markerLocs, sb.unmarked])⟩ <;>
      simp only [visitExpr, exprInvocation?, nameInvocation?]
    · exact run_bind_of_ok hSb rfl
    · exact run_bind_of_ok hEb rfl
  | ifExp t b o =>
    simp only [Expr.markerLocs, List.append_eq_nil_iff] at he
    simp only [visitExpr, exprInvocation?, nameInvocation?] at h
    obtain ⟨t', h, t₁, hSt, hEt, st⟩ := ih.expr_bind he.1.2 h
    obtain ⟨b', h, b₁, hSb, hEb, sb⟩ := ih.expr_bind he.1.1 h
    obtain ⟨o', h, o₁, hSo, hEo, so⟩ := ih.expr_bind he.2 h
    cases h
    refine ⟨rfl, .mk (.ifExp t₁ b₁ o₁) l, ?_, ?_,
      .of_asName _ rfl (by simp [Expr.markerLocs, st.unmarked, sb.unmarked, so.unmarked])⟩ <;>
      simp only [visitExpr, exprInvocation?, nameInvocation?]
    · exact run_bind_of_ok hSt (run_bind_of_ok hSb (run_bind_of_ok hSo rfl))
    · exact run_bind_of_ok hEt (run_bind_of_ok hEb (run_bind_of_ok hEo rfl))

theorem Sim.exprs_succ (d : Nat) (es es' : List Expr) (s s' : σ)
    (hes : Expr.markerLocsList es = [])
    (h : ((X.withLimit m₁).visitExprs (f + 1) d true es).run s = .ok es' s') :
    s' = s ∧ ∃ es₁, ((X.withLimit m₁).visitExprs (f + 1) d false es).run s = .ok es₁ s ∧
      ((X.withLimit m₂).visitExprs (f + 1) d true es₁).run s = .ok es' s ∧
      ExprsStep X.bindings es es₁ := by
  induction es generalizing es' s' with
  | nil =>
    rw [visitExprs_nil] at h
    cases h
    exact ⟨rfl, [], by rw [visitExprs_nil]; rfl, by rw [visitExprs_nil]; rfl, .nil _⟩
  | cons e es ihs =>
    simp only [Expr.markerLocsList, List.append_eq_nil_iff] at hes
    rw [visitExprs_cons] at h
    obtain ⟨e', h, e₁, hSe, hEe, se⟩ := ih.expr_bind hes.1 h
    obtain ⟨es', s₂, h₂, h₃⟩ := run_bind_ok h
    obtain ⟨hs₂, es₁, hSs, hEs, ss⟩ := ihs es' s₂ hes.2 h₂
    subst s₂
    cases h₃
    refine ⟨rfl, e₁ :: es₁, ?_, ?_, ExprsStep.cons _ se ss⟩ <;> rw [visitExprs_cons]
    · exact run_bind_of_ok hSe (run_bind_of_ok hSs rfl)
    · exact run_bind_of_ok hEe (run_bind_of_ok hEs rfl)

theorem Sim.opt_succ (d : Nat) (o o' : Option Expr) (s s' : σ) (ho : Expr.markerLocsOpt o = [])
    (h : ((X.withLimit m₁).visitOpt (f + 1) d true o).run s = .ok o' s') :
    s' = s ∧ ∃ o₁, ((X.withLimit m₁).visitOpt (f + 1) d false o).run s = .ok o₁ s ∧
      ((X.withLimit m₂).visitOpt (f + 1) d true o₁).run s = .ok o' s ∧
      Expr.markerLocsOpt o₁ = [] := by
  cases o with
  | none =>
    rw [visitOpt_none] at h
    cases h
    exact ⟨rfl, none, by rw [visitOpt_none]; rfl, by rw [visitOpt_none]; rfl, rfl⟩
  | some e =>
    rw [visitOpt_some] at h
    obtain ⟨e', h₁, rfl⟩ := run_map_ok h
    obtain ⟨rfl, e₁, hSe, hEe, se⟩ := ih.expr d e e' s s' ho h₁
    exact ⟨rfl, some e₁, by rw [visitOpt_some]; exact run_map_of_ok hSe,
      by rw [visitOpt_some]; exact run_map_of_ok hEe, se.unmarked⟩

/-- A statement that invokes nothing steps part by part; the stepped statement invokes nothing
either, since its item and decorators stay no bound bare names. -/
theorem Sim.plainStmt_succ {k : StmtKind} {l : Option Loc} {ss' : List Stmt}
    (hst : (Stmt.mk k l).markerLocs = []) (hc : (Stmt.mk k l).shortChains X.bindings = true)
    (hbl : blockInvocation? X.bindings (.mk k l) = none)
    (hdec : decoratorInvocations X.bindings (.mk k l) = [])
    (h : ((X.withLimit m₁).visitStmt (f + 1) d true (.mk k l)).run s = .ok ss' s') :
    s' = s ∧ ∃ ss₁, ((X.withLimit m₁).visitStmt (f + 1) d false (.mk k l)).run s = .ok ss₁ s ∧
      ((X.withLimit m₂).visitBody (f + 2) d true ss₁).run s = .ok ss' s ∧
      BodyReady X.bindings ss₁ := by
  cases k with
  | done ss => simp [Stmt.markerLocs] at hst
  | expr v =>
    simp only [Stmt.markerLocs] at hst
    simp only [visitStmt, blockInvocation?, decoratorInvocations, List.isEmpty_nil] at h
    obtain ⟨v', h, v₁, hSv, hEv, sv⟩ := ih.expr_bind hst h
    cases h
    refine ⟨rfl, [.mk (.expr v₁) l], ?_, visitBody_singleton_run ?_,
      .single _ (by simp [Stmt.markerLocs, sv.unmarked])
        (by simp [Stmt.shortChains, decoratorInvocations])⟩ <;>
      simp only [visitStmt, blockInvocation?, decoratorInvocations, List.isEmpty_nil]
    · exact run_bind_of_ok hSv rfl
    · exact run_bind_of_ok hEv rfl
  | assign t v =>
    simp only [Stmt.markerLocs, List.append_eq_nil_iff] at hst
    simp only [visitStmt, blockInvocation?, decoratorInvocations, List.isEmpty_nil] at h
    obtain ⟨t', h, t₁, hSt, hEt, st⟩ := ih.expr_bind hst.1 h
    obtain ⟨v', h, v₁, hSv, hEv, sv⟩ := ih.expr_bind hst.2 h
    cases h
    refine ⟨rfl, [.mk (.assign t₁ v₁) l], ?_, visitBody_singleton_run ?_,
      .single _ (by simp [Stmt.markerLocs, st.unmarked, sv.unmarked])
        (by simp [Stmt.shortChains, decoratorInvocations])⟩ <;>
      simp only [visitStmt, blockInvocation?, decoratorInvocations, List.isEmpty_nil]
    · exact run_bind_of_ok hSt (run_bind_of_ok hSv rfl)
    · exact run_bind_of_ok hEt (run_bind_of_ok hEv rfl)
  | withBlock i a body =>
    simp only [Stmt.markerLocs, List.append_eq_nil_iff] at hst
    have hcb : Stmt.shortChainsList X.bindings body = true := by
      simp only [Stmt.shortChains, Bool.and_eq_true] at hc
      exact hc.2
    have hi : ¬ i.IsBoundName X.bindings := blockInvocation?_eq_none_iff.mp hbl
    simp only [visitStmt, withLimit_bindings, hbl, decoratorInvocations, List.isEmpty_nil] at h
    obtain ⟨i', h, i₁, hSi, hEi, si⟩ := ih.expr_bind hst.1 h
    obtain ⟨b', h, b₁, hSb, hEb, sb⟩ := ih.body_bind ⟨hst.2, hcb⟩ h
    cases h
    have hbl₁ : blockInvocation? X.bindings (.mk (.withBlock i₁ a b₁) l) = none :=
      blockInvocation?_eq_none_iff.mpr (si.head hi)
    refine ⟨rfl, [.mk (.withBlock i₁ a b₁) l], ?_, visitBody_singleton_run ?_,
      .single _ (by simp [Stmt.markerLocs, si.unmarked, sb.1])
        (by simp [Stmt.shortChains, decoratorInvocations, sb.2])⟩
    · simp only [visitStmt, withLimit_bindings, hbl, decoratorInvocations, List.isEmpty_nil]
      exact run_bind_of_ok hSi (run_bind_of_ok hSb rfl)
    · simp only [visitStmt, withLimit_bindings, hbl₁, decoratorInvocations, List.isEmpty_nil]
      exact run_bind_of_ok hEi (run_bind_of_ok hEb rfl)
  | functionDef n ps body ds =>
    simp only [Stmt.markerLocs, List.append_eq_nil_iff] at hst
    have hcb : Stmt.shortChainsList X.bindings body = true := by
      simp only [Stmt.shortChains, Bool.and_eq_true] at hc
      exact hc.2
    have hds : ∀ x ∈ ds, ¬ x.IsBoundName X.bindings := (decorators_nil_iff _).mp hdec
    simp only [visitStmt, withLimit_bindings, blockInvocation?, hdec, List.isEmpty_nil] at h
    obtain ⟨ds', h, ds₁, hSd, hEd, sd⟩ := ih.exprs_bind hst.1 h
    obtain ⟨b', h, b₁, hSb, hEb, sb⟩ := ih.body_bind ⟨hst.2, hcb⟩ h
    cases h
    have hdec₁ : decoratorInvocations X.bindings (.mk (.functionDef n ps b₁ ds₁) l) = [] :=
      (decorators_nil_iff _).mpr (sd.heads hds)
    refine ⟨rfl, [.mk (.functionDef n ps b₁ ds₁) l], ?_, visitBody_singleton_run ?_,
      .single _ (by simp [Stmt.markerLocs, sd.unmarked, sb.1])
        (by simp [Stmt.shortChains, hdec₁, sb.2])⟩
    · simp only [visitStmt, withLimit_bindings, blockInvocation?, hdec, List.isEmpty_nil]
      exact run_bind_of_ok hSd (run_bind_of_ok hSb rfl)
    · simp only [visitStmt, withLimit_bindings, blockInvocation?, hdec₁, List.isEmpty_nil]
      exact run_bind_of_ok hEd (run_bind_of_ok hEb rfl)
  | classDef n body ds =>
    simp only [Stmt.markerLocs, List.append_eq_nil_iff] at hst
    have hcb : Stmt.shortChainsList X.bindings body = true := by
      simp only [Stmt.shortChains, Bool.and_eq_true] at hc
      exact hc.2
    have hds : ∀ x ∈ ds, ¬ x.IsBoundName X.bindings := (decorators_nil_iff _).mp hdec
    simp only [visitStmt, withLimit_bindings, blockInvocation?, hdec, List.isEmpty_nil] at h
    obtain ⟨ds', h, ds₁, hSd, hEd, sd⟩ := ih.exprs_bind hst.1 h
    obtain ⟨b', h, b₁, hSb, hEb, sb⟩ := ih.body_bind ⟨hst.2, hcb⟩ h
    cases h
    have hdec₁ : decoratorInvocations X.bindings (.mk (.classDef n b₁ ds₁) l) = [] :=
      (decorators_nil_iff _).mpr (sd.heads hds)
    refine ⟨rfl, [.mk (.classDef n b₁ ds₁) l], ?_, visitBody_singleton_run ?_,
      .single _ (by simp [Stmt.markerLocs, sd.unmarked, sb.1])
        (by simp [Stmt.shortChains, hdec₁, sb.2])⟩
    · simp only [visitStmt, withLimit_bindings, blockInvocation?, hdec, List.isEmpty_nil]
      exact run_bind_of_ok hSd (run_bind_of_ok hSb rfl)
    · simp only [visitStmt, withLimit_bindings, blockInvocation?, hdec₁, List.isEmpty_nil]
      exact run_bind_of_ok hEd (run_bind_of_ok hEb rfl)
  | ret v =>
    simp only [Stmt.markerLocs] at hst
    simp only [visitStmt, blockInvocation?, decoratorInvocations, List.isEmpty_nil] at h
    obtain ⟨v', h, v₁, hSv, hEv, sv⟩ := ih.opt_bind hst h
    cases h
    refine ⟨rfl, [.mk (.ret v₁) l], ?_, visitBody_singleton_run ?_,
      .single _ (by simp [Stmt.markerLocs, sv])
        (by simp [Stmt.shortChains, decoratorInvocations])⟩ <;>
      simp only [visitStmt, blockInvocation?, decoratorInvocations, List.isEmpty_nil]
    · exact run_bind_of_ok hSv rfl
    · exact run_bind_of_ok hEv rfl
  | ifElse t body o =>
    simp only [Stmt.markerLocs, List.append_eq_nil_iff] at hst
    have hcb : Stmt.shortChainsList X.bindings body = true ∧
        Stmt.shortChainsList X.bindings o = true := by
      simp only [Stmt.shortChains, Bool.and_eq_true] at hc
      exact hc.2
    simp only [visitStmt, blockInvocation?, decoratorInvocations, List.isEmpty_nil] at h
    obtain ⟨t', h, t₁, hSt, hEt, st⟩ := ih.expr_bind hst.1.1 h
    obtain ⟨b', h, b₁, hSb, hEb, sb⟩ := ih.body_bind ⟨hst.1.2, hcb.1⟩ h
    obtain ⟨o', h, o₁, hSo, hEo, so⟩ := ih.body_bind ⟨hst.2, hcb.2⟩ h
    cases h
    refine ⟨rfl, [.mk (.ifElse t₁ b₁ o₁) l], ?_, visitBody_singleton_run ?_,
      .single _ (by simp [Stmt.markerLocs, st.unmarked, sb.1, so.1])
        (by simp [Stmt.shortChains, decoratorInvocations, sb.2, so.2])⟩ <;>
      simp only [visitStmt, blockInvocation?, decoratorInvocations, List.isEmpty_nil]
    · exact run_bind_of_ok hSt (run_bind_of_ok hSb (run_bind_of_ok hSo rfl))
    · exact run_bind_of_ok hEt (run_bind_of_ok hEb (run_bind_of_ok hEo rfl))
  | whileLoop t body =>
    simp only [Stmt.markerLocs, List.append_eq_nil_iff] at hst
    have hcb : Stmt.shortChainsList X.bindings body = true := by
      simp only [Stmt.shortChains, Bool.and_eq_true] at hc
      exact hc.2
    simp only [visitStmt, blockInvocation?, decoratorInvocations, List.isEmpty_nil] at h
    obtain ⟨t', h, t₁, hSt, hEt, st⟩ := ih.expr_bind hst.1 h
    obtain ⟨b', h, b₁, hSb, hEb, sb⟩ := ih.body_bind ⟨hst.2, hcb⟩ h
    cases h
    refine ⟨rfl, [.mk (.whileLoop t₁ b₁) l], ?_, visitBody_singleton_run ?_,
      .single _ (by simp [Stmt.markerLocs, st.unmarked, sb.1])
        (by simp [Stmt.shortChains, decoratorInvocations, sb.2])⟩ <;>
      simp only [visitStmt, blockInvocation?, decoratorInvocations, List.isEmpty_nil]
    · exact run_bind_of_ok hSt (run_bind_of_ok hSb rfl)
    · exact run_bind_of_ok hEt (run_bind_of_ok hEb rfl)
  | forLoop x i body =>
    simp only [Stmt.markerLocs, List.append_eq_nil_iff] at hst
    have hcb : Stmt.shortChainsList X.bindings body = true := by
      simp only [Stmt.shortChains, Bool.and_eq_true] at hc
      exact hc.2
    simp only [visitStmt, blockInvocation?, decoratorInvocations, List.isEmpty_nil] at h
    obtain ⟨i', h, i₁, hSi, hEi, si⟩ := ih.expr_bind hst.1 h
    obtain ⟨b', h, b₁, hSb, hEb, sb⟩ := ih.body_bind ⟨hst.2, hcb⟩ h
    cases h
    refine ⟨rfl, [.mk (.forLoop x i₁ b₁) l], ?_, visitBody_singleton_run ?_,
      .single _ (by simp [Stmt.markerLocs, si.unmarked, sb.1])
        (by simp [Stmt.shortChains, decoratorInvocations, sb.2])⟩ <;>
      simp only [visitStmt, blockInvocation?, decoratorInvocations, List.isEmpty_nil]
    · exact run_bind_of_ok hSi (run_bind_of_ok hSb rfl)
    · exact run_bind_of_ok hEi (run_bind_of_ok hEb rfl)
  | assertion t m =>
    simp only [Stmt.markerLocs, List.append_eq_nil_iff] at hst
    simp only [visitStmt, blockInvocation?, decoratorInvocations, List.isEmpty_nil] at h
    obtain ⟨t', h, t₁, hSt, hEt, st⟩ := ih.expr_bind hst.1 h
    obtain ⟨m', h, m₁', hSm, hEm, sm⟩ := ih.opt_bind hst.2 h
    cases h
    refine ⟨rfl, [.mk (.assertion t₁ m₁') l], ?_, visitBody_singleton_run ?_,
      .single _ (by simp [Stmt.markerLocs, st.unmarked, sm])
        (by simp [Stmt.shortChains, decoratorInvocations])⟩ <;>
      simp only [visitStmt, blockInvocation?, decoratorInvocations, List.isEmpty_nil]
    · exact run_bind_of_ok hSt (run_bind_of_ok hSm rfl)
    · exact run_bind_of_ok hEt (run_bind_of_ok hEm rfl)
  | importModule _ _ | importFrom _ _ _ | pass | breakLoop | continueLoop =>
    simp only [visitStmt, blockInvocation?, decoratorInvocations, List.isEmpty_nil] at h
    cases h
    refine ⟨rfl, _, ?_, visitBody_singleton_run ?_, .single _ hst hc⟩ <;>
      simp only [visitStmt, blockInvocation?, decoratorInvocations, List.isEmpty_nil] <;> rfl

theorem Sim.body_succ (d : Nat) (ss ss' : List Stmt) (s s' : σ) (hss : BodyReady X.bindings ss)
    (h : ((X.withLimit m₁).visitBody (f + 1) d true ss).run s = .ok ss' s') :
    s' = s ∧ ∃ ss₁, ((X.withLimit m₁).visitBody (f + 1) d false ss).run s = .ok ss₁ s ∧
      ((X.withLimit m₂).visitBody (f + 1) d true ss₁).run s = .ok ss' s ∧
      BodyReady X.bindings ss₁ := by
  induction ss generalizing ss' s' with
  | nil =>
    rw [visitBody_nil] at h
    cases h
    exact ⟨rfl, [], by rw [visitBody_nil]; rfl, by rw [visitBody_nil]; rfl, .nil _⟩
  | cons st ss ihs =>
    obtain ⟨⟨hm, hc⟩, hss⟩ := (BodyReady.cons_iff _).mp hss
    rw [visitBody_cons] at h
    obtain ⟨r, s₁, h₁, h₂⟩ := run_bind_ok h
    obtain ⟨hs₁, r₁, hSr, hEr, sr⟩ := ih.stmt d st r s s₁ hm hc h₁
    subst s₁
    obtain ⟨rs, s₂, h₃, h₄⟩ := run_bind_ok h₂
    obtain ⟨hs₂, rs₁, hSrs, hErs, srs⟩ := ihs rs s₂ hss h₃
    subst s₂
    cases h₄
    refine ⟨rfl, r₁ ++ rs₁, ?_, visitBody_append_run hEr hErs, sr.append _ srs⟩
    rw [visitBody_cons]
    exact run_bind_of_ok hSr (run_bind_of_ok hSrs rfl)

end SimSucc

section SimExpr
variable {X : Expander (EStateM Error σ) Mac}
  {g : String → Shape → Tree → Option String → Option Loc → Except Error (Option Tree)}
  {m₁ m₂ : Option Nat} {f : Nat} (hX : X.Plain g)
  (hm : ∀ n, m₁.all (n + 1 < ·) → m₂.all (n < ·)) (hP : InPlace X g) (ih : Sim X m₁ m₂ f)
include hX hm hP ih

theorem Sim.expr_succ (d : Nat) (e e' : Expr) (s s' : σ) (he : e.markerLocs = [])
    (h : ((X.withLimit m₁).visitExpr (f + 1) d true e).run s = .ok e' s') :
    s' = s ∧ ∃ e₁, ((X.withLimit m₁).visitExpr (f + 1) d false e).run s = .ok e₁ s ∧
      ((X.withLimit m₂).visitExpr (f + 1) d true e₁).run s = .ok e' s ∧
      ExprStep X.bindings e e₁ := by
  cases hx : exprInvocation? X.bindings e with
  | some name => exact step_exprInvocation hX hm hP hx h
  | none =>
    cases hn : nameInvocation? X.bindings X.isNameMacro e with
    | some name => exact step_nameInvocation hX hm hP hn h
    | none => exact ih.node_succ he hx hn h

/-- A statement: a block invocation, a definition with its one macro decorator, or a
statement that invokes nothing. -/
theorem Sim.stmt_succ (d : Nat) (st : Stmt) (ss' : List Stmt) (s s' : σ) (hst : st.markerLocs = [])
    (hc : st.shortChains X.bindings = true)
    (h : ((X.withLimit m₁).visitStmt (f + 1) d true st).run s = .ok ss' s') :
    s' = s ∧ ∃ ss₁, ((X.withLimit m₁).visitStmt (f + 1) d false st).run s = .ok ss₁ s ∧
      ((X.withLimit m₂).visitBody (f + 1 + 1) d true ss₁).run s = .ok ss' s ∧
      BodyReady X.bindings ss₁ := by
  obtain ⟨k, l⟩ := st
  cases hbl : blockInvocation? X.bindings (.mk k l) with
  | some name => exact step_block hX hm hP hbl h
  | none =>
    cases hdec : decoratorInvocations X.bindings (.mk k l) with
    | nil => exact ih.plainStmt_succ hst hc hbl hdec h
    | cons name rest =>
      -- short chains leave one macro decorator
      have hlen := Stmt.decoratorInvocations_length_le _ hc
      rw [hdec] at hlen
      obtain rfl : rest = [] := by simpa using hlen
      exact step_decorated hX hm hP hdec h

end SimExpr

/-- One layer, then full expansion under a bound one lower, agrees with full expansion at
every fuel. -/
theorem sim {X : Expander (EStateM Error σ) Mac}
    {g : String → Shape → Tree → Option String → Option Loc → Except Error (Option Tree)}
    {m₁ m₂ : Option Nat} (hX : X.Plain g) (hm : ∀ n, m₁.all (n + 1 < ·) → m₂.all (n < ·))
    (hP : InPlace X g) : ∀ f, Sim X m₁ m₂ f
  | 0 => sim_zero
  | f + 1 =>
    have ih := sim hX hm hP f
    { expr := ih.expr_succ hX hm hP
      exprs := ih.exprs_succ
      opt := ih.opt_succ
      stmt := ih.stmt_succ hX hm hP
      body := ih.body_succ }

/-- Trees without markers and with short decorator chains: full expansion under `m₁` is one
layer under `m₁`, then full expansion under `m₂`. -/
theorem Sim.tree {X : Expander (EStateM Error σ) Mac} {m₁ m₂ : Option Nat} {f d : Nat}
    {t r : Tree} {s s' : σ} (hs : Sim X m₁ m₂ f) (ht : t.Unmarked)
    (hc : t.shortChains X.bindings = true)
    (h : ((X.withLimit m₁).visitTree (f + 1) d true t).run s = .ok r s') :
    s' = s ∧ ∃ t₁, ((X.withLimit m₁).visitTree (f + 1) d false t).run s = .ok t₁ s ∧
      ((X.withLimit m₂).visitTree (f + 1) d true t₁).run s = .ok r s ∧
      t₁.Unmarked ∧ t₁.shortChains X.bindings = true := by
  cases t with
  | expr e =>
    simp only [visitTree] at h ⊢
    obtain ⟨e', h₁, rfl⟩ := run_map_ok h
    obtain ⟨rfl, e₁, hS, hE, se⟩ := hs.expr d e e' s s' ht h₁
    exact ⟨rfl, .expr e₁, run_map_of_ok hS, by simp only [visitTree]; exact run_map_of_ok hE,
      se.unmarked, rfl⟩
  | stmts ss =>
    simp only [visitTree] at h ⊢
    obtain ⟨ss', h₁, rfl⟩ := run_map_ok h
    obtain ⟨rfl, ss₁, hS, hE, sr⟩ := hs.body d ss ss' s s' ⟨ht, hc⟩ h₁
    exact ⟨rfl, .stmts ss₁, run_map_of_ok hS, by simp only [visitTree]; exact run_map_of_ok hE,
      sr.1, sr.2⟩

/-! ## Expanding layer by layer -/

/-- Expands a tree one layer at a time, at the top of the tree, until no invocation is left,
for at most `n` layers. -/
def stepwise (X : Expander (EStateM Error σ) Mac) (f : Nat) : Nat → Tree → EStateM Error σ Tree
  | 0, t => pure t
  | n + 1, t =>
    if (Tree.collect X.bindings X.isNameMacro t).isEmpty then pure t
    else do
      let t₁ ← X.visitTree f 0 false t
      X.stepwise f n t₁

section Stepwise
variable {X : Expander (EStateM Error σ) Mac}
  {g : String → Shape → Tree → Option String → Option Loc → Except Error (Option Tree)}
  {f : Nat} {t r : Tree} {s s' : σ}

theorem stepwise_of_collect_nil (h : Tree.collect X.bindings X.isNameMacro t = []) (n : Nat) :
    X.stepwise f n t = pure t := by
  cases n <;> simp [stepwise, h]

theorem stepwise_succ_of_collect (h : Tree.collect X.bindings X.isNameMacro t ≠ []) (n : Nat) :
    X.stepwise f (n + 1) t = X.visitTree f 0 false t >>= X.stepwise f n := by
  simp [stepwise, List.isEmpty_iff, h]

variable (hX : X.Plain g)
include hX

/-- A run with an empty inventory gave the tree back. -/
theorem run_of_collect_nil (m : Option Nat) {d : Nat} {rec : Bool}
    (hcol : Tree.collect X.bindings X.isNameMacro t = [])
    (h : ((X.withLimit m).visitTree f d rec t).run s = .ok r s') : r = t ∧ s' = s := by
  obtain ⟨rfl, hF⟩ := (transfer hX m m f).tree (max f (sizeOf t + 1)) d d rec t (le_max_left _ _)
    (Below.refl rec m f d) s r s' h
  rw [visitTree_of_collect_nil (X := X.withLimit m) t _ d (by omega) hcol] at hF
  cases hF
  exact ⟨rfl, rfl⟩

/-- Under the bound `0`, a run on a tree with a nonempty inventory fails. -/
theorem not_run_at_zero {rec : Bool} (hcol : Tree.collect X.bindings X.isNameMacro t ≠ [])
    (h : ((X.withLimit (some 0)).visitTree f 0 rec t).run s = .ok r s') : False := by
  obtain ⟨-, hF⟩ := (transfer hX (some 0) (some 0) f).tree (max f (sizeOf t + 1)) 0 0 rec t
    (le_max_left _ _) (Below.refl rec (some 0) f 0) s r s' h
  obtain ⟨e, he, -⟩ := visitTree_fails_at_limit (X := X.withLimit (some 0)) t (max f (sizeOf t + 1)) 0
    (by omega) hcol
    (by simp) rec
  rw [he] at hF
  cases hF

variable (hP : InPlace X g)
include hP

/-- Under the bound `k`, a full expansion is reached layer by layer: each layer under `X`
leaves a tree that expands fully under the bound `k - 1` to the same result. The induction is
on the bound. -/
theorem stepwise_of_limit (k : Nat) :
    ∀ {f : Nat} {t r : Tree} {s s' : σ}, (0 < k → X.maxDepth.all (0 < ·)) → t.Unmarked →
      t.shortChains X.bindings = true →
      ((X.withLimit (some k)).visitTree f 0 true t).run s = .ok r s' →
      s' = s ∧ r.Unmarked ∧ Tree.collect X.bindings X.isNameMacro r = [] ∧
        ∃ n, (X.stepwise f n t).run s = .ok r s := by
  induction k with
  | zero =>
    intro f t r s s' _ ht _ h
    by_cases hcol : Tree.collect X.bindings X.isNameMacro t = []
    · obtain ⟨rfl, rfl⟩ := run_of_collect_nil hX _ hcol h
      exact ⟨rfl, ht, hcol, 0, rfl⟩
    · exact (not_run_at_zero hX hcol h).elim
  | succ k ih =>
    intro f t r s s' hk ht hc h
    by_cases hcol : Tree.collect X.bindings X.isNameMacro t = []
    · obtain ⟨rfl, rfl⟩ := run_of_collect_nil hX _ hcol h
      exact ⟨rfl, ht, hcol, 0, rfl⟩
    · cases f with
      | zero =>
        simp only [visitTree] at h
        cases h
      | succ f =>
        have hlow : ∀ n, (some (k + 1)).all (n + 1 < ·) → (some k).all (n < ·) := by
          intro n hn
          simp only [Option.all_some, decide_eq_true_eq] at hn ⊢
          omega
        obtain ⟨hs', t₁, hS, hE, ht₁, hc₁⟩ := (sim hX hlow hP f).tree ht hc h
        subst s'
        obtain ⟨-, hr, hcr, n, hn⟩ := ih (fun _ => hk (by omega)) ht₁ hc₁ hE
        -- the layer under `X` itself: it applies at depth `0` only
        have hS' : (X.visitTree (f + 1) 0 false t).run s = .ok t₁ s := by
          have := ((transfer hX (some (k + 1)) X.maxDepth (f + 1)).tree (f + 1) 0 0 false t
            le_rfl (fun _ => hk (by omega)) s t₁ s hS).2
          rwa [withLimit_self] at this
        refine ⟨rfl, hr, hcr, n + 1, ?_⟩
        rw [stepwise_succ_of_collect hcol]
        exact run_bind_of_ok hS' hn

/-- Expanding layer by layer reaches the full expansion. For plain macros whose results can be
expanded in place, and a tree with no marker whose definitions carry at most one macro
decorator each: if full expansion gives `r`, then `r` has no marker (so stripping markers
leaves it as it is) and no invocation, and expanding one layer at a time succeeds at every
step and stops at `r`. -/
theorem stepwise_reaches_expansion (ht : t.Unmarked) (hc : t.shortChains X.bindings = true)
    (h : (X.visitTree f 0 true t).run s = .ok r s') :
    s' = s ∧ r.Unmarked ∧ Tree.collect X.bindings X.isNameMacro r = [] ∧
      ∃ n, (X.stepwise f n t).run s = .ok r s := by
  cases hmx : X.maxDepth with
  | some k =>
    have hXk : X = X.withLimit (some k) := by rw [← hmx]; rfl
    rw [hXk] at h
    exact stepwise_of_limit hX hP k (fun hk => by simpa [hmx] using hk) ht hc h
  | none =>
    have hXn : X = X.withLimit none := by rw [← hmx]; rfl
    rw [hXn] at h
    -- with no bound, a run applies below its own fuel
    obtain ⟨rfl, h'⟩ := (transfer hX none (some f) f).tree f 0 0 true t le_rfl
      (fun j hj _ => by simpa using hj) s r s' h
    exact stepwise_of_limit hX hP f (fun _ => by simp [hmx]) ht hc h'

end Stepwise

/-! ## One expander, two decorations -/

/-- Whether a tree is one definition whose body is one assignment of a constant. -/
def settledDef : Tree → Bool
  | .stmts [.mk (.functionDef _ _ [.mk (.assign _ (.mk (.const _) _)) _] _) _] => true
  | _ => false

/-- The definition `def f(): x = m[1]`. -/
def callingDef : Stmt :=
  .bare (.functionDef "f" []
    [.bare (.assign (.bare (.name "x")) (.bare (.subscript (.bare (.name "m")) (.bare (.const (.int 1))))))]
    [])

/-- Three macros: `m[...]` gives `2`; the decorator `b` gives `callingDef`; the decorator `a`
gives `1` on a definition whose body is one assignment of a constant, and `0` on any other. -/
def layeredMacros (name : String) (shape : Shape) (t : Tree) (_ : Option String) (_ : Option Loc) :
    Except Error (Option Tree) :=
  match name, shape with
  | "m", .expr => .ok (some (.expr (.bare (.const (.int 2)))))
  | "b", .decorator => .ok (some (.stmts [callingDef]))
  | "a", .decorator => .ok (some (.expr (.bare (.const (.int (if settledDef t then 1 else 0))))))
  | _, _ => .ok none

/-- An expander whose macros are `layeredMacros`, with no bound on nesting. -/
def layered : Expander (EStateM Error Unit) Unit where
  bindings := ⟨[("m", ()), ("a", ()), ("b", ())]⟩
  filename := "t.trl"
  maxDepth := none
  isNameMacro _ := false
  invoke inv := ofExcept (layeredMacros inv.name inv.shape inv.tree inv.asName inv.loc)

theorem layered_plain : layered.Plain layeredMacros := fun _ => rfl

/-- What `layeredMacros` can give. -/
theorem layeredMacros_some {n : String} {sh : Shape} {t : Tree} {a : Option String}
    {l : Option Loc} {r : Tree} (h : layeredMacros n sh t a l = .ok (some r)) :
    (sh = .expr ∧ r = .expr (.bare (.const (.int 2)))) ∨
      (sh = .decorator ∧ r = .stmts [callingDef]) ∨
      (sh = .decorator ∧ ∃ i, r = .expr (.bare (.const (.int i)))) := by
  unfold layeredMacros at h
  split at h
  · cases h
    exact .inl ⟨rfl, rfl⟩
  · cases h
    exact .inr (.inl ⟨rfl, rfl⟩)
  · cases h
    exact .inr (.inr ⟨rfl, _, rfl⟩)
  · cases h

theorem layered_inPlace : InPlace layered layeredMacros where
  unmarked h := by
    rcases layeredMacros_some h with ⟨-, rfl⟩ | ⟨-, rfl⟩ | ⟨-, i, rfl⟩ <;> rfl
  chains h := by
    rcases layeredMacros_some h with ⟨-, rfl⟩ | ⟨-, rfl⟩ | ⟨-, i, rfl⟩ <;> rfl
  expr h := by
    rcases layeredMacros_some h with ⟨-, rfl⟩ | ⟨hsh, -⟩ | ⟨hsh, -⟩
    · exact ⟨_, rfl, by simp [Expr.IsBoundName, Expr.asName?, Expr.bare]⟩
    all_goals cases hsh
  name h := by
    rcases layeredMacros_some h with ⟨hsh, -⟩ | ⟨hsh, -⟩ | ⟨hsh, -⟩ <;> cases hsh
  stmt hsh hsh' h := by
    rcases layeredMacros_some h with ⟨rfl, -⟩ | ⟨-, hr⟩ | ⟨-, i, hr⟩
    · exact absurd rfl hsh
    · cases hr
    · cases hr
      exact ⟨rfl, rfl⟩

/-- `@b def g(): pass` followed by `y = m[3]`. -/
def decoratedCall : Tree :=
  .stmts [.bare (.functionDef "g" [] [.bare .pass] [.bare (.name "b")]),
    .bare (.assign (.bare (.name "y")) (.bare (.subscript (.bare (.name "m")) (.bare (.const (.int 3))))))]

/-- `def f(): x = 2` followed by `y = 2`. -/
def decoratedCallExpanded : Tree :=
  .stmts [.bare (.functionDef "f" [] [.bare (.assign (.bare (.name "x")) (.bare (.const (.int 2))))] []),
    .bare (.assign (.bare (.name "y")) (.bare (.const (.int 2))))]

theorem layered_decoratedCall :
    (layered.visitTree 20 0 true decoratedCall).run () = .ok decoratedCallExpanded () := by
  cbv

/-- Layer by layer, `layered` expands `decoratedCall` to what full expansion gives. -/
theorem layered_stepwise_reaches_expansion :
    ∃ n, (layered.stepwise 20 n decoratedCall).run () = .ok decoratedCallExpanded () :=
  (stepwise_reaches_expansion layered_plain layered_inPlace (t := decoratedCall) rfl rfl
    layered_decoratedCall).2.2.2

/-- `@a @b def g(): pass`: the decorator `a` over the decorator `b`. -/
def chainedDecorators : Tree :=
  .stmts [.bare (.functionDef "g" [] [.bare .pass] [.bare (.name "a"), .bare (.name "b")])]

/-- The constant `i` as a lone expression statement. -/
def constStmt (i : Int) : Tree :=
  .stmts [.bare (.expr (.bare (.const (.int i))))]

theorem layered_chainedDecorators :
    (layered.visitTree 20 0 true chainedDecorators).run () = .ok (constStmt 1) () := by
  cbv

theorem layered_chainedDecorators_once :
    (layered.visitTree 20 0 false chainedDecorators).run () = .ok (constStmt 0) () := by
  cbv

/-- With two macro decorators on one definition, expanding layer by layer never reaches the
full expansion, although the macros are plain and can be expanded in place: the full walk
hands the outer decorator `a` the inner decorator's result expanded, a layer hands it that
result as the macro gave it. -/
theorem stepwise_misses_chained_decorators :
    InPlace layered layeredMacros ∧ chainedDecorators.Unmarked ∧
      chainedDecorators.shortChains layered.bindings = false ∧
      (layered.visitTree 20 0 true chainedDecorators).run () = .ok (constStmt 1) () ∧
      ∀ n, (layered.stepwise 20 n chainedDecorators).run () ≠ .ok (constStmt 1) () := by
  refine ⟨layered_inPlace, rfl, rfl, layered_chainedDecorators, fun n => ?_⟩
  have hcol : Tree.collect layered.bindings layered.isNameMacro chainedDecorators ≠ [] := by
    rw [Ne, chainedDecorators, collect_stmts_eq_nil]
    decide
  have hcol₀ : Tree.collect layered.bindings layered.isNameMacro (constStmt 0) = [] := by
    rw [constStmt, collect_stmts_eq_nil]
    rfl
  cases n with
  | zero =>
    intro h
    cases h
  | succ n =>
    -- one layer gives `0`, on which nothing is left to expand
    have hrun : (layered.stepwise 20 (n + 1) chainedDecorators).run () = .ok (constStmt 0) () := by
      rw [stepwise_succ_of_collect hcol]
      exact run_bind_of_ok layered_chainedDecorators_once
        (by rw [stepwise_of_collect_nil hcol₀]; rfl)
    rw [hrun]
    intro h
    simp [constStmt, Stmt.bare, Expr.bare] at h

end Expander

end Espalier
