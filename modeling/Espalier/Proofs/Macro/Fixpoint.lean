import Espalier.Proofs.Macro.Agreement
import Espalier.Proofs.Syntax.Walk

/-!
# Expansion reaches a fixpoint

What a successful expansion of a module gives back: no marker is left, every node has a
location, and the inventory holds name invocations only, so with no name macro bound a second
expansion changes nothing and calls nothing.

This needs two things of the macros. They never return a marker. And an expression macro
returns an expression (or a lone expression statement) that is not a bare bound name: the
walk decides what a node invokes before it walks the node's parts, so a bare bound name that
expansion puts in the base of a subscript, the item of a `with` or a decorator would form an
invocation that no one expands.

The proof runs on the fuel: `Settles f` says what each function of the walk gives back at
fuel `f`, and it holds at every fuel. Results are described by `Returns`, over every state
and every result of a run; failures are not constrained.
-/

namespace Espalier

/-! ## Results of a run -/

section Returns
variable {σ α β : Type}

/-- Every result of the computation, from any state, satisfies `P`. -/
def Returns (P : α → Prop) (x : EStateM Error σ α) : Prop :=
  ∀ s a s', x.run s = .ok a s' → P a

theorem Returns.pure {P : α → Prop} {a : α} (h : P a) : Returns P (Pure.pure a : EStateM Error σ α) := by
  intro s a' s' hrun
  simp only [EStateM.run_pure, EStateM.Result.ok.injEq] at hrun
  exact hrun.1 ▸ h

theorem Returns.throw {P : α → Prop} (e : Error) : Returns P (throw e : EStateM Error σ α) := by
  intro s a s' hrun
  cases hrun

theorem Returns.bind {P : α → Prop} {Q : β → Prop} {x : EStateM Error σ β}
    {k : β → EStateM Error σ α} (hx : Returns Q x) (hk : ∀ b, Q b → Returns P (k b)) :
    Returns P (x >>= k) := by
  intro s a s' hrun
  rw [EStateM.run_bind] at hrun
  split at hrun
  · rename_i b s₁ hb
    exact hk b (hx s b s₁ hb) s₁ a s' hrun
  · cases hrun

theorem Returns.map {P : α → Prop} {Q : β → Prop} {x : EStateM Error σ β} {g : β → α}
    (hx : Returns Q x) (hg : ∀ b, Q b → P (g b)) : Returns P (g <$> x) := by
  rw [← bind_pure_comp]
  exact hx.bind fun b hb => .pure (hg b hb)

theorem Returns.and {P Q : α → Prop} {x : EStateM Error σ α} (hP : Returns P x)
    (hQ : Returns Q x) : Returns (fun a => P a ∧ Q a) x :=
  fun s a s' hrun => ⟨hP s a s' hrun, hQ s a s' hrun⟩

theorem Returns.mono {P Q : α → Prop} {x : EStateM Error σ α} (h : Returns Q x)
    (hPQ : ∀ a, Q a → P a) : Returns P x :=
  fun s a s' hrun => hPQ a (h s a s' hrun)

/-- A loop keeps an invariant that each step keeps. -/
theorem Returns.forIn {γ : Type} {I : α → Prop} (xs : List γ) (init : α)
    (body : γ → α → EStateM Error σ (ForInStep α)) (hinit : I init)
    (hstep : ∀ x ∈ xs, ∀ a, I a → Returns (fun step => I step.value) (body x a)) :
    Returns I (forIn xs init body) := by
  induction xs generalizing init with
  | nil => exact .pure hinit
  | cons x xs ih =>
    rw [List.forIn_cons]
    refine (hstep x List.mem_cons_self init hinit).bind fun step hI => ?_
    cases step with
    | done a => exact .pure hI
    | yield a => exact ih a hI fun y hy => hstep y (List.mem_cons_of_mem x hy)

end Returns

/-! ## Inventories of name invocations -/

/-- An inventory that holds name invocations only. -/
def OnlyNames (l : List (String × Shape)) : Prop := ∀ p ∈ l, p.2 = Shape.name

@[simp] theorem onlyNames_nil : OnlyNames [] := nofun

@[simp] theorem onlyNames_append {l₁ l₂ : List (String × Shape)} :
    OnlyNames (l₁ ++ l₂) ↔ OnlyNames l₁ ∧ OnlyNames l₂ := by
  simp [OnlyNames, or_imp, forall_and]

section Heads
variable {M : Type} (b : Bindings M) (isNameMacro : M → Bool)

/-- A bare name that the table binds: in the base of a subscript, as the item of a `with` or
as a decorator, it makes the node an invocation. -/
def Expr.IsBoundName (e : Expr) : Prop := ∃ n, e.asName? = some n ∧ b.isBound n = true

theorem decoratorMacro?_eq_none_iff {e : Expr} : decoratorMacro? b e = none ↔ ¬ e.IsBoundName b := by
  obtain ⟨k, l⟩ := e
  cases k <;> simp [decoratorMacro?, Expr.IsBoundName, Expr.asName?]

/-- A bare name node invokes at most a name macro. -/
theorem onlyNames_invocations_name (n : String) (l : Option Loc) :
    OnlyNames ((Expr.mk (.name n) l).invocations b isNameMacro) := by
  intro p hp
  obtain ⟨n', -, rfl⟩ : ∃ n', nameInvocation? b isNameMacro (.mk (.name n) l) = some n' ∧
      (n', Shape.name) = p := by simpa [Expr.invocations] using hp
  rfl

/-- A subscript whose base is no bound bare name invokes what its parts invoke. -/
theorem onlyNames_invocations_subscript {v i : Expr} (l : Option Loc) (hv : ¬ v.IsBoundName b)
    (hv' : OnlyNames (v.invocations b isNameMacro)) (hi : OnlyNames (i.invocations b isNameMacro)) :
    OnlyNames ((Expr.mk (.subscript v i) l).invocations b isNameMacro) := by
  cases ha : v.asName? with
  | none =>
    rw [Expr.invocations_subscript_of_asName b isNameMacro v i l ha, onlyNames_append]
    exact ⟨hv', hi⟩
  | some n =>
    obtain ⟨vk, vl⟩ := v
    cases vk with
    | name n =>
      have hx : exprInvocation? b (.mk (.subscript (.mk (.name n) vl) i) l) = none := by
        simpa [exprInvocation?, Expr.IsBoundName, Expr.asName?] using hv
      simpa [Expr.invocations, hx] using hi
    | _ => simp [Expr.asName?] at ha

/-- A `with` whose item is no bound bare name invokes what its item and body invoke. -/
theorem onlyNames_invocations_withBlock {item : Expr} {body : List Stmt} (a : Option String)
    (l : Option Loc) (hitem : ¬ item.IsBoundName b) (hi : OnlyNames (item.invocations b isNameMacro))
    (hb : OnlyNames (Stmt.invocationsList b isNameMacro body)) :
    OnlyNames ((Stmt.mk (.withBlock item a body) l).invocations b isNameMacro) := by
  have hblock : blockInvocation? b (.mk (.withBlock item a body) l) = none := by
    obtain ⟨ik, il⟩ := item
    cases ik <;> simp_all [blockInvocation?, Expr.IsBoundName, Expr.asName?]
  simp only [Stmt.invocations, hblock, onlyNames_append]
  exact ⟨hi, hb⟩

/-- Decorators none of which is a bound bare name invoke what they invoke as expressions. -/
theorem decoratorsInvocations_of_not_boundName {ds : List Expr} (h : ∀ d ∈ ds, ¬ d.IsBoundName b) :
    decoratorsInvocations b isNameMacro ds = Expr.invocationsList b isNameMacro ds := by
  refine decoratorsInvocations_of_filterMap_nil b isNameMacro ?_
  simp only [List.filterMap_eq_nil_iff]
  exact fun d hd => (decoratorMacro?_eq_none_iff b).mpr (h d hd)

theorem Expr.not_isBoundName_of_asName {e : Expr} (h : e.asName? = none) : ¬ e.IsBoundName b := by
  rintro ⟨n, hn, -⟩
  rw [h] at hn
  cases hn

theorem Expr.isBoundName_fillLocs (p : Option Loc) (e : Expr) :
    (e.fillLocs p).IsBoundName b ↔ e.IsBoundName b := by
  simp only [Expr.IsBoundName, Expr.asName?_fillLocs]

end Heads

/-! ## Trees without markers -/

/-- A tree with no marker. -/
def Tree.Unmarked : Tree → Prop
  | .expr e => e.markerLocs = []
  | .stmts ss => Stmt.markerLocsList ss = []

theorem Tree.unmarked_fillLocs (p : Option Loc) {t : Tree} (h : t.Unmarked) :
    (t.fillLocs p).Unmarked := by
  cases t with
  | expr e => exact (Expr.markerLocs_fillLocs_eq_nil p e).mpr h
  | stmts ss => exact (Stmt.markerLocsList_fillLocsList_eq_nil p ss).mpr h

/-- The expression view of a filled tree is the filled expression view. -/
theorem Tree.toExpr?_fillLocs (q : Option Loc) {t : Tree} {e : Expr} (h : t.toExpr? = some e) :
    ∃ p, (t.fillLocs q).toExpr? = some (e.fillLocs p) := by
  unfold Tree.toExpr? at h
  split at h
  · cases h
    exact ⟨q, rfl⟩
  · rename_i e₀ l
    cases h
    exact ⟨l.orElse fun _ => q, rfl⟩
  · cases h

theorem Tree.unmarked_of_toExpr? {t : Tree} {e : Expr} (ht : t.Unmarked) (h : t.toExpr? = some e) :
    e.markerLocs = [] := by
  unfold Tree.toExpr? at h
  split at h
  · cases h
    exact ht
  · cases h
    simpa [Tree.Unmarked, Stmt.markerLocsList, Stmt.markerLocs] using ht
  · cases h

theorem Tree.unmarked_stripMarkers (t : Tree) : t.stripMarkers.Unmarked := by
  cases t with
  | expr e => exact Expr.markerLocs_stripMarkers e
  | stmts ss => exact Stmt.markerLocsList_stripMarkersList ss

theorem onlyNames_collect_stmts {M : Type} (b : Bindings M) (isNameMacro : M → Bool)
    (ss : List Stmt) :
    OnlyNames (Tree.collect b isNameMacro (.stmts ss)) ↔
      OnlyNames (Stmt.invocationsList b isNameMacro ss) := by
  simp only [OnlyNames, mem_collect_stmts]

theorem onlyNames_collect_expr {M : Type} (b : Bindings M) (isNameMacro : M → Bool) (e : Expr) :
    OnlyNames (Tree.collect b isNameMacro (.expr e)) ↔ OnlyNames (e.invocations b isNameMacro) := by
  simp only [OnlyNames, mem_collect_expr]

namespace Expander

variable {σ Mac : Type} (X : Expander (EStateM Error σ) Mac)

/-! ## What each part of the walk gives back -/

/-- The macros never return a tree with a marker. -/
def ReturnsUnmarked : Prop :=
  ∀ inv, Returns (fun r => ∀ t, r = some t → t.Unmarked) (X.invoke inv)

/-- Expression macros return an expression, or a lone expression statement, that is not a
bound bare name. -/
def ExprResultsUnbound : Prop :=
  ∀ inv, inv.shape = .expr →
    Returns (fun r => ∀ t, r = some t → ∃ e, t.toExpr? = some e ∧ ¬ e.IsBoundName X.bindings)
      (X.invoke inv)

/-- What expanding `e` into `e'` guarantees: once markers are stripped, `e'` invokes name
macros only, and it is a bound bare name only if `e` was one. -/
structure ExprOut (e e' : Expr) : Prop where
  settled : OnlyNames (e'.stripMarkers.invocations X.bindings X.isNameMacro)
  head : ¬ e.IsBoundName X.bindings → ¬ e'.stripMarkers.IsBoundName X.bindings

/-- What expanding a list of expressions `es` into `es'` guarantees: once markers are
stripped, `es'` invokes name macros only, and has no bound bare name if `es` had none. -/
structure ExprsOut (es es' : List Expr) : Prop where
  settled : OnlyNames (Expr.invocationsList X.bindings X.isNameMacro (Expr.stripMarkersList es'))
  heads : (∀ e ∈ es, ¬ e.IsBoundName X.bindings) →
    ∀ e' ∈ Expr.stripMarkersList es', ¬ e'.IsBoundName X.bindings

/-- Statements that invoke name macros only, once markers are stripped. -/
def Settled (ss : List Stmt) : Prop :=
  OnlyNames (Stmt.invocationsList X.bindings X.isNameMacro (Stmt.stripMarkersList ss))

/-- What expanding `s` into `ss'` guarantees; an expression statement stays one. -/
structure StmtOut (s : Stmt) (ss' : List Stmt) : Prop where
  settled : X.Settled ss'
  expr : ∀ e l, s = .mk (.expr e) l → ∃ e', ss' = [.mk (.expr e') l] ∧ X.ExprOut e e'

/-- What expanding `t` into `t'` guarantees; an expression view stays one. -/
structure TreeOut (t t' : Tree) : Prop where
  settled : OnlyNames (Tree.collect X.bindings X.isNameMacro t'.stripMarkers)
  expr : ∀ e, t.toExpr? = some e → ∃ e', t'.toExpr? = some e' ∧ X.ExprOut e e'

/-- What the tree `t'` that a recursive application of shape `shape` returns guarantees. -/
structure ApplyOut (shape : Shape) (t' : Tree) : Prop where
  settled : OnlyNames (Tree.collect X.bindings X.isNameMacro t'.stripMarkers)
  expr : shape = .expr → ∃ e', t'.toExpr? = some e' ∧
    OnlyNames (e'.stripMarkers.invocations X.bindings X.isNameMacro) ∧
    ¬ e'.stripMarkers.IsBoundName X.bindings

/-- What the recursive walk gives back at fuel `f`, on trees without markers. -/
structure Settles (f : Nat) : Prop where
  expr : ∀ d e, e.markerLocs = [] → Returns (X.ExprOut e) (X.visitExpr f d true e)
  exprs : ∀ d es, Expr.markerLocsList es = [] →
    Returns (X.ExprsOut es) (X.visitExprs f d true es)
  opt : ∀ d o, Expr.markerLocsOpt o = [] →
    Returns (fun o' => OnlyNames (Expr.invocationsOpt X.bindings X.isNameMacro
      (Expr.stripMarkersOpt o'))) (X.visitOpt f d true o)
  stmt : ∀ d s, s.markerLocs = [] → Returns (X.StmtOut s) (X.visitStmt f d true s)
  body : ∀ d ss, Stmt.markerLocsList ss = [] →
    Returns (fun ss' => X.TreeOut (.stmts ss) (.stmts ss')) (X.visitBody f d true ss)
  tree : ∀ d t, t.Unmarked → Returns (X.TreeOut t) (X.visitTree f d true t)
  apply : ∀ d name shape tree loc asName,
    Returns (fun r => ∀ t', r = some t' → X.ApplyOut shape t')
      (X.apply f d true name shape tree loc asName)
  name : ∀ d e name, nameInvocation? X.bindings X.isNameMacro e = some name →
    Returns (X.ExprOut e) (X.expandName f d true e name)
  decorated : ∀ d s, decoratorInvocations X.bindings s ≠ [] →
    Returns X.Settled (X.expandDecorated f d true s)

variable {X}

theorem settles_zero : X.Settles 0 where
  expr _ _ _ := by simp only [visitExpr]; exact .throw _
  exprs _ _ _ := by simp only [visitExprs]; exact .throw _
  opt _ _ _ := by simp only [visitOpt]; exact .throw _
  stmt _ _ _ := by simp only [visitStmt]; exact .throw _
  body _ _ _ := by simp only [visitBody]; exact .throw _
  tree _ _ _ := by simp only [visitTree]; exact .throw _
  apply _ _ _ _ _ _ := by simp only [apply]; exact .throw _
  name _ _ _ _ := by simp only [expandName]; exact .throw _
  decorated _ _ _ := by simp only [expandDecorated]; exact .throw _

theorem nameInvocation_isBoundName {e : Expr} {name : String}
    (h : nameInvocation? X.bindings X.isNameMacro e = some name) : e.IsBoundName X.bindings := by
  obtain ⟨mac, hmac, -⟩ := nameInvocation_backs X.bindings X.isNameMacro h
  match e, h with
  | .mk (.name n) _, h =>
    have hn : n = name := by
      simp only [nameInvocation?] at h
      split at h <;> simp_all
    exact ⟨n, rfl, (Bindings.isBound_iff_get? X.bindings).mpr ⟨mac, hn ▸ hmac⟩⟩

/-- Expanding a bound bare name asks only that the result be settled. -/
theorem ExprOut.of_isBoundName {e e' : Expr} (he : e.IsBoundName X.bindings)
    (hs : OnlyNames (e'.stripMarkers.invocations X.bindings X.isNameMacro)) : X.ExprOut e e' :=
  ⟨hs, fun h => absurd he h⟩

/-- A node that is no bare name after stripping asks only that it be settled. -/
theorem ExprOut.of_asName {e e' : Expr} (hn : e'.stripMarkers.asName? = none)
    (hs : OnlyNames (e'.stripMarkers.invocations X.bindings X.isNameMacro)) : X.ExprOut e e' :=
  ⟨hs, fun _ => Expr.not_isBoundName_of_asName X.bindings hn⟩

theorem returns_toExpr_unmarked (name : String) (r : Option Tree) (loc : Option Loc)
    (hr : ∀ t, r = some t → t.Unmarked) :
    Returns (fun e : Expr => e.markerLocs = []) (X.toExpr name r loc) := by
  unfold toExpr
  split
  · exact .throw _
  · rename_i t
    split
    · rename_i e he
      exact .pure (Tree.unmarked_of_toExpr? (hr t rfl) he)
    · exact .throw _

section Step
variable (hDone : X.ReturnsUnmarked)
include hDone

/-- A one-layer application returns the macro's result filled, which has no marker. -/
theorem returns_apply_once (f d : Nat) (name : String) (shape : Shape) (tree : Tree)
    (loc : Option Loc) (asName : Option String) :
    Returns (fun r => ∀ t, r = some t → t.Unmarked) (X.apply f d false name shape tree loc asName) := by
  cases f with
  | zero => simp only [apply]; exact .throw _
  | succ f =>
    cases hmac : X.bindings.get? name with
    | none =>
      rw [apply_succ_of_unbound f d name shape tree loc asName false hmac]
      exact .throw _
    | some mac =>
      by_cases hd : X.maxDepth.all (d < ·)
      · rw [apply_succ_of_bound f d name shape tree loc asName false hmac hd]
        refine (hDone _).bind fun r hr => ?_
        cases r with
        | none => exact .pure fun t h => by cases h
        | some t =>
          refine .pure fun t' ht' => ?_
          cases ht'
          exact Tree.unmarked_fillLocs loc (hr t rfl)
      · obtain ⟨e, he, -⟩ := apply_succ_at_limit f d name shape tree loc asName false hmac hd
        rw [he]
        exact .throw e

variable {f : Nat} (ih : X.Settles f)
include ih

theorem Settles.name_succ (d : Nat) (e : Expr) (name : String)
    (hn : nameInvocation? X.bindings X.isNameMacro e = some name) :
    Returns (X.ExprOut e) (X.expandName (f + 1) d true e name) := by
  have hbound := nameInvocation_isBoundName hn
  simp only [expandName]
  refine (returns_apply_once hDone f d name .name (.expr e) e.loc none).bind fun r hr => ?_
  refine (returns_toExpr_unmarked name r e.loc hr).bind fun new hnew => ?_
  simp only [Bool.not_true, Bool.false_eq_true, ↓reduceIte]
  split
  · rename_i n l
    split
    · -- the macro gave back its own name: it is marked finished
      refine .pure (ExprOut.of_isBoundName hbound ?_)
      simpa [Expr.stripMarkers] using onlyNames_invocations_name X.bindings X.isNameMacro n l
    · exact (ih.expr (d + 1) _ hnew).mono fun e' h => ExprOut.of_isBoundName hbound h.settled
  · exact (ih.expr (d + 1) _ hnew).mono fun e' h => ExprOut.of_isBoundName hbound h.settled

variable (hExpr : X.ExprResultsUnbound)
include hExpr

theorem Settles.apply_succ (d : Nat) (name : String) (shape : Shape) (tree : Tree)
    (loc : Option Loc) (asName : Option String) :
    Returns (fun r => ∀ t', r = some t' → X.ApplyOut shape t')
      (X.apply (f + 1) d true name shape tree loc asName) := by
  cases hmac : X.bindings.get? name with
  | none =>
    rw [apply_succ_of_unbound f d name shape tree loc asName true hmac]
    exact .throw _
  | some mac =>
    by_cases hd : X.maxDepth.all (d < ·)
    · rw [apply_succ_of_bound f d name shape tree loc asName true hmac hd]
      let inv := X.invocation f d true name mac shape tree loc asName
      -- an expression macro's result is an expression that is no bound bare name
      have hexpr : Returns (fun r => shape = .expr → ∀ t, r = some t →
          ∃ e, t.toExpr? = some e ∧ ¬ e.IsBoundName X.bindings) (X.invoke inv) := by
        by_cases hs : shape = .expr
        · exact (hExpr inv hs).mono fun r h _ => h
        · exact fun _ _ _ _ h => absurd h hs
      refine ((hDone inv).and hexpr).bind fun r hrs => ?_
      obtain ⟨hr, hre⟩ := hrs
      cases r with
      | none => exact .pure fun t h => by cases h
      | some t =>
        simp only [↓reduceIte]
        refine (ih.tree (d + 1) (t.fillLocs loc) (Tree.unmarked_fillLocs loc (hr t rfl))).map
          fun t' ht' => ?_
        rintro t'' ⟨⟩
        refine ⟨ht'.settled, fun hs => ?_⟩
        obtain ⟨e, he, hbound⟩ := hre hs t rfl
        obtain ⟨p, hp⟩ := Tree.toExpr?_fillLocs loc he
        obtain ⟨e', he', hout⟩ := ht'.expr _ hp
        exact ⟨e', he', hout.settled,
          hout.head fun h => hbound ((Expr.isBoundName_fillLocs X.bindings p e).mp h)⟩
    · obtain ⟨e, he, -⟩ := apply_succ_at_limit f d name shape tree loc asName true hmac hd
      rw [he]
      exact .throw e

end Step

theorem blockInvocation?_eq_none_iff {item : Expr} {a : Option String} {body : List Stmt}
    {l : Option Loc} :
    blockInvocation? X.bindings (.mk (.withBlock item a body) l) = none ↔
      ¬ item.IsBoundName X.bindings := by
  obtain ⟨k, il⟩ := item
  cases k <;> simp [blockInvocation?, Expr.IsBoundName, Expr.asName?]

theorem TreeOut.settled_stmts {t : Tree} {ss' : List Stmt} (h : X.TreeOut t (.stmts ss')) :
    OnlyNames (Stmt.invocationsList X.bindings X.isNameMacro (Stmt.stripMarkersList ss')) :=
  (onlyNames_collect_stmts _ _ _).mp h.settled

/-- What a statement invocation gives back, a tree as statements, is settled when the tree is. -/
theorem settled_toStmts {t' : Tree}
    (h : OnlyNames (Tree.collect X.bindings X.isNameMacro t'.stripMarkers)) : X.Settled t'.toStmts := by
  cases t' with
  | stmts ss => exact (onlyNames_collect_stmts _ _ _).mp h
  | expr e =>
    have he := (onlyNames_collect_expr _ _ _).mp h
    simpa [Settled, Tree.toStmts, Stmt.stripMarkersList, Stmt.stripMarkers, Stmt.invocationsList,
      Stmt.invocations] using he

/-- An expression invocation gives back the expression view of what the recursive
application returned. -/
theorem returns_toExpr_of_applyOut {e : Expr} (name : String) (r : Option Tree) (loc : Option Loc)
    (hr : ∀ t', r = some t' → X.ApplyOut .expr t') : Returns (X.ExprOut e) (X.toExpr name r loc) := by
  unfold toExpr
  split
  · exact .throw _
  · rename_i t'
    split
    · rename_i e' he'
      obtain ⟨e'', he'', hs, hb⟩ := (hr t' rfl).expr rfl
      rw [he'] at he''
      cases he''
      exact .pure ⟨hs, fun _ => hb⟩
    · exact .throw _

section Walk
variable {f : Nat} (ih : X.Settles f)
include ih

theorem Settles.expr_succ (d : Nat) (e : Expr) (hm : e.markerLocs = []) :
    Returns (X.ExprOut e) (X.visitExpr (f + 1) d true e) := by
  obtain ⟨k, l⟩ := e
  cases k with
  | done inner => simp [Expr.markerLocs] at hm
  | name n =>
    cases hn : nameInvocation? X.bindings X.isNameMacro (.mk (.name n) l) with
    | none =>
      simp only [visitExpr, hn, exprInvocation?]
      refine .pure ⟨?_, fun h => by simpa [Expr.stripMarkers] using h⟩
      simpa [Expr.stripMarkers] using onlyNames_invocations_name X.bindings X.isNameMacro n l
    | some name =>
      simp only [visitExpr, hn, exprInvocation?]
      exact ih.name d _ name hn
  | const c =>
    simp only [visitExpr, exprInvocation?, nameInvocation?]
    exact .pure (.of_asName (by simp [Expr.stripMarkers, Expr.asName?])
      (by simp [Expr.stripMarkers, Expr.invocations]))
  | binOp op a c =>
    simp only [Expr.markerLocs, List.append_eq_nil_iff] at hm
    simp only [visitExpr, exprInvocation?, nameInvocation?]
    refine (ih.expr d a hm.1).bind fun a' ha => (ih.expr d c hm.2).bind fun c' hc =>
      .pure (.of_asName (by simp [Expr.stripMarkers, Expr.asName?]) ?_)
    simp [Expr.stripMarkers, Expr.invocations, ha.settled, hc.settled]
  | unaryOp op a =>
    simp only [Expr.markerLocs] at hm
    simp only [visitExpr, exprInvocation?, nameInvocation?]
    refine (ih.expr d a hm).bind fun a' ha =>
      .pure (.of_asName (by simp [Expr.stripMarkers, Expr.asName?]) ?_)
    simp [Expr.stripMarkers, Expr.invocations, ha.settled]
  | call fn args =>
    simp only [Expr.markerLocs, List.append_eq_nil_iff] at hm
    simp only [visitExpr, exprInvocation?, nameInvocation?]
    refine (ih.expr d fn hm.1).bind fun fn' hfn => (ih.exprs d args hm.2).bind fun args' hargs =>
      .pure (.of_asName (by simp [Expr.stripMarkers, Expr.asName?]) ?_)
    simp [Expr.stripMarkers, Expr.invocations, hfn.settled, hargs.settled]
  | «attribute» v a =>
    simp only [Expr.markerLocs] at hm
    simp only [visitExpr, exprInvocation?, nameInvocation?]
    refine (ih.expr d v hm).bind fun v' hv =>
      .pure (.of_asName (by simp [Expr.stripMarkers, Expr.asName?]) ?_)
    simp [Expr.stripMarkers, Expr.invocations, hv.settled]
  | subscript v i =>
    simp only [Expr.markerLocs, List.append_eq_nil_iff] at hm
    cases hx : exprInvocation? X.bindings (.mk (.subscript v i) l) with
    | some name =>
      simp only [visitExpr, hx]
      exact (ih.apply d name .expr (.expr i) l none).bind fun r hr =>
        returns_toExpr_of_applyOut name r l hr
    | none =>
      cases hv : v.asName? with
      | none =>
        -- the base is walked too, and stays no bound bare name
        rw [visitExpr_subscript_of_asName d true f v i l hv]
        refine (ih.expr d v hm.1).bind fun v' hv' => (ih.expr d i hm.2).bind fun i' hi' =>
          .pure (.of_asName (by simp [Expr.stripMarkers, Expr.asName?]) ?_)
        simp only [Expr.stripMarkers]
        exact onlyNames_invocations_subscript X.bindings X.isNameMacro l
          (hv'.head (Expr.not_isBoundName_of_asName X.bindings hv)) hv'.settled hi'.settled
      | some _ =>
        obtain ⟨vk, vl⟩ := v
        cases vk with
        | name n =>
          -- an unbound bare base is kept, and only the index is walked
          have hnb : ¬ (Expr.mk (.name n) vl).IsBoundName X.bindings := by
            simpa [exprInvocation?, Expr.IsBoundName, Expr.asName?] using hx
          simp only [visitExpr, hx, nameInvocation?]
          refine (ih.expr d i hm.2).bind fun i' hi' =>
            .pure (.of_asName (by simp [Expr.stripMarkers, Expr.asName?]) ?_)
          simp only [Expr.stripMarkers]
          exact onlyNames_invocations_subscript X.bindings X.isNameMacro l hnb
            (onlyNames_invocations_name X.bindings X.isNameMacro n vl) hi'.settled
        | _ => simp [Expr.asName?] at hv
  | list items =>
    simp only [Expr.markerLocs] at hm
    simp only [visitExpr, exprInvocation?, nameInvocation?]
    refine (ih.exprs d items hm).bind fun items' hitems =>
      .pure (.of_asName (by simp [Expr.stripMarkers, Expr.asName?]) ?_)
    simp [Expr.stripMarkers, Expr.invocations, hitems.settled]
  | tuple items =>
    simp only [Expr.markerLocs] at hm
    simp only [visitExpr, exprInvocation?, nameInvocation?]
    refine (ih.exprs d items hm).bind fun items' hitems =>
      .pure (.of_asName (by simp [Expr.stripMarkers, Expr.asName?]) ?_)
    simp [Expr.stripMarkers, Expr.invocations, hitems.settled]
  | lambda ps body =>
    simp only [Expr.markerLocs] at hm
    simp only [visitExpr, exprInvocation?, nameInvocation?]
    refine (ih.expr d body hm).bind fun body' hbody =>
      .pure (.of_asName (by simp [Expr.stripMarkers, Expr.asName?]) ?_)
    simp [Expr.stripMarkers, Expr.invocations, hbody.settled]
  | ifExp t body o =>
    simp only [Expr.markerLocs, List.append_eq_nil_iff] at hm
    simp only [visitExpr, exprInvocation?, nameInvocation?]
    refine (ih.expr d t hm.1.2).bind fun t' ht => (ih.expr d body hm.1.1).bind fun body' hbody =>
      (ih.expr d o hm.2).bind fun o' ho =>
      .pure (.of_asName (by simp [Expr.stripMarkers, Expr.asName?]) ?_)
    simp [Expr.stripMarkers, Expr.invocations, ht.settled, hbody.settled, ho.settled]

theorem Settles.exprs_succ (d : Nat) (es : List Expr) (hm : Expr.markerLocsList es = []) :
    Returns (X.ExprsOut es) (X.visitExprs (f + 1) d true es) := by
  induction es with
  | nil =>
    rw [visitExprs_nil]
    exact .pure ⟨by simp [Expr.stripMarkersList, Expr.invocationsList],
      fun _ _ h => by simp [Expr.stripMarkersList] at h⟩
  | cons e es ihs =>
    simp only [Expr.markerLocsList, List.append_eq_nil_iff] at hm
    rw [visitExprs_cons]
    refine (ih.expr d e hm.1).bind fun e' he => (ihs hm.2).bind fun es' hes =>
      .pure ⟨by simp [Expr.stripMarkersList, Expr.invocationsList, he.settled, hes.settled], ?_⟩
    intro hheads x hx
    simp only [Expr.stripMarkersList, List.mem_cons] at hx
    rcases hx with rfl | hx
    · exact he.head (hheads e List.mem_cons_self)
    · exact hes.heads (fun y hy => hheads y (List.mem_cons_of_mem e hy)) x hx

theorem Settles.opt_succ (d : Nat) (o : Option Expr) (hm : Expr.markerLocsOpt o = []) :
    Returns (fun o' => OnlyNames (Expr.invocationsOpt X.bindings X.isNameMacro
      (Expr.stripMarkersOpt o'))) (X.visitOpt (f + 1) d true o) := by
  cases o with
  | none =>
    rw [visitOpt_none]
    exact .pure (by simp [Expr.stripMarkersOpt, Expr.invocationsOpt])
  | some e =>
    rw [visitOpt_some]
    exact (ih.expr d e hm).map fun e' he => by
      simpa [Expr.stripMarkersOpt, Expr.invocationsOpt] using he.settled

theorem Settles.tree_succ (d : Nat) (t : Tree) (ht : t.Unmarked) :
    Returns (X.TreeOut t) (X.visitTree (f + 1) d true t) := by
  cases t with
  | expr e =>
    simp only [visitTree]
    refine (ih.expr d e ht).map fun e' he => ⟨(onlyNames_collect_expr _ _ _).mpr he.settled, ?_⟩
    intro e₀ h₀
    cases h₀
    exact ⟨e', rfl, he⟩
  | stmts ss =>
    simp only [visitTree]
    exact (ih.body d ss ht).map fun _ h => h

theorem Settles.decorated_succ (d : Nat) (s : Stmt)
    (hs : decoratorInvocations X.bindings s ≠ []) :
    Returns X.Settled (X.expandDecorated (f + 1) d true s) := by
  obtain ⟨k, l⟩ := s
  obtain ⟨t₀, h⟩ := expandDecorated_succ d true f k l hs
  rw [h]
  -- the chain has a first decorator, which replaces the definition by an expanded tree
  obtain ⟨n, rest, hnames⟩ :=
    List.exists_cons_of_ne_nil (List.reverse_ne_nil_iff.mpr hs)
  rw [hnames, List.forIn_cons]
  let I : Option Tree → Prop := fun current =>
    ∀ t', current = some t' → OnlyNames (Tree.collect X.bindings X.isNameMacro t'.stripMarkers)
  have hstep : ∀ name t, Returns (fun step : ForInStep (Option Tree) => I step.value)
      (do let r ← X.apply f d true name .decorator t l none; pure (ForInStep.yield r)) :=
    fun name t => (ih.apply d name .decorator t l none).bind fun r hr =>
      .pure fun t' ht' => (hr t' ht').settled
  refine (Returns.bind (Q := I) ((hstep n t₀).bind fun step hI => ?_) fun current hcur => ?_)
  · cases step with
    | done c => exact .pure hI
    | yield c =>
      refine Returns.forIn rest c _ hI fun name _ current hcurrent => ?_
      cases current with
      | none => exact .pure hcurrent
      | some t => exact hstep name t
  · refine .pure ?_
    cases current with
    | none => simp [Settled, Stmt.stripMarkersList, Stmt.invocationsList]
    | some t' => exact settled_toStmts (hcur t' rfl)

theorem Settles.stmt_succ (d : Nat) (s : Stmt) (hm : s.markerLocs = []) :
    Returns (X.StmtOut s) (X.visitStmt (f + 1) d true s) := by
  obtain ⟨k, l⟩ := s
  cases k with
  | done ss => simp [Stmt.markerLocs] at hm
  | withBlock item a body =>
    simp only [Stmt.markerLocs, List.append_eq_nil_iff] at hm
    cases hb : blockInvocation? X.bindings (.mk (.withBlock item a body) l) with
    | some name =>
      simp only [visitStmt, hb]
      refine (ih.apply d name .block (.stmts body) l a).bind fun r hr => .pure ⟨?_, by simp⟩
      cases r with
      | none => simp [Settled, Stmt.stripMarkersList, Stmt.invocationsList]
      | some t' => exact settled_toStmts (hr t' rfl).settled
    | none =>
      -- the item is walked, and stays no bound bare name
      have hitem := blockInvocation?_eq_none_iff.mp hb
      simp only [visitStmt, hb, decoratorInvocations, List.isEmpty_nil]
      refine (ih.expr d item hm.1).bind fun item' hi => (ih.body d body hm.2).bind fun body' hbody =>
        .pure ⟨?_, by simp⟩
      have hs := onlyNames_invocations_withBlock X.bindings X.isNameMacro a l (hi.head hitem)
        hi.settled hbody.settled_stmts
      simpa [Settled, Stmt.stripMarkersList, Stmt.stripMarkers, Stmt.invocationsList] using hs
  | functionDef n ps body ds =>
    simp only [Stmt.markerLocs, List.append_eq_nil_iff] at hm
    by_cases hdec : decoratorInvocations X.bindings (.mk (.functionDef n ps body ds) l) = []
    · -- no macro decorator: decorators and body are walked, and no decorator becomes one
      have hds : ∀ d ∈ ds, ¬ d.IsBoundName X.bindings := fun d hd =>
        (decoratorMacro?_eq_none_iff X.bindings).mp
          (List.filterMap_eq_nil_iff.mp hdec d hd)
      simp only [visitStmt, blockInvocation?, hdec, List.isEmpty_nil]
      refine (ih.exprs d ds hm.1).bind fun ds' hds' => (ih.body d body hm.2).bind fun body' hbody =>
        .pure ⟨?_, by simp⟩
      simp [Settled, Stmt.stripMarkersList, Stmt.stripMarkers, Stmt.invocationsList,
        Stmt.invocations, decoratorsInvocations_of_not_boundName X.bindings X.isNameMacro
          (hds'.heads hds), hds'.settled, hbody.settled_stmts]
    · have hne : (!(decoratorInvocations X.bindings
          (.mk (.functionDef n ps body ds) l)).isEmpty) = true := by
        simpa [List.isEmpty_iff] using hdec
      simp only [visitStmt, blockInvocation?, hne, ↓reduceIte]
      exact (ih.decorated d _ hdec).mono fun _ h => ⟨h, by simp⟩
  | classDef n body ds =>
    simp only [Stmt.markerLocs, List.append_eq_nil_iff] at hm
    by_cases hdec : decoratorInvocations X.bindings (.mk (.classDef n body ds) l) = []
    · have hds : ∀ d ∈ ds, ¬ d.IsBoundName X.bindings := fun d hd =>
        (decoratorMacro?_eq_none_iff X.bindings).mp
          (List.filterMap_eq_nil_iff.mp hdec d hd)
      simp only [visitStmt, blockInvocation?, hdec, List.isEmpty_nil]
      refine (ih.exprs d ds hm.1).bind fun ds' hds' => (ih.body d body hm.2).bind fun body' hbody =>
        .pure ⟨?_, by simp⟩
      simp [Settled, Stmt.stripMarkersList, Stmt.stripMarkers, Stmt.invocationsList,
        Stmt.invocations, decoratorsInvocations_of_not_boundName X.bindings X.isNameMacro
          (hds'.heads hds), hds'.settled, hbody.settled_stmts]
    · have hne : (!(decoratorInvocations X.bindings (.mk (.classDef n body ds) l)).isEmpty) = true := by
        simpa [List.isEmpty_iff] using hdec
      simp only [visitStmt, blockInvocation?, hne, ↓reduceIte]
      exact (ih.decorated d _ hdec).mono fun _ h => ⟨h, by simp⟩
  | expr v =>
    simp only [Stmt.markerLocs] at hm
    simp only [visitStmt, blockInvocation?, decoratorInvocations, List.isEmpty_nil]
    refine (ih.expr d v hm).bind fun v' hv => .pure ⟨?_, ?_⟩
    · simp [Settled, Stmt.stripMarkersList, Stmt.stripMarkers, Stmt.invocationsList,
        Stmt.invocations, hv.settled]
    · -- an expression statement stays one
      intro e l' h
      simp only [Stmt.mk.injEq, StmtKind.expr.injEq] at h
      obtain ⟨rfl, rfl⟩ := h
      exact ⟨v', rfl, hv⟩
  | assign t v =>
    simp only [Stmt.markerLocs, List.append_eq_nil_iff] at hm
    simp only [visitStmt, blockInvocation?, decoratorInvocations, List.isEmpty_nil]
    refine (ih.expr d t hm.1).bind fun t' ht => (ih.expr d v hm.2).bind fun v' hv =>
      .pure ⟨?_, by simp⟩
    simp [Settled, Stmt.stripMarkersList, Stmt.stripMarkers, Stmt.invocationsList,
      Stmt.invocations, ht.settled, hv.settled]
  | ret v =>
    simp only [Stmt.markerLocs] at hm
    simp only [visitStmt, blockInvocation?, decoratorInvocations, List.isEmpty_nil]
    refine (ih.opt d v hm).bind fun v' hv =>
      .pure ⟨?_, by simp⟩
    simp [Settled, Stmt.stripMarkersList, Stmt.stripMarkers, Stmt.invocationsList,
      Stmt.invocations, hv]
  | ifElse t body o =>
    simp only [Stmt.markerLocs, List.append_eq_nil_iff] at hm
    simp only [visitStmt, blockInvocation?, decoratorInvocations, List.isEmpty_nil]
    refine (ih.expr d t hm.1.1).bind fun t' ht => (ih.body d body hm.1.2).bind fun body' hbody =>
        (ih.body d o hm.2).bind fun o' ho =>
      .pure ⟨?_, by simp⟩
    simp [Settled, Stmt.stripMarkersList, Stmt.stripMarkers, Stmt.invocationsList,
      Stmt.invocations, ht.settled, hbody.settled_stmts, ho.settled_stmts]
  | whileLoop t body =>
    simp only [Stmt.markerLocs, List.append_eq_nil_iff] at hm
    simp only [visitStmt, blockInvocation?, decoratorInvocations, List.isEmpty_nil]
    refine (ih.expr d t hm.1).bind fun t' ht => (ih.body d body hm.2).bind fun body' hbody =>
      .pure ⟨?_, by simp⟩
    simp [Settled, Stmt.stripMarkersList, Stmt.stripMarkers, Stmt.invocationsList,
      Stmt.invocations, ht.settled, hbody.settled_stmts]
  | forLoop x i body =>
    simp only [Stmt.markerLocs, List.append_eq_nil_iff] at hm
    simp only [visitStmt, blockInvocation?, decoratorInvocations, List.isEmpty_nil]
    refine (ih.expr d i hm.1).bind fun i' hi => (ih.body d body hm.2).bind fun body' hbody =>
      .pure ⟨?_, by simp⟩
    simp [Settled, Stmt.stripMarkersList, Stmt.stripMarkers, Stmt.invocationsList,
      Stmt.invocations, hi.settled, hbody.settled_stmts]
  | assertion t m =>
    simp only [Stmt.markerLocs, List.append_eq_nil_iff] at hm
    simp only [visitStmt, blockInvocation?, decoratorInvocations, List.isEmpty_nil]
    refine (ih.expr d t hm.1).bind fun t' ht => (ih.opt d m hm.2).bind fun m' hm' =>
      .pure ⟨?_, by simp⟩
    simp [Settled, Stmt.stripMarkersList, Stmt.stripMarkers, Stmt.invocationsList,
      Stmt.invocations, ht.settled, hm']
  | importModule _ _ | importFrom _ _ _ | pass | breakLoop | continueLoop =>
    simp only [visitStmt, blockInvocation?, decoratorInvocations, List.isEmpty_nil]
    exact .pure ⟨by simp [Settled, Stmt.stripMarkersList, Stmt.stripMarkers, Stmt.invocationsList,
      Stmt.invocations], by simp⟩

theorem Settles.body_succ (d : Nat) (ss : List Stmt) (hm : Stmt.markerLocsList ss = []) :
    Returns (fun ss' => X.TreeOut (.stmts ss) (.stmts ss')) (X.visitBody (f + 1) d true ss) := by
  induction ss with
  | nil =>
    rw [visitBody_nil]
    refine .pure ⟨?_, fun e h => by simp [Tree.toExpr?] at h⟩
    simp [Tree.stripMarkers, onlyNames_collect_stmts, Stmt.stripMarkersList, Stmt.invocationsList]
  | cons s ss ihs =>
    simp only [Stmt.markerLocsList, List.append_eq_nil_iff] at hm
    -- the view as an expression exists only for a lone statement
    cases ss with
    | nil =>
      rw [visitBody_cons, visitBody_nil]
      refine (ih.stmt d s hm.1).bind fun r hr => .pure ⟨?_, ?_⟩
      · simpa [Settled, Tree.stripMarkers, onlyNames_collect_stmts] using hr.settled
      · intro e he
        obtain ⟨k, l⟩ := s
        cases k <;> simp [Tree.toExpr?] at he
        subst he
        obtain ⟨e', rfl, hout⟩ := hr.expr _ l rfl
        exact ⟨e', rfl, hout⟩
    | cons s₂ ss =>
      rw [visitBody_cons]
      refine (ih.stmt d s hm.1).bind fun r hr => (ihs (by simpa [Stmt.markerLocsList] using hm.2)).bind
        fun rs hrs => .pure ⟨?_, fun e h => by simp [Tree.toExpr?] at h⟩
      have hrs' := hrs.settled_stmts
      have hr' : OnlyNames (Stmt.invocationsList X.bindings X.isNameMacro (Stmt.stripMarkersList r)) :=
        hr.settled
      simp [Tree.stripMarkers, onlyNames_collect_stmts, Stmt.stripMarkersList_append,
        Stmt.invocationsList_append, hr', hrs']

end Walk

/-- At every fuel the recursive walk gives back settled trees. -/
theorem settles (hDone : X.ReturnsUnmarked) (hExpr : X.ExprResultsUnbound) : ∀ f, X.Settles f
  | 0 => settles_zero
  | f + 1 =>
    have ih := settles hDone hExpr f
    { expr := ih.expr_succ
      exprs := ih.exprs_succ
      opt := ih.opt_succ
      stmt := ih.stmt_succ
      body := ih.body_succ
      tree := ih.tree_succ
      apply := ih.apply_succ hDone hExpr
      name := ih.name_succ hDone
      decorated := ih.decorated_succ }

/-- Expansion removes the markers, fills in the locations and leaves name invocations only. -/
theorem expandModule_returns (hDone : X.ReturnsUnmarked) (hExpr : X.ExprResultsUnbound)
    (m : Module) (hm : Stmt.markerLocsList m.body = []) (f : Nat) :
    Returns (fun m₁ : Module => Stmt.markerLocsList m₁.body = [] ∧
      Stmt.missingLocsList m₁.body = [] ∧
      OnlyNames (Tree.collect X.bindings X.isNameMacro (.stmts m₁.body))) (X.expandModule f m) := by
  unfold expandModule
  refine ((settles hDone hExpr f).body 0 m.body hm).bind fun body hb => .pure ⟨?_, ?_, ?_⟩
  · exact (Module.markerLocs_fillLocs_eq_nil _).mpr (Stmt.markerLocsList_stripMarkersList body)
  · exact Module.missingLocs_fillLocs _
  · -- filling in locations does not change what is invoked
    rw [onlyNames_collect_stmts]
    simpa [Module.fillLocs, invocationsList_fillTopLevel] using hb.settled_stmts

/-- A module without markers or missing locations whose inventory is empty is a fixpoint of
expansion, which then has no effect. -/
theorem expandModule_of_collect_nil (m₁ : Module)
    (hc : Tree.collect X.bindings X.isNameMacro (.stmts m₁.body) = [])
    (hmark : Stmt.markerLocsList m₁.body = []) (hmiss : Stmt.missingLocsList m₁.body = [])
    (f : Nat) (hf : sizeOf m₁.body < f) : X.expandModule f m₁ = pure m₁ := by
  have hclean : X.visitBody f 0 true m₁.body = pure m₁.body :=
    (visitBody_agrees 0 true m₁.body f hf).clean ((collect_stmts_eq_nil _ _).mp hc)
  unfold expandModule
  rw [hclean, pure_bind, Stmt.stripMarkersList_of_unmarked _ hmark,
    Module.fillLocs_of_located ⟨m₁.body⟩ hmiss]

/-- A successful expansion of a module without markers, by macros that return no marker and
no bound bare name in expression position, leaves no marker and no node without a location;
its inventory holds invocations of name macros only; so with no name macro bound, expanding
it again gives it back with no effect. -/
theorem expandModule_settles (hDone : X.ReturnsUnmarked) (hExpr : X.ExprResultsUnbound)
    (m : Module) (hm : Stmt.markerLocsList m.body = []) (f : Nat) (s : σ) (m₁ : Module) (s' : σ)
    (hrun : (X.expandModule f m).run s = .ok m₁ s') :
    Stmt.markerLocsList m₁.body = [] ∧ Stmt.missingLocsList m₁.body = [] ∧
    (∀ p ∈ Tree.collect X.bindings X.isNameMacro (.stmts m₁.body),
      p.2 = .name ∧ ∃ mac, X.bindings.get? p.1 = some mac ∧ X.isNameMacro mac = true) ∧
    ((∀ n mac, X.bindings.get? n = some mac → X.isNameMacro mac = false) →
      ∀ f', sizeOf m₁.body < f' → X.expandModule f' m₁ = pure m₁) := by
  obtain ⟨hmark, hmiss, hnames⟩ := expandModule_returns hDone hExpr m hm f s m₁ s' hrun
  -- every entry names a bound name macro
  have hentry : ∀ p ∈ Tree.collect X.bindings X.isNameMacro (.stmts m₁.body),
      p.2 = .name ∧ ∃ mac, X.bindings.get? p.1 = some mac ∧ X.isNameMacro mac = true := by
    intro p hp
    obtain ⟨mac, hmac, hname⟩ := backs_of_mem_collect _ _ hp
    exact ⟨hnames p hp, mac, hmac, hname (hnames p hp)⟩
  refine ⟨hmark, hmiss, hentry, fun hno f' hf' => ?_⟩
  -- with no name macro bound, the inventory is empty
  have hc : Tree.collect X.bindings X.isNameMacro (.stmts m₁.body) = [] := by
    refine List.eq_nil_iff_forall_not_mem.mpr fun p hp => ?_
    obtain ⟨-, mac, hmac, hname⟩ := hentry p hp
    simp [hno _ _ hmac] at hname
  exact expandModule_of_collect_nil m₁ hc hmark hmiss f' hf'

/-! ## One macro on one module -/

/-- An expander with one macro, bound to `m`, that gives back the constant `1`. -/
def constOne : Expander (EStateM Error Unit) Unit where
  bindings := ⟨[("m", ())]⟩
  filename := "t.trl"
  maxDepth := none
  isNameMacro _ := false
  invoke _ := pure (some (.expr (.mk (.const (.int 1)) none)))

/-- The module `m[2]`, without locations. -/
def callModule : Module :=
  ⟨[.mk (.expr (.mk (.subscript (.mk (.name "m") none) (.mk (.const (.int 2)) none)) none)) none]⟩

/-- The module `1`, at line 1, column 0. -/
def oneModule : Module :=
  ⟨[.mk (.expr (.mk (.const (.int 1)) (some ⟨1, 0⟩))) (some ⟨1, 0⟩)]⟩

theorem expandModule_settles_constOne :
    constOne.ReturnsUnmarked ∧ constOne.ExprResultsUnbound ∧
    Stmt.markerLocsList callModule.body = [] ∧
    (constOne.expandModule 20 callModule).run () = .ok oneModule () ∧
    (Stmt.markerLocsList oneModule.body = [] ∧ Stmt.missingLocsList oneModule.body = [] ∧
      (∀ p ∈ Tree.collect constOne.bindings constOne.isNameMacro (.stmts oneModule.body),
        p.2 = .name ∧ ∃ mac, constOne.bindings.get? p.1 = some mac ∧ constOne.isNameMacro mac = true) ∧
      ((∀ n mac, constOne.bindings.get? n = some mac → constOne.isNameMacro mac = false) →
        ∀ f', sizeOf oneModule.body < f' → constOne.expandModule f' oneModule = pure oneModule)) := by
  have hDone : constOne.ReturnsUnmarked := fun _ => .pure fun t ht => by cases ht; rfl
  have hExpr : constOne.ExprResultsUnbound := fun _ _ =>
    .pure fun t ht => by cases ht; exact ⟨_, rfl, by simp [Expr.IsBoundName, Expr.asName?]⟩
  have hrun : (constOne.expandModule 20 callModule).run () = .ok oneModule () := by
    simp [callModule, oneModule, expandModule, visitBody_cons, visitBody_nil, visitStmt, visitExpr,
      exprInvocation?, nameInvocation?, blockInvocation?, decoratorInvocations, apply_succ_of_bound,
      constOne, Bindings.get?, Bindings.isBound, toExpr, visitTree, Tree.fillLocs, Expr.fillLocs,
      Tree.toExpr?, Stmt.stripMarkersList, Stmt.stripMarkers, Expr.stripMarkers, Module.fillLocs,
      fillTopLevel, Stmt.fillLocs]
  exact ⟨hDone, hExpr, rfl, hrun,
    expandModule_settles hDone hExpr callModule rfl 20 () oneModule () hrun⟩

/-! ## A bound bare name in the base of a subscript -/

/-- An expander with one macro, bound to `m`, that gives back what it is handed, without its
markers. -/
def plainEcho : Expander (EStateM Error Unit) Unit where
  bindings := ⟨[("m", ())]⟩
  filename := "t.trl"
  maxDepth := none
  isNameMacro _ := false
  invoke inv := pure (some inv.tree.stripMarkers)

/-- The module `m[m][1]`, without locations. -/
def echoOfEcho : Module :=
  ⟨[.mk (.expr (.mk (.subscript (.mk (.subscript (.mk (.name "m") none) (.mk (.name "m") none)) none)
    (.mk (.const (.int 1)) none)) none)) none]⟩

/-- The module `m[1]`, at line 1, column 0. -/
def echoResidue : Module :=
  ⟨[.mk (.expr (.mk (.subscript (.mk (.name "m") (some ⟨1, 0⟩)) (.mk (.const (.int 1)) (some ⟨1, 0⟩)))
    (some ⟨1, 0⟩))) (some ⟨1, 0⟩)]⟩

/-- A macro that returns no marker can still leave an invocation behind: in `m[m][1]` the
inner call gives back the bare name `m`, which becomes the base of the outer subscript after
that subscript was found to invoke nothing. -/
theorem expansion_leaves_formed_invocation :
    plainEcho.ReturnsUnmarked ∧ Stmt.markerLocsList echoOfEcho.body = [] ∧
    (plainEcho.expandModule 20 echoOfEcho).run () = .ok echoResidue () ∧
    ("m", Shape.expr) ∈ Tree.collect plainEcho.bindings plainEcho.isNameMacro (.stmts echoResidue.body) := by
  refine ⟨fun inv => .pure fun t ht => ?_, rfl, ?_, ?_⟩
  · cases ht
    exact Tree.unmarked_stripMarkers inv.tree
  · simp [echoOfEcho, echoResidue, expandModule, visitBody_cons, visitBody_nil, visitStmt, visitExpr,
      exprInvocation?, nameInvocation?, blockInvocation?, decoratorInvocations, apply_succ_of_bound,
      plainEcho, Bindings.get?, Bindings.isBound, toExpr, visitTree, Tree.fillLocs, Expr.fillLocs,
      Tree.toExpr?, Tree.stripMarkers, Stmt.stripMarkersList, Stmt.stripMarkers, Expr.stripMarkers,
      Module.fillLocs, fillTopLevel, Stmt.fillLocs, invocation]
  · exact (mem_collect_stmts _ _).mpr (by
      simp [echoResidue, Stmt.invocationsList, Stmt.invocations, Expr.invocations, exprInvocation?,
        plainEcho, Bindings.isBound])

end Expander

end Espalier
