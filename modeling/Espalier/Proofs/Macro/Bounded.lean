import Espalier.Proofs.Macro.Monotone

/-!
# Expansion under a depth bound stops

With a bound `k` on nested applications and macros that are plain functions of what their
invocation shows them, the walk stops on every tree, and it never calls a macro while `k`
applications are already open.

A macro's result may be larger than the tree it replaces, so the size of the tree does not
go down along the walk. What goes down is the pair (room left below the bound, size of the
tree), in lexicographic order: an application at depth `d < k` walks its result at depth
`d + 1`, and so does the revisit of a name macro's result, while every other step of the walk
goes to a part of the tree at the same depth. At depth `k` every application fails before it
calls its macro.

The model's walk takes fuel, which bounds the nesting of the whole rewrite, so stopping is
stated as `Halts`: from some fuel on, the run gives one and the same outcome, and that outcome
is not the walk running out of fuel. The proof is an induction on the room below the bound
(`haltsAt`), and inside it one structural recursion over expressions and statements.

That no macro is called at a depth the bound forbids is `CallsChecked`: every call the walk
makes is the invocation of an application that passed the depth check.
-/

namespace Espalier.Expander

variable {σ Mac : Type}

/-! ## Calls made below the bound -/

section Checked
variable (X : Expander (EStateM Error σ) Mac)

/-- Every macro call of the computation is the invocation of an application at a depth `d`
that the bound allows, of the macro bound to the applied name. It is built from `pure`,
`throw` and such calls by binds; what a macro does inside its call belongs to that call. -/
inductive CallsChecked : {α : Type} → EStateM Error σ α → Prop where
  | pure {α : Type} (a : α) : CallsChecked (Pure.pure a)
  | throw {α : Type} (e : Error) : CallsChecked (MonadExcept.throw e : EStateM Error σ α)
  | invoke (f d : Nat) (rec : Bool) (name : String) (mac : Mac) (shape : Shape) (tree : Tree)
      (loc : Option Loc) (asName : Option String) :
      X.bindings.get? name = some mac → X.maxDepth.all (d < ·) →
      CallsChecked (X.invoke (X.invocation f d rec name mac shape tree loc asName))
  | bind {α β : Type} (x : EStateM Error σ β) (k : β → EStateM Error σ α) :
      CallsChecked x → (∀ b, CallsChecked (k b)) → CallsChecked (x >>= k)

variable {X}

theorem CallsChecked.map {α β : Type} {x : EStateM Error σ β} (h : X.CallsChecked x)
    (g : β → α) : X.CallsChecked (g <$> x) := by
  rw [← bind_pure_comp]
  exact .bind _ _ h fun _ => .pure _

theorem CallsChecked.forIn {α β : Type} (xs : List α) (init : β)
    (body : α → β → EStateM Error σ (ForInStep β)) (h : ∀ x b, X.CallsChecked (body x b)) :
    X.CallsChecked (forIn xs init body) := by
  induction xs generalizing init with
  | nil => exact .pure init
  | cons x xs ih =>
    rw [List.forIn_cons]
    refine .bind _ _ (h x init) fun step => ?_
    cases step with
    | done b => exact .pure b
    | yield b => exact ih b

variable (X)

/-- At fuel `f`, every function of the walk makes only calls the bound allows. -/
structure ChecksCalls (f : Nat) : Prop where
  expr : ∀ d rec e, X.CallsChecked (X.visitExpr f d rec e)
  exprs : ∀ d rec es, X.CallsChecked (X.visitExprs f d rec es)
  opt : ∀ d rec o, X.CallsChecked (X.visitOpt f d rec o)
  stmt : ∀ d rec s, X.CallsChecked (X.visitStmt f d rec s)
  body : ∀ d rec ss, X.CallsChecked (X.visitBody f d rec ss)
  tree : ∀ d rec t, X.CallsChecked (X.visitTree f d rec t)
  apply : ∀ d rec name shape tree loc asName,
    X.CallsChecked (X.apply f d rec name shape tree loc asName)
  name : ∀ d rec e name, X.CallsChecked (X.expandName f d rec e name)
  decorated : ∀ d rec s, X.CallsChecked (X.expandDecorated f d rec s)

variable {X}

theorem checksCalls_zero : X.ChecksCalls 0 where
  expr _ _ _ := by simp only [visitExpr]; exact .throw _
  exprs _ _ _ := by simp only [visitExprs]; exact .throw _
  opt _ _ _ := by simp only [visitOpt]; exact .throw _
  stmt _ _ _ := by simp only [visitStmt]; exact .throw _
  body _ _ _ := by simp only [visitBody]; exact .throw _
  tree _ _ _ := by simp only [visitTree]; exact .throw _
  apply _ _ _ _ _ _ _ := by simp only [apply]; exact .throw _
  name _ _ _ _ := by simp only [expandName]; exact .throw _
  decorated _ _ _ := by simp only [expandDecorated]; exact .throw _

section Succ
variable {f : Nat} (ih : X.ChecksCalls f) (d : Nat) (rec : Bool)
include ih

theorem ChecksCalls.apply_succ (name : String) (shape : Shape) (tree : Tree) (loc : Option Loc)
    (asName : Option String) :
    X.CallsChecked (X.apply (f + 1) d rec name shape tree loc asName) := by
  cases hmac : X.bindings.get? name with
  | none =>
    rw [apply_succ_of_unbound f d name shape tree loc asName rec hmac]
    exact .throw _
  | some mac =>
    by_cases hd : X.maxDepth.all (d < ·)
    · -- the only call: the application's own invocation, past both checks
      rw [apply_succ_of_bound f d name shape tree loc asName rec hmac hd]
      refine .bind _ _ (.invoke f d rec name mac shape tree loc asName hmac hd) fun r => ?_
      cases r with
      | none => exact .pure _
      | some t =>
        cases rec with
        | false => exact .pure _
        | true => exact (ih.tree (d + 1) true _).map some
    · obtain ⟨e, he, -⟩ := apply_succ_at_limit f d name shape tree loc asName rec hmac hd
      rw [he]
      exact .throw _

theorem ChecksCalls.name_succ (e : Expr) (name : String) :
    X.CallsChecked (X.expandName (f + 1) d rec e name) := by
  simp only [expandName]
  refine .bind _ _ (ih.apply d false name .name (.expr e) e.loc none) fun r => ?_
  refine .bind _ _ ?_ fun new => ?_
  · rcases r with _ | t
    · exact .throw _
    · simp only [Expander.toExpr]
      split
      · exact .pure _
      · exact .throw _
  · cases rec with
    | false => exact .pure _
    | true =>
      obtain ⟨k, l⟩ := new
      cases k with
      | name n =>
        simp only [Bool.not_true, Bool.false_eq_true, ↓reduceIte]
        split
        · exact .pure _
        · exact ih.expr (d + 1) true _
      | _ => exact ih.expr (d + 1) true _

theorem ChecksCalls.expr_succ (e : Expr) : X.CallsChecked (X.visitExpr (f + 1) d rec e) := by
  obtain ⟨k, l⟩ := e
  cases k with
  | done inner =>
    simp only [visitExpr]
    exact .pure _
  | name n =>
    cases hn : nameInvocation? X.bindings X.isNameMacro (.mk (.name n) l) with
    | none =>
      simp only [visitExpr, hn, exprInvocation?]
      exact .pure _
    | some name =>
      simp only [visitExpr, hn, exprInvocation?]
      exact ih.name d rec _ name
  | const c =>
    simp only [visitExpr, exprInvocation?, nameInvocation?]
    exact .pure _
  | binOp op a b =>
    simp only [visitExpr, exprInvocation?, nameInvocation?]
    exact .bind _ _ (ih.expr d rec a) fun _ => .bind _ _ (ih.expr d rec b) fun _ => .pure _
  | unaryOp op a =>
    simp only [visitExpr, exprInvocation?, nameInvocation?]
    exact .bind _ _ (ih.expr d rec a) fun _ => .pure _
  | call fn args =>
    simp only [visitExpr, exprInvocation?, nameInvocation?]
    exact .bind _ _ (ih.expr d rec fn) fun _ => .bind _ _ (ih.exprs d rec args) fun _ => .pure _
  | «attribute» v a =>
    simp only [visitExpr, exprInvocation?, nameInvocation?]
    exact .bind _ _ (ih.expr d rec v) fun _ => .pure _
  | subscript v i =>
    cases hx : exprInvocation? X.bindings (.mk (.subscript v i) l) with
    | some name =>
      simp only [visitExpr, hx]
      exact .bind _ _ (ih.apply d rec name .expr (.expr i) l none) fun r => by
        rcases r with _ | t
        · exact .throw _
        · simp only [Expander.toExpr]
          split
          · exact .pure _
          · exact .throw _
    | none =>
      cases hv : v.asName? with
      | none =>
        rw [visitExpr_subscript_of_asName d rec f v i l hv]
        exact .bind _ _ (ih.expr d rec v) fun _ => .bind _ _ (ih.expr d rec i) fun _ => .pure _
      | some _ =>
        obtain ⟨vk, vl⟩ := v
        cases vk with
        | name n =>
          simp only [visitExpr, hx, nameInvocation?]
          exact .bind _ _ (ih.expr d rec i) fun _ => .pure _
        | _ => simp [Expr.asName?] at hv
  | list items =>
    simp only [visitExpr, exprInvocation?, nameInvocation?]
    exact .bind _ _ (ih.exprs d rec items) fun _ => .pure _
  | tuple items =>
    simp only [visitExpr, exprInvocation?, nameInvocation?]
    exact .bind _ _ (ih.exprs d rec items) fun _ => .pure _
  | lambda ps body =>
    simp only [visitExpr, exprInvocation?, nameInvocation?]
    exact .bind _ _ (ih.expr d rec body) fun _ => .pure _
  | ifExp t b o =>
    simp only [visitExpr, exprInvocation?, nameInvocation?]
    exact .bind _ _ (ih.expr d rec t) fun _ => .bind _ _ (ih.expr d rec b) fun _ =>
      .bind _ _ (ih.expr d rec o) fun _ => .pure _

theorem ChecksCalls.exprs_succ (es : List Expr) :
    X.CallsChecked (X.visitExprs (f + 1) d rec es) := by
  induction es with
  | nil =>
    rw [visitExprs_nil]
    exact .pure _
  | cons e es ihs =>
    rw [visitExprs_cons]
    exact .bind _ _ (ih.expr d rec e) fun _ => .bind _ _ ihs fun _ => .pure _

theorem ChecksCalls.opt_succ (o : Option Expr) : X.CallsChecked (X.visitOpt (f + 1) d rec o) := by
  cases o with
  | none =>
    rw [visitOpt_none]
    exact .pure _
  | some e =>
    rw [visitOpt_some]
    exact (ih.expr d rec e).map some

theorem ChecksCalls.decorated_succ (s : Stmt) :
    X.CallsChecked (X.expandDecorated (f + 1) d rec s) := by
  obtain ⟨k, l⟩ := s
  rw [expandDecorated_succ_eq]
  refine .bind _ _ (.forIn _ _ _ fun name current => ?_) fun _ => .pure _
  cases current with
  | none => exact .pure _
  | some t => exact .bind _ _ (ih.apply d rec name .decorator t l none) fun _ => .pure _

theorem ChecksCalls.stmt_succ (s : Stmt) : X.CallsChecked (X.visitStmt (f + 1) d rec s) := by
  obtain ⟨k, l⟩ := s
  cases k with
  | done ss =>
    simp only [visitStmt]
    exact .pure _
  | withBlock item a body =>
    cases hbl : blockInvocation? X.bindings (.mk (.withBlock item a body) l) with
    | some name =>
      simp only [visitStmt, hbl]
      exact .bind _ _ (ih.apply d rec name .block (.stmts body) l a) fun _ => .pure _
    | none =>
      simp only [visitStmt, hbl, decoratorInvocations, List.isEmpty_nil]
      exact .bind _ _ (ih.expr d rec item) fun _ => .bind _ _ (ih.body d rec body) fun _ => .pure _
  | functionDef n ps body ds =>
    by_cases hdec : decoratorInvocations X.bindings (.mk (.functionDef n ps body ds) l) = []
    · simp only [visitStmt, blockInvocation?, hdec, List.isEmpty_nil]
      exact .bind _ _ (ih.exprs d rec ds) fun _ => .bind _ _ (ih.body d rec body) fun _ => .pure _
    · have hne : (!(decoratorInvocations X.bindings
          (.mk (.functionDef n ps body ds) l)).isEmpty) = true := by
        simpa [List.isEmpty_iff] using hdec
      simp only [visitStmt, blockInvocation?, hne, ↓reduceIte]
      exact ih.decorated d rec _
  | classDef n body ds =>
    by_cases hdec : decoratorInvocations X.bindings (.mk (.classDef n body ds) l) = []
    · simp only [visitStmt, blockInvocation?, hdec, List.isEmpty_nil]
      exact .bind _ _ (ih.exprs d rec ds) fun _ => .bind _ _ (ih.body d rec body) fun _ => .pure _
    · have hne : (!(decoratorInvocations X.bindings (.mk (.classDef n body ds) l)).isEmpty) = true := by
        simpa [List.isEmpty_iff] using hdec
      simp only [visitStmt, blockInvocation?, hne, ↓reduceIte]
      exact ih.decorated d rec _
  | expr v =>
    simp only [visitStmt, blockInvocation?, decoratorInvocations, List.isEmpty_nil]
    exact .bind _ _ (ih.expr d rec v) fun _ => .pure _
  | assign t v =>
    simp only [visitStmt, blockInvocation?, decoratorInvocations, List.isEmpty_nil]
    exact .bind _ _ (ih.expr d rec t) fun _ => .bind _ _ (ih.expr d rec v) fun _ => .pure _
  | ret v =>
    simp only [visitStmt, blockInvocation?, decoratorInvocations, List.isEmpty_nil]
    exact .bind _ _ (ih.opt d rec v) fun _ => .pure _
  | ifElse t body o =>
    simp only [visitStmt, blockInvocation?, decoratorInvocations, List.isEmpty_nil]
    exact .bind _ _ (ih.expr d rec t) fun _ => .bind _ _ (ih.body d rec body) fun _ =>
      .bind _ _ (ih.body d rec o) fun _ => .pure _
  | whileLoop t body =>
    simp only [visitStmt, blockInvocation?, decoratorInvocations, List.isEmpty_nil]
    exact .bind _ _ (ih.expr d rec t) fun _ => .bind _ _ (ih.body d rec body) fun _ => .pure _
  | forLoop x i body =>
    simp only [visitStmt, blockInvocation?, decoratorInvocations, List.isEmpty_nil]
    exact .bind _ _ (ih.expr d rec i) fun _ => .bind _ _ (ih.body d rec body) fun _ => .pure _
  | assertion t m =>
    simp only [visitStmt, blockInvocation?, decoratorInvocations, List.isEmpty_nil]
    exact .bind _ _ (ih.expr d rec t) fun _ => .bind _ _ (ih.opt d rec m) fun _ => .pure _
  | importModule _ _ | importFrom _ _ _ | pass | breakLoop | continueLoop =>
    simp only [visitStmt, blockInvocation?, decoratorInvocations, List.isEmpty_nil]
    exact .pure _

theorem ChecksCalls.body_succ (ss : List Stmt) : X.CallsChecked (X.visitBody (f + 1) d rec ss) := by
  induction ss with
  | nil =>
    rw [visitBody_nil]
    exact .pure _
  | cons s ss ihs =>
    rw [visitBody_cons]
    exact .bind _ _ (ih.stmt d rec s) fun _ => .bind _ _ ihs fun _ => .pure _

theorem ChecksCalls.tree_succ (t : Tree) : X.CallsChecked (X.visitTree (f + 1) d rec t) := by
  cases t with
  | expr e =>
    simp only [visitTree]
    exact (ih.expr d rec e).map _
  | stmts ss =>
    simp only [visitTree]
    exact (ih.body d rec ss).map _

end Succ

/-- At every fuel, the walk calls macros only through applications that passed the checks. -/
theorem checksCalls : ∀ f, X.ChecksCalls f
  | 0 => checksCalls_zero
  | f + 1 =>
    have ih := checksCalls f
    { expr := fun d rec e => ih.expr_succ d rec e
      exprs := fun d rec es => ih.exprs_succ d rec es
      opt := fun d rec o => ih.opt_succ d rec o
      stmt := fun d rec s => ih.stmt_succ d rec s
      body := fun d rec ss => ih.body_succ d rec ss
      tree := fun d rec t => ih.tree_succ d rec t
      apply := fun d rec name shape tree loc asName => ih.apply_succ d rec name shape tree loc asName
      name := fun d rec e name => ih.name_succ d rec e name
      decorated := fun d rec s => ih.decorated_succ d rec s }

end Checked

/-! ## Runs that stop

A run of the walk is a family of computations, one per fuel. It stops when, from some fuel
on, it gives one outcome, and that outcome is a value or a failure of the walk or of a macro,
not the walk running out of fuel. -/

section Halts
variable (g : String → Shape → Tree → Option String → Option Loc → Except Error (Option Tree))
variable {α β : Type}

/-- Some macro fails with `e` itself. -/
def MacroFails (e : Error) : Prop :=
  ∃ name shape tree asName loc, g name shape tree asName loc = .error e

/-- An outcome that is not the walk running out of fuel: a value, or an error other than the
out-of-fuel one, unless a macro fails with that very error itself. -/
def Final : EStateM.Result Error σ α → Prop
  | .ok _ _ => True
  | .error e _ => e = expansionFuelError → MacroFails g e

/-- From fuel `f₀` on, the run of `x` from `s` gives `r`. -/
def SettlesOn (x : Nat → EStateM Error σ α) (s : σ) (r : EStateM.Result Error σ α) : Prop :=
  ∃ f₀, ∀ f, f₀ ≤ f → (x f).run s = r

/-- The run of `x` from `s` stops: from some fuel on it gives one final outcome. -/
def Halts (x : Nat → EStateM Error σ α) (s : σ) : Prop :=
  ∃ r, SettlesOn x s r ∧ Final g r

variable {g} {s : σ}

theorem Halts.pure (a : α) : Halts g (fun _ => (Pure.pure a : EStateM Error σ α)) s :=
  ⟨.ok a s, ⟨0, fun _ _ => rfl⟩, trivial⟩

/-- A failure that is not the out-of-fuel error is final. -/
theorem Halts.throw {e : Error} (he : e = expansionFuelError → MacroFails g e) :
    Halts g (fun _ => (MonadExcept.throw e : EStateM Error σ α)) s :=
  ⟨.error e s, ⟨0, fun _ _ => rfl⟩, he⟩

/-- A located failure is not the out-of-fuel error, which has no file. -/
theorem Halts.throw_located {e : Error} (he : e.filename.isSome) :
    Halts g (fun _ => (MonadExcept.throw e : EStateM Error σ α)) s :=
  .throw fun h => by simp [h, expansionFuelError, Error.plain] at he

/-- A run through a bind stops when its first part does and the rest stops from every value
the first part settles on. -/
theorem Halts.bind {x : Nat → EStateM Error σ β} {k : Nat → β → EStateM Error σ α}
    (hx : Halts g x s) (hk : ∀ b s', SettlesOn x s (.ok b s') → Halts g (fun f => k f b) s') :
    Halts g (fun f => x f >>= k f) s := by
  obtain ⟨r, ⟨f₁, h₁⟩, hr⟩ := hx
  cases r with
  | ok b s' =>
    obtain ⟨r₂, ⟨f₂, h₂⟩, hr₂⟩ := hk b s' ⟨f₁, h₁⟩
    refine ⟨r₂, ⟨max f₁ f₂, fun f hf => ?_⟩, hr₂⟩
    rw [EStateM.run_bind, h₁ f (le_of_max_le_left hf)]
    exact h₂ f (le_of_max_le_right hf)
  | error e s' =>
    refine ⟨.error e s', ⟨f₁, fun f hf => ?_⟩, hr⟩
    rw [EStateM.run_bind, h₁ f hf]

theorem Halts.map {x : Nat → EStateM Error σ β} (hx : Halts g x s) (h : β → α) :
    Halts g (fun f => h <$> x f) s := by
  simp only [← bind_pure_comp]
  exact hx.bind fun _ _ _ => .pure _

/-- A run stops when it does one step later. -/
theorem Halts.of_succ {x : Nat → EStateM Error σ α} (h : Halts g (fun f => x (f + 1)) s) :
    Halts g x s := by
  obtain ⟨r, ⟨f₀, h₀⟩, hr⟩ := h
  refine ⟨r, ⟨f₀ + 1, fun f hf => ?_⟩, hr⟩
  obtain ⟨f', rfl⟩ : ∃ f', f = f' + 1 := ⟨f - 1, by omega⟩
  exact h₀ f' (by omega)

/-- A run that stops also stops when every fuel is one higher. -/
theorem Halts.succ {x : Nat → EStateM Error σ α} (h : Halts g x s) :
    Halts g (fun f => x (f + 1)) s := by
  obtain ⟨r, ⟨f₀, h₀⟩, hr⟩ := h
  exact ⟨r, ⟨f₀, fun f hf => h₀ (f + 1) (by omega)⟩, hr⟩

/-- A loop stops when its body stops on every item and every state. -/
theorem Halts.forIn {γ : Type} (xs : List γ) (init : β)
    {body : Nat → γ → β → EStateM Error σ (ForInStep β)}
    (h : ∀ x ∈ xs, ∀ b s, Halts g (fun f => body f x b) s) :
    Halts g (fun f => forIn xs init (body f)) s := by
  induction xs generalizing init s with
  | nil => exact .pure init
  | cons x xs ih =>
    simp only [List.forIn_cons]
    refine (h x List.mem_cons_self init s).bind fun step s' _ => ?_
    cases step with
    | done b => exact .pure b
    | yield b => exact ih b fun y hy => h y (List.mem_cons_of_mem x hy)

end Halts

/-! ## The walk stops at every depth -/

section Walk
variable {X : Expander (EStateM Error σ) Mac}
  {g : String → Shape → Tree → Option String → Option Loc → Except Error (Option Tree)}

variable (X g) in
/-- At depth `d`, the walk of an expression and the walk of a tree stop, from every state. -/
structure HaltsAt (d : Nat) : Prop where
  expr : ∀ rec e (s : σ), Halts g (fun f => X.visitExpr f d rec e) s
  tree : ∀ rec t (s : σ), Halts g (fun f => X.visitTree f d rec t) s

section Depth
variable (hX : X.Plain g) {k : Nat} (hk : X.maxDepth = some k) {d : Nat}
  (deeper : d < k → HaltsAt X g (d + 1))
include hX hk deeper

/-- An application stops: below the bound the macro's result is walked one level deeper,
where the walk stops; at the bound the application fails before calling the macro. -/
theorem halts_apply (rec : Bool) (name : String) (shape : Shape) (tree : Tree) (loc : Option Loc)
    (asName : Option String) (s : σ) :
    Halts g (fun f => X.apply f d rec name shape tree loc asName) s := by
  apply Halts.of_succ
  cases hmac : X.bindings.get? name with
  | none =>
    simp only [apply_succ_of_unbound _ d name shape tree loc asName rec hmac]
    exact .throw_located (by simp [Error.atLoc])
  | some mac =>
    by_cases hd : d < k
    · have hall : X.maxDepth.all (d < ·) := by simpa [hk] using hd
      simp only [apply_succ_of_bound _ d name shape tree loc asName rec hmac hall, hX.invoke_eq,
        invocation]
      cases hg : g name shape tree asName loc with
      | error e =>
        simp only [ofExcept, throw_bind]
        exact .throw fun _ => ⟨name, shape, tree, asName, loc, hg⟩
      | ok r =>
        simp only [ofExcept, pure_bind]
        cases r with
        | none => exact .pure _
        | some t =>
          cases rec with
          | false => exact .pure _
          | true => exact ((deeper hd).tree true _ s).map some
    · -- at the bound: the depth error, before the macro is called
      have hle : k ≤ d := Nat.le_of_not_lt hd
      simp only [apply, hmac, hk, if_pos hle, throw_bind]
      exact .throw_located (by simp [Error.atLoc, Error.withHelp])

/-- A name invocation stops: the one-layer application stops, and its result is revisited
one level deeper only when the application succeeded, hence below the bound. -/
theorem halts_name (rec : Bool) (e : Expr) (name : String) (s : σ) :
    Halts g (fun f => X.expandName f d rec e name) s := by
  apply Halts.of_succ
  simp only [expandName]
  refine (halts_apply hX hk deeper false name .name (.expr e) e.loc none s).bind
    fun r s₁ hr => ?_
  -- a successful application happened below the bound
  have hd : d < k := by
    obtain ⟨f₀, h₀⟩ := hr
    have h := apply_run_once_ok hX (h₀ (f₀ + 1) (Nat.le_succ f₀))
    simpa [hk] using h.2.1
  refine Halts.bind (x := fun _ => X.toExpr name r e.loc) ?_ fun new s₂ _ => ?_
  · rcases r with _ | t
    · exact .throw_located (by simp [Error.atLoc])
    · simp only [Expander.toExpr]
      split
      · exact .pure _
      · exact .throw_located (by simp [Error.atLoc])
  · cases rec with
    | false => exact .pure _
    | true =>
      obtain ⟨kn, l⟩ := new
      cases kn with
      | name n =>
        simp only [Bool.not_true, Bool.false_eq_true, ↓reduceIte]
        split
        · exact .pure _
        · exact (deeper hd).expr true _ s₂
      | _ => exact (deeper hd).expr true _ s₂

/-! Inside one depth the walk goes down the tree: one structural recursion over expressions,
then one over statements. -/

set_option linter.unusedSectionVars false in
mutual
theorem halts_expr : ∀ (e : Expr) (rec : Bool) (s : σ), Halts g (fun f => X.visitExpr f d rec e) s
  | .mk kind l, rec, s => by
    apply Halts.of_succ
    cases kind with
    | done inner =>
      simp only [visitExpr]
      exact .pure _
    | name n =>
      cases hn : nameInvocation? X.bindings X.isNameMacro (.mk (.name n) l) with
      | none =>
        simp only [visitExpr, hn, exprInvocation?]
        exact .pure _
      | some name =>
        simp only [visitExpr, hn, exprInvocation?]
        exact halts_name hX hk deeper rec _ name s
    | const c =>
      simp only [visitExpr, exprInvocation?, nameInvocation?]
      exact .pure _
    | binOp op a b =>
      simp only [visitExpr, exprInvocation?, nameInvocation?]
      exact (halts_expr a rec s).bind fun _ s₁ _ =>
        (halts_expr b rec s₁).bind fun _ _ _ => .pure _
    | unaryOp op a =>
      simp only [visitExpr, exprInvocation?, nameInvocation?]
      exact (halts_expr a rec s).bind fun _ _ _ => .pure _
    | call fn args =>
      simp only [visitExpr, exprInvocation?, nameInvocation?]
      exact (halts_expr fn rec s).bind fun _ s₁ _ =>
        (halts_exprs args rec s₁).bind fun _ _ _ => .pure _
    | «attribute» v a =>
      simp only [visitExpr, exprInvocation?, nameInvocation?]
      exact (halts_expr v rec s).bind fun _ _ _ => .pure _
    | subscript v i =>
      cases hx : exprInvocation? X.bindings (.mk (.subscript v i) l) with
      | some name =>
        simp only [visitExpr, hx]
        refine (halts_apply hX hk deeper rec name .expr (.expr i) l none s).bind
          fun r s₁ _ => ?_
        rcases r with _ | t
        · exact .throw_located (by simp [Error.atLoc])
        · simp only [Expander.toExpr]
          split
          · exact .pure _
          · exact .throw_located (by simp [Error.atLoc])
      | none =>
        cases hv : v.asName? with
        | none =>
          simp only [visitExpr_subscript_of_asName _ _ _ v i l hv]
          exact (halts_expr v rec s).bind fun _ s₁ _ =>
            (halts_expr i rec s₁).bind fun _ _ _ => .pure _
        | some _ =>
          obtain ⟨vk, vl⟩ := v
          cases vk with
          | name n =>
            simp only [visitExpr, hx, nameInvocation?]
            exact (halts_expr i rec s).bind fun _ _ _ => .pure _
          | _ => simp [Expr.asName?] at hv
    | list items =>
      simp only [visitExpr, exprInvocation?, nameInvocation?]
      exact (halts_exprs items rec s).bind fun _ _ _ => .pure _
    | tuple items =>
      simp only [visitExpr, exprInvocation?, nameInvocation?]
      exact (halts_exprs items rec s).bind fun _ _ _ => .pure _
    | lambda ps body =>
      simp only [visitExpr, exprInvocation?, nameInvocation?]
      exact (halts_expr body rec s).bind fun _ _ _ => .pure _
    | ifExp t b o =>
      simp only [visitExpr, exprInvocation?, nameInvocation?]
      exact (halts_expr t rec s).bind fun _ s₁ _ => (halts_expr b rec s₁).bind fun _ s₂ _ =>
        (halts_expr o rec s₂).bind fun _ _ _ => .pure _

theorem halts_exprs : ∀ (es : List Expr) (rec : Bool) (s : σ),
    Halts g (fun f => X.visitExprs f d rec es) s
  | [], rec, s => by
    apply Halts.of_succ
    simp only [visitExprs_nil]
    exact .pure _
  | e :: es, rec, s => by
    apply Halts.of_succ
    simp only [visitExprs_cons]
    exact (halts_expr e rec s).bind fun _ s₁ _ =>
      (halts_exprs es rec s₁).succ.bind fun _ _ _ => .pure _
end

theorem halts_opt (o : Option Expr) (rec : Bool) (s : σ) :
    Halts g (fun f => X.visitOpt f d rec o) s := by
  apply Halts.of_succ
  cases o with
  | none =>
    simp only [visitOpt_none]
    exact .pure _
  | some e =>
    simp only [visitOpt_some]
    exact (halts_expr hX hk deeper e rec s).map some

/-- A decorator chain stops: each of its applications does. -/
theorem halts_decorated (rec : Bool) (st : Stmt) (s : σ) :
    Halts g (fun f => X.expandDecorated f d rec st) s := by
  apply Halts.of_succ
  obtain ⟨kind, l⟩ := st
  simp only [expandDecorated_succ_eq]
  refine (Halts.forIn _ _ fun name _ current s₁ => ?_).bind fun _ _ _ => .pure _
  cases current with
  | none => exact .pure _
  | some t =>
    exact (halts_apply hX hk deeper rec name .decorator t l none s₁).bind fun _ _ _ => .pure _

set_option linter.unusedSectionVars false in
mutual
theorem halts_stmt : ∀ (st : Stmt) (rec : Bool) (s : σ),
    Halts g (fun f => X.visitStmt f d rec st) s
  | .mk kind l, rec, s => by
    apply Halts.of_succ
    cases kind with
    | done ss =>
      simp only [visitStmt]
      exact .pure _
    | withBlock item a body =>
      cases hbl : blockInvocation? X.bindings (.mk (.withBlock item a body) l) with
      | some name =>
        simp only [visitStmt, hbl]
        exact (halts_apply hX hk deeper rec name .block (.stmts body) l a s).bind
          fun _ _ _ => .pure _
      | none =>
        simp only [visitStmt, hbl, decoratorInvocations, List.isEmpty_nil]
        exact (halts_expr hX hk deeper item rec s).bind fun _ s₁ _ =>
          (halts_body body rec s₁).bind fun _ _ _ => .pure _
    | functionDef n ps body ds =>
      by_cases hdec : decoratorInvocations X.bindings (.mk (.functionDef n ps body ds) l) = []
      · simp only [visitStmt, blockInvocation?, hdec, List.isEmpty_nil]
        exact (halts_exprs hX hk deeper ds rec s).bind fun _ s₁ _ =>
          (halts_body body rec s₁).bind fun _ _ _ => .pure _
      · have hne : (!(decoratorInvocations X.bindings
            (.mk (.functionDef n ps body ds) l)).isEmpty) = true := by
          simpa [List.isEmpty_iff] using hdec
        simp only [visitStmt, blockInvocation?, hne, ↓reduceIte]
        exact halts_decorated hX hk deeper rec _ s
    | classDef n body ds =>
      by_cases hdec : decoratorInvocations X.bindings (.mk (.classDef n body ds) l) = []
      · simp only [visitStmt, blockInvocation?, hdec, List.isEmpty_nil]
        exact (halts_exprs hX hk deeper ds rec s).bind fun _ s₁ _ =>
          (halts_body body rec s₁).bind fun _ _ _ => .pure _
      · have hne : (!(decoratorInvocations X.bindings
            (.mk (.classDef n body ds) l)).isEmpty) = true := by
          simpa [List.isEmpty_iff] using hdec
        simp only [visitStmt, blockInvocation?, hne, ↓reduceIte]
        exact halts_decorated hX hk deeper rec _ s
    | expr v =>
      simp only [visitStmt, blockInvocation?, decoratorInvocations, List.isEmpty_nil]
      exact (halts_expr hX hk deeper v rec s).bind fun _ _ _ => .pure _
    | assign t v =>
      simp only [visitStmt, blockInvocation?, decoratorInvocations, List.isEmpty_nil]
      exact (halts_expr hX hk deeper t rec s).bind fun _ s₁ _ =>
        (halts_expr hX hk deeper v rec s₁).bind fun _ _ _ => .pure _
    | ret v =>
      simp only [visitStmt, blockInvocation?, decoratorInvocations, List.isEmpty_nil]
      exact (halts_opt hX hk deeper v rec s).bind fun _ _ _ => .pure _
    | ifElse t body o =>
      simp only [visitStmt, blockInvocation?, decoratorInvocations, List.isEmpty_nil]
      exact (halts_expr hX hk deeper t rec s).bind fun _ s₁ _ =>
        (halts_body body rec s₁).bind fun _ s₂ _ => (halts_body o rec s₂).bind fun _ _ _ => .pure _
    | whileLoop t body =>
      simp only [visitStmt, blockInvocation?, decoratorInvocations, List.isEmpty_nil]
      exact (halts_expr hX hk deeper t rec s).bind fun _ s₁ _ =>
        (halts_body body rec s₁).bind fun _ _ _ => .pure _
    | forLoop x i body =>
      simp only [visitStmt, blockInvocation?, decoratorInvocations, List.isEmpty_nil]
      exact (halts_expr hX hk deeper i rec s).bind fun _ s₁ _ =>
        (halts_body body rec s₁).bind fun _ _ _ => .pure _
    | assertion t m =>
      simp only [visitStmt, blockInvocation?, decoratorInvocations, List.isEmpty_nil]
      exact (halts_expr hX hk deeper t rec s).bind fun _ s₁ _ =>
        (halts_opt hX hk deeper m rec s₁).bind fun _ _ _ => .pure _
    | importModule _ _ | importFrom _ _ _ | pass | breakLoop | continueLoop =>
      simp only [visitStmt, blockInvocation?, decoratorInvocations, List.isEmpty_nil]
      exact .pure _

theorem halts_body : ∀ (ss : List Stmt) (rec : Bool) (s : σ),
    Halts g (fun f => X.visitBody f d rec ss) s
  | [], rec, s => by
    apply Halts.of_succ
    simp only [visitBody_nil]
    exact .pure _
  | st :: ss, rec, s => by
    apply Halts.of_succ
    simp only [visitBody_cons]
    exact (halts_stmt st rec s).bind fun _ s₁ _ =>
      (halts_body ss rec s₁).succ.bind fun _ _ _ => .pure _
end

theorem halts_tree (rec : Bool) (t : Tree) (s : σ) :
    Halts g (fun f => X.visitTree f d rec t) s := by
  apply Halts.of_succ
  cases t with
  | expr e =>
    simp only [visitTree]
    exact (halts_expr hX hk deeper e rec s).map _
  | stmts ss =>
    simp only [visitTree]
    exact (halts_body hX hk deeper ss rec s).map _

end Depth

/-- The walk stops at every depth: by induction on the room `n` left below the bound, a
depth with no room making every application fail before its call. -/
theorem haltsAt (hX : X.Plain g) {k : Nat} (hk : X.maxDepth = some k) :
    ∀ n d, k ≤ d + n → HaltsAt X g d
  | 0, d, hroom =>
    have deeper : d < k → HaltsAt X g (d + 1) := fun hd => absurd hroom (by omega)
    ⟨fun rec e s => halts_expr hX hk deeper e rec s, fun rec t s => halts_tree hX hk deeper rec t s⟩
  | n + 1, d, hroom =>
    have deeper : d < k → HaltsAt X g (d + 1) := fun _ => haltsAt hX hk n (d + 1) (by omega)
    ⟨fun rec e s => halts_expr hX hk deeper e rec s, fun rec t s => halts_tree hX hk deeper rec t s⟩

end Walk

/-- Bounded expansion stops. With plain macros and a bound `k` on nested applications, the
walk of every tree, from every depth and every state, in recursive and in one-layer mode,
settles from some fuel on on one outcome that is not its running out of fuel, unless a macro
itself fails with the out-of-fuel error; and at every fuel each macro call it makes is the
invocation of an application at a depth below `k`, of the macro bound to the applied name. -/
theorem bounded_expansion_halts {X : Expander (EStateM Error σ) Mac}
    {g : String → Shape → Tree → Option String → Option Loc → Except Error (Option Tree)}
    (hX : X.Plain g) {k : Nat} (hk : X.maxDepth = some k) (d : Nat) (rec : Bool) (t : Tree)
    (s : σ) :
    Halts g (fun f => X.visitTree f d rec t) s ∧ ∀ f, X.CallsChecked (X.visitTree f d rec t) :=
  ⟨(haltsAt hX hk k d (by omega)).tree rec t s, fun f => (checksCalls f).tree d rec t⟩

/-! ## A macro that re-emits its own invocation -/

/-- `loop[x]` gives `loop[x]` back, so it never reaches a fixpoint. -/
def loopMacro (_ : String) (_ : Shape) (t : Tree) (_ : Option String) (_ : Option Loc) :
    Except Error (Option Tree) :=
  .ok (some (.expr (.bare (.subscript (.bare (.name "loop")) ((t.toExpr?).getD (.bare (.const .none)))))))

/-- An expander with `loopMacro` bound to `loop`, under the bound 25. -/
def runaway : Expander (EStateM Error Unit) Unit where
  bindings := ⟨[("loop", ())]⟩
  filename := "t.trl"
  maxDepth := some 25
  isNameMacro _ := false
  invoke inv := ofExcept (loopMacro inv.name inv.shape inv.tree inv.asName inv.loc)

/-- The statement `x = loop[1]`. -/
def loopCall : Tree :=
  .stmts [.bare (.assign (.bare (.name "x")) (.bare (.subscript (.bare (.name "loop")) (.bare (.const (.int 1))))))]

theorem runaway_halts :
    runaway.Plain loopMacro ∧ runaway.maxDepth = some 25 ∧
      Halts loopMacro (fun f => runaway.visitTree f 0 true loopCall) () ∧
      ∀ f, runaway.CallsChecked (runaway.visitTree f 0 true loopCall) :=
  ⟨fun _ => rfl, rfl, bounded_expansion_halts (fun _ => rfl) rfl 0 true loopCall ()⟩

end Espalier.Expander
