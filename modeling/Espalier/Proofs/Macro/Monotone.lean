import Espalier.Proofs.Macro.Agreement

/-!
# Plain macros, and more fuel and room

A macro is plain when it is a function of what an invocation shows it (the name, the shape,
the tree, the `as` name and the location) that keeps the state as it is and never calls back
into the expander. With plain macros the walk is a function of its input, and `transfer` says
how far that goes: a run given at least as much fuel, and a depth bound that allows at least
the depths the run applied at, gives back what the run gave and leaves the state as it found
it. That one statement covers raising the fuel, dropping the bound, and starting one level
higher under a bound one lower.

The last part reads a successful run of one application, or of one node, back into what it
did.
-/

namespace Espalier

/-- A statement kind with its macro decorators taken off: what the first decorator macro of a
definition is given. -/
def StmtKind.undecorated {M : Type} (b : Bindings M) : StmtKind → StmtKind
  | .functionDef n ps body ds => .functionDef n ps body (splitDecorators b ds).2
  | .classDef n body ds => .classDef n body (splitDecorators b ds).2
  | k => k


namespace Expander

variable {σ Mac : Type}

/-! ## Plain macros -/

section Plain
variable {α β : Type}

/-- A value or a failure as a computation that leaves the state alone. -/
def ofExcept : Except Error α → EStateM Error σ α
  | .ok a => pure a
  | .error e => throw e

@[simp] theorem ofExcept_run_ok (a : α) (s : σ) :
    (ofExcept (.ok a) : EStateM Error σ α).run s = .ok a s := rfl

@[simp] theorem ofExcept_run_error (e : Error) (s : σ) :
    (ofExcept (.error e) : EStateM Error σ α).run s = .error e s := rfl

/-- The same expander with another bound on nested applications. -/
def withLimit (X : Expander (EStateM Error σ) Mac) (m : Option Nat) :
    Expander (EStateM Error σ) Mac :=
  { X with maxDepth := m }

variable (X : Expander (EStateM Error σ) Mac) (m : Option Nat)

@[simp] theorem withLimit_bindings : (X.withLimit m).bindings = X.bindings := rfl
@[simp] theorem withLimit_maxDepth : (X.withLimit m).maxDepth = m := rfl
@[simp] theorem withLimit_isNameMacro : (X.withLimit m).isNameMacro = X.isNameMacro := rfl
@[simp] theorem withLimit_invoke : (X.withLimit m).invoke = X.invoke := rfl

theorem withLimit_self : X.withLimit X.maxDepth = X := rfl

/-- The macros are plain functions of what an invocation shows them: the name, the shape, the
tree, the `as` name and the location. They keep the state as it is and never call the
expander they are handed. -/
def Plain (g : String → Shape → Tree → Option String → Option Loc → Except Error (Option Tree)) :
    Prop :=
  ∀ inv, X.invoke inv = ofExcept (g inv.name inv.shape inv.tree inv.asName inv.loc)

theorem Plain.withLimit {X : Expander (EStateM Error σ) Mac}
    {g : String → Shape → Tree → Option String → Option Loc → Except Error (Option Tree)}
    (hX : X.Plain g) (m : Option Nat) : (X.withLimit m).Plain g :=
  hX

theorem Plain.invoke_eq {X : Expander (EStateM Error σ) Mac}
    {g : String → Shape → Tree → Option String → Option Loc → Except Error (Option Tree)}
    (hX : X.Plain g) (inv : Invocation (EStateM Error σ) Mac) :
    X.invoke inv = ofExcept (g inv.name inv.shape inv.tree inv.asName inv.loc) :=
  hX inv

end Plain

/-! ## Refinement of runs -/

section Refines
variable {α β : Type}

/-- `x` leaves the state as it found it, and `y` succeeds wherever `x` does, with the same
value and also leaving the state as it is. -/
def Refines (x y : EStateM Error σ α) : Prop :=
  ∀ s a s', x.run s = .ok a s' → s' = s ∧ y.run s = .ok a s

theorem Refines.pure (a : α) : Refines (Pure.pure a : EStateM Error σ α) (Pure.pure a) := by
  intro s a' s' h
  cases h
  exact ⟨rfl, rfl⟩

theorem Refines.ofExcept (r : Except Error α) : Refines (ofExcept r : EStateM Error σ α) (ofExcept r) := by
  intro s a s' h
  cases r with
  | ok b =>
    cases h
    exact ⟨rfl, rfl⟩
  | error e => cases h

theorem Refines.of_throw (e : Error) (y : EStateM Error σ α) : Refines (throw e) y :=
  fun _ _ _ h => by cases h

theorem Refines.bind {x x' : EStateM Error σ β} {k k' : β → EStateM Error σ α}
    (hx : Refines x x') (hk : ∀ b, Refines (k b) (k' b)) : Refines (x >>= k) (x' >>= k') := by
  intro s a s' h
  rw [EStateM.run_bind] at h ⊢
  split at h
  · rename_i b s₁ hb
    obtain ⟨rfl, hb'⟩ := hx s b s₁ hb
    rw [hb']
    exact hk b _ a s' h
  · cases h

theorem Refines.map {x x' : EStateM Error σ β} (hx : Refines x x') (g : β → α) :
    Refines (g <$> x) (g <$> x') := by
  rw [← bind_pure_comp, ← bind_pure_comp]
  exact hx.bind fun b => .pure _

theorem Refines.forIn {γ : Type} (xs : List γ) (init : β)
    {body body' : γ → β → EStateM Error σ (ForInStep β)}
    (h : ∀ x ∈ xs, ∀ b, Refines (body x b) (body' x b)) :
    Refines (forIn xs init body) (forIn xs init body') := by
  induction xs generalizing init with
  | nil => exact .pure _
  | cons x xs ih =>
    rw [List.forIn_cons, List.forIn_cons]
    refine (h x List.mem_cons_self init).bind fun step => ?_
    cases step with
    | done b => exact .pure _
    | yield b => exact ih b fun y hy => h y (List.mem_cons_of_mem x hy)

end Refines

/-! ## The decorator chain -/

/-- `expandDecorated` runs the chain of the statement's macro decorators, the one nearest the
definition first, from the statement less those decorators; with no macro decorator it gives
the statement back. -/
theorem expandDecorated_succ_eq (X : Expander (EStateM Error σ) Mac) (f d : Nat) (rec : Bool)
    (k : StmtKind) (l : Option Loc) :
    X.expandDecorated (f + 1) d rec (.mk k l) = (do
      let current ← forIn (decoratorInvocations X.bindings (.mk k l)).reverse
        (some (.stmts [.mk (k.undecorated X.bindings) l]))
        fun name (current : Option Tree) => match current with
          | none => pure (ForInStep.done current)
          | some t => do
            let r ← X.apply f d rec name .decorator t l none
            pure (ForInStep.yield r)
      pure (match current with
        | some t => t.toStmts
        | none => [])) := by
  cases k <;> (unfold expandDecorated; rfl)

/-- The statements an application's result stands for. -/
def stmtsOf : Option Tree → List Stmt
  | some t => t.toStmts
  | none => []

/-- A definition with a single macro decorator gives the statements of that macro's result on
the definition without it. -/
theorem expandDecorated_single (X : Expander (EStateM Error σ) Mac) (f d : Nat) (rec : Bool)
    {k : StmtKind} {l : Option Loc} {name : String}
    (h : decoratorInvocations X.bindings (.mk k l) = [name]) :
    X.expandDecorated (f + 1) d rec (.mk k l) =
      (X.apply f d rec name .decorator (.stmts [.mk (k.undecorated X.bindings) l]) l none >>=
        fun r => pure (stmtsOf r)) := by
  rw [expandDecorated_succ_eq, h]
  simp only [List.reverse_cons, List.reverse_nil, List.nil_append, List.forIn_cons,
    List.forIn_nil, bind_assoc, pure_bind]
  rfl

/-! ## More fuel and room below the bound

A plain expander's walk needs fuel and room below the depth bound only to carry its work
out: given more of both, it gives back what it gave before. This covers three moves at once:
raising the fuel, dropping the bound, and applying at depth `d + 1` under the bound `L + 1`
what was applied at depth `d` under `L`. -/

section Transfer

/-- Every depth the first run may apply at has a counterpart that the second bound allows
whenever the first does. A recursive run at fuel `f` applies at `d₁ + j` for `j < f`; a
one-layer run applies at `d₁` only. -/
def Below (rec : Bool) (m₁ m₂ : Option Nat) (f d₁ d₂ : Nat) : Prop :=
  if rec then ∀ j < f, m₁.all (d₁ + j < ·) → m₂.all (d₂ + j < ·)
  else m₁.all (d₁ < ·) → m₂.all (d₂ < ·)

section Below
variable {rec : Bool} {m₁ m₂ : Option Nat} {f d₁ d₂ : Nat}

theorem Below.of_succ (h : Below rec m₁ m₂ (f + 1) d₁ d₂) : Below rec m₁ m₂ f d₁ d₂ := by
  cases rec with
  | false => exact h
  | true => exact fun j hj => h j (by omega)

theorem Below.now (h : Below rec m₁ m₂ (f + 1) d₁ d₂) (h₁ : m₁.all (d₁ < ·)) :
    m₂.all (d₂ < ·) := by
  cases rec with
  | false => exact h h₁
  | true => simpa using h 0 (by omega) (by simpa using h₁)

theorem Below.once (h : Below rec m₁ m₂ (f + 1) d₁ d₂) : Below false m₁ m₂ f d₁ d₂ :=
  fun h₁ => h.now h₁

theorem Below.deeper (h : Below true m₁ m₂ (f + 1) d₁ d₂) :
    Below true m₁ m₂ f (d₁ + 1) (d₂ + 1) := by
  intro j hj h₁
  rw [show d₁ + 1 + j = d₁ + (j + 1) by omega] at h₁
  rw [show d₂ + 1 + j = d₂ + (j + 1) by omega]
  exact h (j + 1) (by omega) h₁

/-- Comparing a bound with itself asks nothing. -/
theorem Below.refl (rec : Bool) (m : Option Nat) (f d : Nat) : Below rec m m f d d := by
  cases rec with
  | false => exact id
  | true => exact fun _ _ h => h

end Below

variable (X : Expander (EStateM Error σ) Mac)

/-- What moving from `X.withLimit m₁` at fuel `f` to `X.withLimit m₂` with at least as much
fuel and room keeps, for each function of the walk. -/
structure Transfer (m₁ m₂ : Option Nat) (f : Nat) : Prop where
  expr : ∀ f' d₁ d₂ rec e, f ≤ f' → Below rec m₁ m₂ f d₁ d₂ →
    Refines ((X.withLimit m₁).visitExpr f d₁ rec e) ((X.withLimit m₂).visitExpr f' d₂ rec e)
  exprs : ∀ f' d₁ d₂ rec es, f ≤ f' → Below rec m₁ m₂ f d₁ d₂ →
    Refines ((X.withLimit m₁).visitExprs f d₁ rec es) ((X.withLimit m₂).visitExprs f' d₂ rec es)
  opt : ∀ f' d₁ d₂ rec o, f ≤ f' → Below rec m₁ m₂ f d₁ d₂ →
    Refines ((X.withLimit m₁).visitOpt f d₁ rec o) ((X.withLimit m₂).visitOpt f' d₂ rec o)
  stmt : ∀ f' d₁ d₂ rec s, f ≤ f' → Below rec m₁ m₂ f d₁ d₂ →
    Refines ((X.withLimit m₁).visitStmt f d₁ rec s) ((X.withLimit m₂).visitStmt f' d₂ rec s)
  body : ∀ f' d₁ d₂ rec ss, f ≤ f' → Below rec m₁ m₂ f d₁ d₂ →
    Refines ((X.withLimit m₁).visitBody f d₁ rec ss) ((X.withLimit m₂).visitBody f' d₂ rec ss)
  tree : ∀ f' d₁ d₂ rec t, f ≤ f' → Below rec m₁ m₂ f d₁ d₂ →
    Refines ((X.withLimit m₁).visitTree f d₁ rec t) ((X.withLimit m₂).visitTree f' d₂ rec t)
  apply : ∀ f' d₁ d₂ rec name shape tree loc asName, f ≤ f' → Below rec m₁ m₂ f d₁ d₂ →
    Refines ((X.withLimit m₁).apply f d₁ rec name shape tree loc asName)
      ((X.withLimit m₂).apply f' d₂ rec name shape tree loc asName)
  name : ∀ f' d₁ d₂ rec e name, f ≤ f' → Below rec m₁ m₂ f d₁ d₂ →
    Refines ((X.withLimit m₁).expandName f d₁ rec e name)
      ((X.withLimit m₂).expandName f' d₂ rec e name)
  decorated : ∀ f' d₁ d₂ rec s, f ≤ f' → Below rec m₁ m₂ f d₁ d₂ →
    Refines ((X.withLimit m₁).expandDecorated f d₁ rec s)
      ((X.withLimit m₂).expandDecorated f' d₂ rec s)

variable {X} {g : String → Shape → Tree → Option String → Option Loc → Except Error (Option Tree)}

theorem transfer_zero : Transfer X m₁ m₂ 0 where
  expr _ _ _ _ _ _ _ := by simp only [visitExpr]; exact .of_throw _ _
  exprs _ _ _ _ _ _ _ := by simp only [visitExprs]; exact .of_throw _ _
  opt _ _ _ _ _ _ _ := by simp only [visitOpt]; exact .of_throw _ _
  stmt _ _ _ _ _ _ _ := by simp only [visitStmt]; exact .of_throw _ _
  body _ _ _ _ _ _ _ := by simp only [visitBody]; exact .of_throw _ _
  tree _ _ _ _ _ _ _ := by simp only [visitTree]; exact .of_throw _ _
  apply _ _ _ _ _ _ _ _ _ _ _ := by simp only [apply]; exact .of_throw _ _
  name _ _ _ _ _ _ _ _ := by simp only [expandName]; exact .of_throw _ _
  decorated _ _ _ _ _ _ _ := by simp only [expandDecorated]; exact .of_throw _ _

theorem Refines.toExpr {m₁ m₂ : Option Nat} (name : String) (r : Option Tree) (loc : Option Loc) :
    Refines ((X.withLimit m₁).toExpr name r loc) ((X.withLimit m₂).toExpr name r loc) := by
  rcases r with _ | t
  · exact .of_throw _ _
  · cases h : t.toExpr? with
    | none =>
      simp only [Expander.toExpr, h]
      exact .of_throw _ _
    | some e =>
      simp only [Expander.toExpr, h]
      exact .pure e

section Succ
variable {m₁ m₂ : Option Nat} (ih : Transfer X m₁ m₂ f) (f' d₁ d₂ : Nat)
  (rec : Bool) (hf : f ≤ f') (hb : Below rec m₁ m₂ (f + 1) d₁ d₂)
include ih hf hb

theorem Transfer.apply_succ (hX : X.Plain g) (name : String) (shape : Shape) (tree : Tree)
    (loc : Option Loc) (asName : Option String) :
    Refines ((X.withLimit m₁).apply (f + 1) d₁ rec name shape tree loc asName)
      ((X.withLimit m₂).apply (f' + 1) d₂ rec name shape tree loc asName) := by
  cases hmac : X.bindings.get? name with
  | none =>
    rw [apply_succ_of_unbound (X := X.withLimit m₁) f d₁ name shape tree loc asName rec hmac]
    exact .of_throw _ _
  | some mac =>
    by_cases hd : m₁.all (d₁ < ·)
    · rw [apply_succ_of_bound (X := X.withLimit m₁) f d₁ name shape tree loc asName rec hmac hd,
        apply_succ_of_bound (X := X.withLimit m₂) f' d₂ name shape tree loc asName rec hmac
          (hb.now hd)]
      simp only [withLimit_invoke, hX.invoke_eq]
      refine .bind (.ofExcept _) fun r => ?_
      cases r with
      | none => exact .pure _
      | some t =>
        cases rec with
        | false => exact .pure _
        | true => exact (ih.tree f' (d₁ + 1) (d₂ + 1) true _ hf hb.deeper).map some
    · -- the first run stops at the bound before calling the macro
      obtain ⟨e, he, -⟩ :=
        apply_succ_at_limit (X := X.withLimit m₁) f d₁ name shape tree loc asName rec hmac hd
      rw [he]
      exact .of_throw _ _

theorem Transfer.name_succ (e : Expr) (name : String) :
    Refines ((X.withLimit m₁).expandName (f + 1) d₁ rec e name)
      ((X.withLimit m₂).expandName (f' + 1) d₂ rec e name) := by
  simp only [expandName]
  refine (ih.apply f' d₁ d₂ false name .name (.expr e) e.loc none hf hb.once).bind
    fun r => .bind (Refines.toExpr name r e.loc) fun new => ?_
  cases rec with
  | false => exact .pure _
  | true =>
    have hnew := ih.expr f' (d₁ + 1) (d₂ + 1) true new hf hb.deeper
    simp only [Bool.not_true, Bool.false_eq_true, ↓reduceIte]
    obtain ⟨k, l⟩ := new
    cases k with
    | name n =>
      by_cases hn : n = name
      · simp only [hn, ↓reduceIte]
        exact .pure _
      · simpa only [hn, ↓reduceIte] using hnew
    | _ => exact hnew

theorem Transfer.expr_succ (e : Expr) :
    Refines ((X.withLimit m₁).visitExpr (f + 1) d₁ rec e)
      ((X.withLimit m₂).visitExpr (f' + 1) d₂ rec e) := by
  have hb' := hb.of_succ
  obtain ⟨k, l⟩ := e
  cases k with
  | done inner =>
    simp only [visitExpr]
    exact .pure _
  | name n =>
    cases hn : nameInvocation? X.bindings X.isNameMacro (.mk (.name n) l) with
    | none =>
      simp only [visitExpr, withLimit_bindings, withLimit_isNameMacro, hn, exprInvocation?]
      exact .pure _
    | some name =>
      simp only [visitExpr, withLimit_bindings, withLimit_isNameMacro, hn, exprInvocation?]
      exact ih.name f' d₁ d₂ rec _ name hf hb'
  | const c =>
    simp only [visitExpr, exprInvocation?, nameInvocation?]
    exact .pure _
  | binOp op a c =>
    simp only [visitExpr, exprInvocation?, nameInvocation?]
    exact (ih.expr f' d₁ d₂ rec a hf hb').bind fun _ =>
      (ih.expr f' d₁ d₂ rec c hf hb').bind fun _ => .pure _
  | unaryOp op a =>
    simp only [visitExpr, exprInvocation?, nameInvocation?]
    exact (ih.expr f' d₁ d₂ rec a hf hb').bind fun _ => .pure _
  | call fn args =>
    simp only [visitExpr, exprInvocation?, nameInvocation?]
    exact (ih.expr f' d₁ d₂ rec fn hf hb').bind fun _ =>
      (ih.exprs f' d₁ d₂ rec args hf hb').bind fun _ => .pure _
  | «attribute» v a =>
    simp only [visitExpr, exprInvocation?, nameInvocation?]
    exact (ih.expr f' d₁ d₂ rec v hf hb').bind fun _ => .pure _
  | subscript v i =>
    cases hx : exprInvocation? X.bindings (.mk (.subscript v i) l) with
    | some name =>
      simp only [visitExpr, withLimit_bindings, hx]
      exact (ih.apply f' d₁ d₂ rec name .expr (.expr i) l none hf hb').bind fun r =>
        Refines.toExpr name r l
    | none =>
      cases hv : v.asName? with
      | none =>
        rw [visitExpr_subscript_of_asName d₁ rec f v i l hv,
          visitExpr_subscript_of_asName d₂ rec f' v i l hv]
        exact (ih.expr f' d₁ d₂ rec v hf hb').bind fun _ =>
          (ih.expr f' d₁ d₂ rec i hf hb').bind fun _ => .pure _
      | some _ =>
        obtain ⟨vk, vl⟩ := v
        cases vk with
        | name n =>
          simp only [visitExpr, withLimit_bindings, hx, nameInvocation?]
          exact (ih.expr f' d₁ d₂ rec i hf hb').bind fun _ => .pure _
        | _ => simp [Expr.asName?] at hv
  | list items =>
    simp only [visitExpr, exprInvocation?, nameInvocation?]
    exact (ih.exprs f' d₁ d₂ rec items hf hb').bind fun _ => .pure _
  | tuple items =>
    simp only [visitExpr, exprInvocation?, nameInvocation?]
    exact (ih.exprs f' d₁ d₂ rec items hf hb').bind fun _ => .pure _
  | lambda ps body =>
    simp only [visitExpr, exprInvocation?, nameInvocation?]
    exact (ih.expr f' d₁ d₂ rec body hf hb').bind fun _ => .pure _
  | ifExp t body o =>
    simp only [visitExpr, exprInvocation?, nameInvocation?]
    exact (ih.expr f' d₁ d₂ rec t hf hb').bind fun _ =>
      (ih.expr f' d₁ d₂ rec body hf hb').bind fun _ =>
      (ih.expr f' d₁ d₂ rec o hf hb').bind fun _ => .pure _

theorem Transfer.exprs_succ (es : List Expr) :
    Refines ((X.withLimit m₁).visitExprs (f + 1) d₁ rec es)
      ((X.withLimit m₂).visitExprs (f' + 1) d₂ rec es) := by
  induction es with
  | nil =>
    rw [visitExprs_nil, visitExprs_nil]
    exact .pure _
  | cons e es ihs =>
    rw [visitExprs_cons, visitExprs_cons]
    exact (ih.expr f' d₁ d₂ rec e hf hb.of_succ).bind fun _ => ihs.bind fun _ => .pure _

theorem Transfer.opt_succ (o : Option Expr) :
    Refines ((X.withLimit m₁).visitOpt (f + 1) d₁ rec o)
      ((X.withLimit m₂).visitOpt (f' + 1) d₂ rec o) := by
  cases o with
  | none =>
    rw [visitOpt_none, visitOpt_none]
    exact .pure _
  | some e =>
    rw [visitOpt_some, visitOpt_some]
    exact (ih.expr f' d₁ d₂ rec e hf hb.of_succ).map some

theorem Transfer.decorated_succ (s : Stmt) :
    Refines ((X.withLimit m₁).expandDecorated (f + 1) d₁ rec s)
      ((X.withLimit m₂).expandDecorated (f' + 1) d₂ rec s) := by
  obtain ⟨k, l⟩ := s
  rw [expandDecorated_succ_eq, expandDecorated_succ_eq]
  refine .bind (.forIn _ _ fun name _ current => ?_) fun _ => .pure _
  cases current with
  | none => exact .pure _
  | some t =>
    exact (ih.apply f' d₁ d₂ rec name .decorator t l none hf hb.of_succ).bind fun _ => .pure _

theorem Transfer.stmt_succ (s : Stmt) :
    Refines ((X.withLimit m₁).visitStmt (f + 1) d₁ rec s)
      ((X.withLimit m₂).visitStmt (f' + 1) d₂ rec s) := by
  have hb' := hb.of_succ
  obtain ⟨k, l⟩ := s
  cases k with
  | done ss =>
    simp only [visitStmt]
    exact .pure _
  | withBlock item a body =>
    cases hbl : blockInvocation? X.bindings (.mk (.withBlock item a body) l) with
    | some name =>
      simp only [visitStmt, withLimit_bindings, hbl]
      exact (ih.apply f' d₁ d₂ rec name .block (.stmts body) l a hf hb').bind fun _ => .pure _
    | none =>
      simp only [visitStmt, withLimit_bindings, hbl, decoratorInvocations, List.isEmpty_nil]
      exact (ih.expr f' d₁ d₂ rec item hf hb').bind fun _ =>
        (ih.body f' d₁ d₂ rec body hf hb').bind fun _ => .pure _
  | functionDef n ps body ds =>
    by_cases hdec : decoratorInvocations X.bindings (.mk (.functionDef n ps body ds) l) = []
    · simp only [visitStmt, withLimit_bindings, blockInvocation?, hdec, List.isEmpty_nil]
      exact (ih.exprs f' d₁ d₂ rec ds hf hb').bind fun _ =>
        (ih.body f' d₁ d₂ rec body hf hb').bind fun _ => .pure _
    · have hne : (!(decoratorInvocations X.bindings
          (.mk (.functionDef n ps body ds) l)).isEmpty) = true := by
        simpa [List.isEmpty_iff] using hdec
      simp only [visitStmt, withLimit_bindings, blockInvocation?, hne, ↓reduceIte]
      exact ih.decorated f' d₁ d₂ rec _ hf hb'
  | classDef n body ds =>
    by_cases hdec : decoratorInvocations X.bindings (.mk (.classDef n body ds) l) = []
    · simp only [visitStmt, withLimit_bindings, blockInvocation?, hdec, List.isEmpty_nil]
      exact (ih.exprs f' d₁ d₂ rec ds hf hb').bind fun _ =>
        (ih.body f' d₁ d₂ rec body hf hb').bind fun _ => .pure _
    · have hne : (!(decoratorInvocations X.bindings (.mk (.classDef n body ds) l)).isEmpty) = true := by
        simpa [List.isEmpty_iff] using hdec
      simp only [visitStmt, withLimit_bindings, blockInvocation?, hne, ↓reduceIte]
      exact ih.decorated f' d₁ d₂ rec _ hf hb'
  | expr v =>
    simp only [visitStmt, blockInvocation?, decoratorInvocations, List.isEmpty_nil]
    exact (ih.expr f' d₁ d₂ rec v hf hb').bind fun _ => .pure _
  | assign t v =>
    simp only [visitStmt, blockInvocation?, decoratorInvocations, List.isEmpty_nil]
    exact (ih.expr f' d₁ d₂ rec t hf hb').bind fun _ =>
      (ih.expr f' d₁ d₂ rec v hf hb').bind fun _ => .pure _
  | ret v =>
    simp only [visitStmt, blockInvocation?, decoratorInvocations, List.isEmpty_nil]
    exact (ih.opt f' d₁ d₂ rec v hf hb').bind fun _ => .pure _
  | ifElse t body o =>
    simp only [visitStmt, blockInvocation?, decoratorInvocations, List.isEmpty_nil]
    exact (ih.expr f' d₁ d₂ rec t hf hb').bind fun _ =>
      (ih.body f' d₁ d₂ rec body hf hb').bind fun _ =>
      (ih.body f' d₁ d₂ rec o hf hb').bind fun _ => .pure _
  | whileLoop t body =>
    simp only [visitStmt, blockInvocation?, decoratorInvocations, List.isEmpty_nil]
    exact (ih.expr f' d₁ d₂ rec t hf hb').bind fun _ =>
      (ih.body f' d₁ d₂ rec body hf hb').bind fun _ => .pure _
  | forLoop x i body =>
    simp only [visitStmt, blockInvocation?, decoratorInvocations, List.isEmpty_nil]
    exact (ih.expr f' d₁ d₂ rec i hf hb').bind fun _ =>
      (ih.body f' d₁ d₂ rec body hf hb').bind fun _ => .pure _
  | assertion t m =>
    simp only [visitStmt, blockInvocation?, decoratorInvocations, List.isEmpty_nil]
    exact (ih.expr f' d₁ d₂ rec t hf hb').bind fun _ =>
      (ih.opt f' d₁ d₂ rec m hf hb').bind fun _ => .pure _
  | importModule _ _ | importFrom _ _ _ | pass | breakLoop | continueLoop =>
    simp only [visitStmt, blockInvocation?, decoratorInvocations, List.isEmpty_nil]
    exact .pure _

theorem Transfer.body_succ (ss : List Stmt) :
    Refines ((X.withLimit m₁).visitBody (f + 1) d₁ rec ss)
      ((X.withLimit m₂).visitBody (f' + 1) d₂ rec ss) := by
  induction ss with
  | nil =>
    rw [visitBody_nil, visitBody_nil]
    exact .pure _
  | cons s ss ihs =>
    rw [visitBody_cons, visitBody_cons]
    exact (ih.stmt f' d₁ d₂ rec s hf hb.of_succ).bind fun _ => ihs.bind fun _ => .pure _

theorem Transfer.tree_succ (t : Tree) :
    Refines ((X.withLimit m₁).visitTree (f + 1) d₁ rec t)
      ((X.withLimit m₂).visitTree (f' + 1) d₂ rec t) := by
  cases t with
  | expr e =>
    simp only [visitTree]
    exact (ih.expr f' d₁ d₂ rec e hf hb.of_succ).map _
  | stmts ss =>
    simp only [visitTree]
    exact (ih.body f' d₁ d₂ rec ss hf hb.of_succ).map _

end Succ

/-- At every fuel, more fuel and room give back what the walk gave. -/
theorem transfer (hX : X.Plain g) (m₁ m₂ : Option Nat) : ∀ f, Transfer X m₁ m₂ f
  | 0 => transfer_zero
  | f + 1 =>
    have ih := transfer hX m₁ m₂ f
    -- each function at `f + 1` is compared with the same function at some `f' + 1`
    have succ {P : Nat → Prop} (h : ∀ f', f ≤ f' → P (f' + 1)) : ∀ f', f + 1 ≤ f' → P f' :=
      fun f' hf => by
        obtain ⟨f', rfl⟩ : ∃ f'', f' = f'' + 1 := ⟨f' - 1, by omega⟩
        exact h f' (by omega)
    { expr := fun f' d₁ d₂ rec e hf hb =>
        succ (P := fun f' => Refines _ ((X.withLimit m₂).visitExpr f' d₂ rec e))
          (fun f' hf' => ih.expr_succ f' d₁ d₂ rec hf' hb e) f' hf
      exprs := fun f' d₁ d₂ rec es hf hb =>
        succ (P := fun f' => Refines _ ((X.withLimit m₂).visitExprs f' d₂ rec es))
          (fun f' hf' => ih.exprs_succ f' d₁ d₂ rec hf' hb es) f' hf
      opt := fun f' d₁ d₂ rec o hf hb =>
        succ (P := fun f' => Refines _ ((X.withLimit m₂).visitOpt f' d₂ rec o))
          (fun f' hf' => ih.opt_succ f' d₁ d₂ rec hf' hb o) f' hf
      stmt := fun f' d₁ d₂ rec s hf hb =>
        succ (P := fun f' => Refines _ ((X.withLimit m₂).visitStmt f' d₂ rec s))
          (fun f' hf' => ih.stmt_succ f' d₁ d₂ rec hf' hb s) f' hf
      body := fun f' d₁ d₂ rec ss hf hb =>
        succ (P := fun f' => Refines _ ((X.withLimit m₂).visitBody f' d₂ rec ss))
          (fun f' hf' => ih.body_succ f' d₁ d₂ rec hf' hb ss) f' hf
      tree := fun f' d₁ d₂ rec t hf hb =>
        succ (P := fun f' => Refines _ ((X.withLimit m₂).visitTree f' d₂ rec t))
          (fun f' hf' => ih.tree_succ f' d₁ d₂ rec hf' hb t) f' hf
      apply := fun f' d₁ d₂ rec name shape tree loc asName hf hb =>
        succ (P := fun f' => Refines _
            ((X.withLimit m₂).apply f' d₂ rec name shape tree loc asName))
          (fun f' hf' => ih.apply_succ f' d₁ d₂ rec hf' hb hX name shape tree loc asName) f' hf
      name := fun f' d₁ d₂ rec e name hf hb =>
        succ (P := fun f' => Refines _ ((X.withLimit m₂).expandName f' d₂ rec e name))
          (fun f' hf' => ih.name_succ f' d₁ d₂ rec hf' hb e name) f' hf
      decorated := fun f' d₁ d₂ rec s hf hb =>
        succ (P := fun f' => Refines _ ((X.withLimit m₂).expandDecorated f' d₂ rec s))
          (fun f' hf' => ih.decorated_succ f' d₁ d₂ rec hf' hb s) f' hf }

end Transfer

/-! ## Runs of one application -/

section Runs
variable {α β : Type} {s s' s'' : σ}

theorem run_bind_ok {x : EStateM Error σ β} {k : β → EStateM Error σ α} {a : α}
    (h : (x >>= k).run s = .ok a s'') : ∃ b s', x.run s = .ok b s' ∧ (k b).run s' = .ok a s'' := by
  rw [EStateM.run_bind] at h
  split at h
  · rename_i b s₁ hb
    exact ⟨b, s₁, hb, h⟩
  · cases h

theorem run_bind_of_ok {x : EStateM Error σ β} {k : β → EStateM Error σ α} {a : α} {b : β}
    (h₁ : x.run s = .ok b s') (h₂ : (k b).run s' = .ok a s'') : (x >>= k).run s = .ok a s'' := by
  rw [EStateM.run_bind, h₁]
  exact h₂

theorem run_map_ok {x : EStateM Error σ β} {g : β → α} {a : α} (h : (g <$> x).run s = .ok a s') :
    ∃ b, x.run s = .ok b s' ∧ a = g b := by
  rw [← bind_pure_comp] at h
  obtain ⟨b, s₁, hb, h⟩ := run_bind_ok h
  cases h
  exact ⟨b, hb, rfl⟩

theorem run_map_of_ok {x : EStateM Error σ β} {g : β → α} {b : β} (h : x.run s = .ok b s') :
    (g <$> x).run s = .ok (g b) s' := by
  rw [← bind_pure_comp]
  exact run_bind_of_ok h rfl

variable {Y : Expander (EStateM Error σ) Mac}
  {g : String → Shape → Tree → Option String → Option Loc → Except Error (Option Tree)}
  {f d : Nat} {name : String} {shape : Shape} {tree : Tree} {loc : Option Loc}
  {asName : Option String}

/-- What a successful recursive application did: the name is bound, the depth is below the
bound, the macro gave a result, and a tree it gave was filled and expanded one level deeper. -/
theorem apply_run_rec (hY : Y.Plain g) {res : Option Tree}
    (h : (Y.apply (f + 1) d true name shape tree loc asName).run s = .ok res s') :
    (∃ mac, Y.bindings.get? name = some mac) ∧ Y.maxDepth.all (d < ·) ∧
      ∃ r, g name shape tree asName loc = .ok r ∧
        (r = none → res = none ∧ s' = s) ∧
        ∀ t, r = some t → ∃ t', (Y.visitTree f (d + 1) true (t.fillLocs loc)).run s = .ok t' s' ∧
          res = some t' := by
  cases hmac : Y.bindings.get? name with
  | none =>
    rw [apply_succ_of_unbound f d name shape tree loc asName true hmac] at h
    cases h
  | some mac =>
    by_cases hd : Y.maxDepth.all (d < ·)
    · rw [apply_succ_of_bound f d name shape tree loc asName true hmac hd, hY.invoke_eq] at h
      obtain ⟨r, s₁, hr, h⟩ := run_bind_ok h
      cases hg : g name shape tree asName loc with
      | error e =>
        simp only [invocation, hg, ofExcept_run_error] at hr
        cases hr
      | ok r' =>
        simp only [invocation, hg, ofExcept_run_ok, EStateM.Result.ok.injEq] at hr
        obtain ⟨rfl, rfl⟩ := hr
        refine ⟨⟨mac, rfl⟩, hd, r', rfl, fun hr => ?_, fun t ht => ?_⟩
        · subst hr
          cases h
          exact ⟨rfl, rfl⟩
        · subst ht
          obtain ⟨t', ht', rfl⟩ := run_map_ok h
          exact ⟨t', ht', rfl⟩
    · obtain ⟨e, he, -⟩ := apply_succ_at_limit f d name shape tree loc asName true hmac hd
      rw [he] at h
      cases h

/-- What a successful one-layer application did: the name is bound, the depth is below the
bound, and the macro gave the result, which comes back filled. -/
theorem apply_run_once_ok (hY : Y.Plain g) {res : Option Tree}
    (h : (Y.apply (f + 1) d false name shape tree loc asName).run s = .ok res s') :
    (∃ mac, Y.bindings.get? name = some mac) ∧ Y.maxDepth.all (d < ·) ∧
      ∃ r, g name shape tree asName loc = .ok r ∧ res = r.map (·.fillLocs loc) ∧ s' = s := by
  cases hmac : Y.bindings.get? name with
  | none =>
    rw [apply_succ_of_unbound f d name shape tree loc asName false hmac] at h
    cases h
  | some mac =>
    by_cases hd : Y.maxDepth.all (d < ·)
    · rw [apply_succ_of_bound f d name shape tree loc asName false hmac hd, hY.invoke_eq] at h
      obtain ⟨r, s₁, hr, h⟩ := run_bind_ok h
      cases hg : g name shape tree asName loc with
      | error e =>
        simp only [invocation, hg, ofExcept_run_error] at hr
        cases hr
      | ok r' =>
        simp only [invocation, hg, ofExcept_run_ok, EStateM.Result.ok.injEq] at hr
        obtain ⟨rfl, rfl⟩ := hr
        refine ⟨⟨mac, rfl⟩, hd, r', rfl, ?_⟩
        cases r' <;> (cases h; exact ⟨rfl, rfl⟩)
    · obtain ⟨e, he, -⟩ := apply_succ_at_limit f d name shape tree loc asName false hmac hd
      rw [he] at h
      cases h

/-- A one-layer application of a bound macro below the bound gives the macro's result, filled. -/
theorem apply_run_once (hY : Y.Plain g) {mac : Mac} {r : Option Tree}
    (hmac : Y.bindings.get? name = some mac) (hd : Y.maxDepth.all (d < ·))
    (hg : g name shape tree asName loc = .ok r) :
    (Y.apply (f + 1) d false name shape tree loc asName).run s =
      .ok (r.map (·.fillLocs loc)) s := by
  rw [apply_succ_of_bound f d name shape tree loc asName false hmac hd, hY.invoke_eq]
  simp only [invocation, hg]
  cases r <;> rfl

theorem toExpr_run_ok {r : Option Tree} {e : Expr} (h : (Y.toExpr name r loc).run s = .ok e s') :
    ∃ t, r = some t ∧ t.toExpr? = some e ∧ s' = s := by
  rcases r with _ | t
  · cases h
  · cases ht : t.toExpr? with
    | none =>
      simp only [Expander.toExpr, ht] at h
      cases h
    | some e' =>
      simp only [Expander.toExpr, ht] at h
      cases h
      exact ⟨t, rfl, ht, rfl⟩

theorem toExpr_run_of {t : Tree} {e : Expr} (ht : t.toExpr? = some e) :
    (Y.toExpr name (some t) loc).run s = .ok e s := by
  simp only [Expander.toExpr, ht]
  rfl

variable {rec : Bool}

/-- Expanding a tree with an expression view expands that expression, with less fuel. -/
theorem visitTree_toExpr_run {t t' : Tree} {x : Expr}
    (h : (Y.visitTree f d rec t).run s = .ok t' s') (hx : t.toExpr? = some x) :
    ∃ f₀ < f, ∃ x', (Y.visitExpr f₀ d rec x).run s = .ok x' s' ∧ t'.toExpr? = some x' := by
  cases f with
  | zero =>
    simp only [visitTree] at h
    cases h
  | succ f =>
    unfold Tree.toExpr? at hx
    split at hx
    · cases hx
      simp only [visitTree] at h
      obtain ⟨x', hx', rfl⟩ := run_map_ok h
      exact ⟨f, by omega, x', hx', rfl⟩
    · rename_i l
      cases hx
      simp only [visitTree] at h
      obtain ⟨ss', hss, rfl⟩ := run_map_ok h
      -- a lone expression statement stays one
      cases f with
      | zero =>
        simp only [visitBody] at hss
        cases hss
      | succ f =>
        rw [visitBody_cons, visitBody_nil] at hss
        obtain ⟨r, s₁, hr, hss⟩ := run_bind_ok hss
        obtain ⟨rs, s₂, hrs, hss⟩ := run_bind_ok hss
        cases hrs
        cases hss
        cases f with
        | zero =>
          simp only [visitStmt] at hr
          cases hr
        | succ f =>
          simp only [visitStmt, blockInvocation?, decoratorInvocations, List.isEmpty_nil] at hr
          obtain ⟨v', s₃, hv, hr⟩ := run_bind_ok hr
          cases hr
          exact ⟨f, by omega, v', hv, by simp [Tree.toExpr?]⟩
    · cases hx

/-- A node that invokes nothing keeps its location. -/
theorem visitExpr_loc_run {e e' : Expr} (h : (Y.visitExpr f d rec e).run s = .ok e' s')
    (hx : exprInvocation? Y.bindings e = none)
    (hn : nameInvocation? Y.bindings Y.isNameMacro e = none) : e'.loc = e.loc := by
  cases f with
  | zero =>
    simp only [visitExpr] at h
    cases h
  | succ f =>
    obtain ⟨k, l⟩ := e
    cases k with
    | done inner =>
      simp only [visitExpr] at h
      cases h
      rfl
    | name n =>
      simp only [visitExpr, hn, exprInvocation?] at h
      cases h
      rfl
    | subscript v i =>
      cases hv : v.asName? with
      | none =>
        rw [visitExpr_subscript_of_asName d rec f v i l hv] at h
        repeat (obtain ⟨_, _, _, h⟩ := run_bind_ok h)
        cases h
        rfl
      | some _ =>
        obtain ⟨vk, vl⟩ := v
        cases vk with
        | name n =>
          simp only [visitExpr, hx, nameInvocation?] at h
          repeat (obtain ⟨_, _, _, h⟩ := run_bind_ok h)
          cases h
          rfl
        | _ => simp [Expr.asName?] at hv
    | _ =>
      simp only [visitExpr, exprInvocation?, nameInvocation?] at h
      repeat (obtain ⟨_, _, _, h⟩ := run_bind_ok h)
      cases h
      rfl

/-- A bare name that nothing binds stays as it is. -/
theorem visitExpr_unbound_run {n : String} {l : Option Loc} {e' : Expr}
    (hb : Y.bindings.isBound n = false)
    (h : (Y.visitExpr f d rec (.mk (.name n) l)).run s = .ok e' s') :
    e' = .mk (.name n) l ∧ s' = s := by
  cases f with
  | zero =>
    simp only [visitExpr] at h
    cases h
  | succ f =>
    have hn : nameInvocation? Y.bindings Y.isNameMacro (.mk (.name n) l) = none := by
      cases hg : Y.bindings.get? n with
      | none => simp [nameInvocation?, hg]
      | some mac =>
        have := (Bindings.isBound_iff_get? Y.bindings).mpr ⟨mac, hg⟩
        simp_all
    simp only [visitExpr, hn, exprInvocation?] at h
    cases h
    exact ⟨rfl, rfl⟩

/-- A definition with macro decorators is expanded as a chain of decorator applications. -/
theorem visitStmt_of_decorated {k : StmtKind} {l : Option Loc}
    (hdec : decoratorInvocations Y.bindings (.mk k l) ≠ []) :
    Y.visitStmt (f + 1) d rec (.mk k l) = Y.expandDecorated f d rec (.mk k l) := by
  have hne : (!(decoratorInvocations Y.bindings (.mk k l)).isEmpty) = true := by
    simpa [List.isEmpty_iff] using hdec
  cases k with
  | functionDef n ps body ds => simp only [visitStmt, blockInvocation?, hne, ↓reduceIte]
  | classDef n body ds => simp only [visitStmt, blockInvocation?, hne, ↓reduceIte]
  | _ => simp [decoratorInvocations] at hdec

theorem visitBody_singleton_run {st : Stmt} {r : List Stmt}
    (h : (Y.visitStmt f d rec st).run s = .ok r s') :
    (Y.visitBody (f + 1) d rec [st]).run s = .ok r s' := by
  rw [visitBody_cons, visitBody_nil]
  exact run_bind_of_ok h (run_bind_of_ok rfl (by simp))

theorem visitBody_append_run {xs ys xs' ys' : List Stmt}
    (h₁ : (Y.visitBody (f + 1) d rec xs).run s = .ok xs' s')
    (h₂ : (Y.visitBody (f + 1) d rec ys).run s' = .ok ys' s'') :
    (Y.visitBody (f + 1) d rec (xs ++ ys)).run s = .ok (xs' ++ ys') s'' := by
  induction xs generalizing xs' s with
  | nil =>
    rw [visitBody_nil] at h₁
    cases h₁
    simpa using h₂
  | cons x xs ih =>
    rw [visitBody_cons] at h₁
    obtain ⟨r, s₁, hr, h₁⟩ := run_bind_ok h₁
    obtain ⟨rs, s₂, hrs, h₁⟩ := run_bind_ok h₁
    cases h₁
    rw [List.cons_append, visitBody_cons]
    exact run_bind_of_ok hr (run_bind_of_ok (ih hrs) (by simp [List.append_assoc]))

end Runs

end Expander

end Espalier
