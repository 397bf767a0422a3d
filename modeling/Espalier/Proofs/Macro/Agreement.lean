import Espalier.Macro.Expander
import Espalier.Proofs.Macro.Inventory

/-!
# The expander calls exactly what the inventory lists

`Tree.collect` is a read-only walk written apart from the expander; this module proves the
two agree, for every binding table, every macro behaviour and every tree.

* A tree whose inventory is empty is left as it is: the expander's run on it is `pure t`,
  in recursive and in one-layer mode, so no macro can be called (`visitTree_of_collect_nil`).
* A tree whose inventory is not empty starts by applying a macro of the inventory
  (`visitTree_starts_with_apply`). Below its depth limit the expander then calls that
  macro; at the limit it fails before calling anything.
* In one-layer mode every application the walk itself makes is of a pair of the inventory
  (`visitTree_once_appliesOnly`); calls a macro makes through the expander it is handed
  happen inside that application and are not the walk's.

Macros are arbitrary: the expander is taken over `EStateM Error σ` for any state `σ`, with
any `invoke`. Runs are compared as computations, so `pure t` means no effect at all. Fuel
bounds the nesting of the walk; any fuel above the tree's size is enough.

The walk's loops are first put in recursive form: `visitExprs`, `visitBody` and the
decorator chain of `expandDecorated` each get a `cons` equation.
-/

namespace Espalier.Expander

variable {σ Mac : Type} (X : Expander (EStateM Error σ) Mac)

/-! ## The walk's loops in recursive form -/

section Unfold
variable (f d : Nat) (rec : Bool)

@[simp] theorem throw_bind {α β : Type} (e : Error) (k : β → EStateM Error σ α) :
    (throw e : EStateM Error σ β) >>= k = throw e := rfl

@[simp] theorem visitExprs_nil : X.visitExprs (f + 1) d rec [] = pure [] := by
  simp [visitExprs]

theorem visitExprs_cons (e : Expr) (es : List Expr) :
    X.visitExprs (f + 1) d rec (e :: es) = (do
      let e' ← X.visitExpr f d rec e
      let es' ← X.visitExprs (f + 1) d rec es
      pure (e' :: es')) := by
  simp [visitExprs, List.mapM_cons]

@[simp] theorem visitOpt_none : X.visitOpt (f + 1) d rec none = pure none := by
  simp [visitOpt]

theorem visitOpt_some (e : Expr) :
    X.visitOpt (f + 1) d rec (some e) = some <$> X.visitExpr f d rec e := by
  simp [visitOpt]

/-- The loop of `visitBody` from an accumulator `acc`: the statements produced so far are
kept in front of the rest. -/
private theorem bodyLoop_acc (acc : List Stmt) (ss : List Stmt) :
    forIn ss acc (fun s (out : List Stmt) => do
        let r ← X.visitStmt f d rec s
        pure (ForInStep.yield (out ++ r))) =
      (acc ++ ·) <$> forIn ss [] (fun s (out : List Stmt) => do
        let r ← X.visitStmt f d rec s
        pure (ForInStep.yield (out ++ r))) := by
  induction ss generalizing acc with
  | nil => simp
  | cons s ss ih =>
    simp only [List.forIn_cons, bind_assoc, pure_bind, map_bind, List.nil_append]
    congr 1
    funext r
    rw [ih (acc ++ r), ih r, Functor.map_map]
    simp [List.append_assoc]

@[simp] theorem visitBody_nil : X.visitBody (f + 1) d rec [] = pure [] := by
  simp [visitBody]

theorem visitBody_cons (s : Stmt) (ss : List Stmt) :
    X.visitBody (f + 1) d rec (s :: ss) = (do
      let r ← X.visitStmt f d rec s
      let rs ← X.visitBody (f + 1) d rec ss
      pure (r ++ rs)) := by
  simp only [visitBody, List.forIn_cons, bind_assoc, pure_bind, List.nil_append]
  congr 1
  funext r
  rw [bodyLoop_acc, bind_pure, ← bind_pure_comp]

end Unfold

/-! ## Which macros a run calls -/

/-- The only macro calls of the computation are of pairs of `S`: it is built from `pure`,
`throw` and calls of `invoke` on such pairs, by binds. What a macro does inside its call,
through the expander it is handed, belongs to that call. -/
inductive CallsOnly (S : String × Shape → Prop) : {α : Type} → EStateM Error σ α → Prop where
  | pure {α : Type} (a : α) : CallsOnly S (Pure.pure a)
  | throw {α : Type} (e : Error) : CallsOnly S (MonadExcept.throw e : EStateM Error σ α)
  | invoke (inv : Invocation (EStateM Error σ) Mac) :
      S (inv.name, inv.shape) → CallsOnly S (X.invoke inv)
  | bind {α β : Type} (x : EStateM Error σ β) (k : β → EStateM Error σ α) :
      CallsOnly S x → (∀ b, CallsOnly S (k b)) → CallsOnly S (x >>= k)

variable {X}

theorem CallsOnly.mono {S S' : String × Shape → Prop} (hS : ∀ p, S p → S' p) {α : Type}
    {x : EStateM Error σ α} (h : X.CallsOnly S x) : X.CallsOnly S' x := by
  induction h with
  | pure a => exact .pure a
  | throw e => exact .throw e
  | invoke inv hinv => exact .invoke inv (hS _ hinv)
  | bind x k _ _ ihx ihk => exact .bind x k ihx ihk

/-- A loop calls only what its body calls. -/
theorem CallsOnly.forIn {S : String × Shape → Prop} {α β : Type} (xs : List α) (init : β)
    (body : α → β → EStateM Error σ (ForInStep β))
    (h : ∀ x ∈ xs, ∀ b, X.CallsOnly S (body x b)) : X.CallsOnly S (forIn xs init body) := by
  induction xs generalizing init with
  | nil => exact .pure init
  | cons x xs ih =>
    rw [List.forIn_cons]
    refine .bind _ _ (h x List.mem_cons_self init) fun step => ?_
    cases step with
    | done b => exact .pure b
    | yield b => exact ih b fun y hy => h y (List.mem_cons_of_mem x hy)

variable (X)

/-- The invocation an application hands to its macro. -/
def invocation (f d : Nat) (rec : Bool) (name : String) (mac : Mac) (shape : Shape) (tree : Tree)
    (loc : Option Loc) (asName : Option String) : Invocation (EStateM Error σ) Mac :=
  { name, mac, shape, tree, asName, loc, filename := X.filename, bindings := X.bindings,
    recursive := rec,
    expand := fun t => X.visitTree f (d + 1) true t,
    expandOnce := fun t => X.visitTree f (d + 1) false t }

/-- The first thing the computation does is to apply a macro of `S`, at depth `d`. -/
def StartsWithApply (d : Nat) (S : String × Shape → Prop) {α : Type} (x : EStateM Error σ α) :
    Prop :=
  ∃ f rec name shape tree loc asName, ∃ k : Option Tree → EStateM Error σ α,
    x = X.apply (f + 1) d rec name shape tree loc asName >>= k ∧ S (name, shape)

/-- How a run of the walk behaves on a tree with inventory `l`, which the walk would give back
as `a` if it found nothing: with an empty inventory the run is `pure a`; otherwise it starts
by applying a macro of the inventory; and in one-layer mode it calls no other macro. -/
structure Agrees (d : Nat) (rec : Bool) (l : List (String × Shape)) {α : Type}
    (x : EStateM Error σ α) (a : α) : Prop where
  clean : l = [] → x = pure a
  starts : l ≠ [] → X.StartsWithApply d (· ∈ l) x
  callsOnly : rec = false → X.CallsOnly (· ∈ l) x

variable {X}

section Agrees
variable {d : Nat} {rec : Bool} {α β : Type}

theorem StartsWithApply.mono {S S' : String × Shape → Prop} (hS : ∀ p, S p → S' p)
    {x : EStateM Error σ α} (h : X.StartsWithApply d S x) : X.StartsWithApply d S' x := by
  obtain ⟨f, rec, name, shape, tree, loc, asName, k, rfl, hS'⟩ := h
  exact ⟨f, rec, name, shape, tree, loc, asName, k, rfl, hS _ hS'⟩

theorem StartsWithApply.bind {S : String × Shape → Prop} {x : EStateM Error σ β}
    (h : X.StartsWithApply d S x) (k : β → EStateM Error σ α) : X.StartsWithApply d S (x >>= k) := by
  obtain ⟨f, rec, name, shape, tree, loc, asName, k', rfl, hS⟩ := h
  exact ⟨f, rec, name, shape, tree, loc, asName, fun r => k' r >>= k, bind_assoc .., hS⟩

theorem Agrees.pure (a : α) : X.Agrees d rec [] (Pure.pure a : EStateM Error σ α) a where
  clean _ := rfl
  starts h := absurd rfl h
  callsOnly _ := .pure a

/-- Runs in sequence: the inventories are joined, and the value the second run would give
back is taken at the value of the first. -/
theorem Agrees.bind {l₁ l₂ : List (String × Shape)} {x : EStateM Error σ β}
    {k : β → EStateM Error σ α} {a : β} {g : β → α}
    (hx : X.Agrees d rec l₁ x a) (hk : ∀ b, X.Agrees d rec l₂ (k b) (g b)) :
    X.Agrees d rec (l₁ ++ l₂) (x >>= k) (g a) where
  clean h := by
    obtain ⟨h₁, h₂⟩ := List.append_eq_nil_iff.mp h
    rw [hx.clean h₁, pure_bind, (hk a).clean h₂]
  starts h := by
    by_cases h₁ : l₁ = []
    · -- nothing happens before the second run
      have h₂ : l₂ ≠ [] := by simpa [h₁] using h
      rw [hx.clean h₁, pure_bind]
      exact ((hk a).starts h₂).mono fun _ hp => List.mem_append_right l₁ hp
    · exact ((hx.starts h₁).bind k).mono fun _ hp => List.mem_append_left l₂ hp
  callsOnly h :=
    .bind x k ((hx.callsOnly h).mono fun _ hp => List.mem_append_left l₂ hp)
      fun b => ((hk b).callsOnly h).mono fun _ hp => List.mem_append_right l₁ hp

/-- Only the inventory's members matter, not their order or repeats. -/
theorem Agrees.congr {l l' : List (String × Shape)} (hl : ∀ p, p ∈ l ↔ p ∈ l')
    {x : EStateM Error σ α} {a : α} (h : X.Agrees d rec l x a) : X.Agrees d rec l' x a where
  clean h' := h.clean (List.eq_nil_iff_forall_not_mem.mpr fun p hp =>
    List.eq_nil_iff_forall_not_mem.mp h' p ((hl p).mp hp))
  starts h' := (h.starts fun h'' => h' (List.eq_nil_iff_forall_not_mem.mpr fun p hp =>
    List.eq_nil_iff_forall_not_mem.mp h'' p ((hl p).mpr hp))).mono fun p hp => (hl p).mp hp
  callsOnly h' := (h.callsOnly h').mono fun p hp => (hl p).mp hp

end Agrees

/-! ## One application -/

section Apply
variable (f d : Nat) (name : String) (shape : Shape) (tree : Tree) (loc : Option Loc)
  (asName : Option String)

theorem apply_succ_of_bound {mac : Mac} (rec : Bool) (hmac : X.bindings.get? name = some mac)
    (hd : X.maxDepth.all (d < ·)) :
    X.apply (f + 1) d rec name shape tree loc asName =
      X.invoke (X.invocation f d rec name mac shape tree loc asName) >>= fun r =>
        match r with
        | none => pure none
        | some t => if rec then some <$> X.visitTree f (d + 1) rec (t.fillLocs loc)
            else pure (some (t.fillLocs loc)) := by
  cases hm : X.maxDepth with
  | none =>
    simp only [apply, hmac, hm]
    rfl
  | some limit =>
    simp only [hm, Option.all_some, decide_eq_true_eq] at hd
    simp only [apply, hmac, hm, Nat.not_le.mpr hd, ↓reduceIte]
    rfl

theorem apply_succ_of_unbound (rec : Bool) (hmac : X.bindings.get? name = none) :
    X.apply (f + 1) d rec name shape tree loc asName =
      throw (Error.atLoc .unboundMacro X.filename loc ("no binding for macro '" ++ name ++ "'")) := by
  simp only [apply, hmac]

/-- At the depth limit an application fails with a depth error before calling anything. -/
theorem apply_succ_at_limit {mac : Mac} (rec : Bool) (hmac : X.bindings.get? name = some mac)
    (hd : ¬ X.maxDepth.all (d < ·)) :
    ∃ e : Error, X.apply (f + 1) d rec name shape tree loc asName = throw e ∧
      e.kind = .depthExceeded := by
  cases hm : X.maxDepth with
  | none => simp [hm] at hd
  | some limit =>
    have hle : d ≥ limit := by simpa [hm] using hd
    simp only [apply, hmac, hm, if_pos hle, throw_bind]
    exact ⟨_, rfl, rfl⟩

/-- A one-layer application calls its own macro and nothing else. -/
theorem callsOnly_apply_once {S : String × Shape → Prop} (h : S (name, shape)) :
    X.CallsOnly S (X.apply (f + 1) d false name shape tree loc asName) := by
  cases hmac : X.bindings.get? name with
  | none =>
    rw [apply_succ_of_unbound f d name shape tree loc asName false hmac]
    exact .throw _
  | some mac =>
    by_cases hd : X.maxDepth.all (d < ·)
    · rw [apply_succ_of_bound f d name shape tree loc asName false hmac hd]
      refine .bind _ _ (.invoke _ h) fun r => ?_
      cases r with
      | none => exact .pure _
      | some t => exact .pure _
    · obtain ⟨e, he, -⟩ := apply_succ_at_limit f d name shape tree loc asName false hmac hd
      rw [he]
      exact .throw e

end Apply

theorem Agrees.apply {d f : Nat} {rec rec' : Bool} {name : String} {shape : Shape} {tree : Tree}
    {loc : Option Loc} {asName : Option String} {l : List (String × Shape)} {α : Type}
    {k : Option Tree → EStateM Error σ α} (hmem : (name, shape) ∈ l)
    (hrec : rec = false → rec' = false) (hk : rec = false → ∀ r, X.CallsOnly (· ∈ l) (k r))
    (a : α) : X.Agrees d rec l (X.apply (f + 1) d rec' name shape tree loc asName >>= k) a where
  clean h := absurd (h ▸ hmem) List.not_mem_nil
  starts _ := ⟨f, rec', name, shape, tree, loc, asName, k, rfl, hmem⟩
  callsOnly h := by
    obtain rfl := hrec h
    exact .bind _ _ (callsOnly_apply_once f d name shape tree loc asName hmem) (hk h)

theorem Agrees.map {d : Nat} {rec : Bool} {l : List (String × Shape)} {α β : Type}
    {x : EStateM Error σ β} {a : β} (g : β → α) (h : X.Agrees d rec l x a) :
    X.Agrees d rec l (g <$> x) (g a) := by
  rw [← bind_pure_comp]
  simpa using h.bind fun b => Agrees.pure (g b)

theorem callsOnly_toExpr {S : String × Shape → Prop} (name : String) (r : Option Tree)
    (loc : Option Loc) : X.CallsOnly S (X.toExpr name r loc) := by
  unfold toExpr
  split
  · exact .throw _
  · split
    · exact .pure _
    · exact .throw _

/-! ## The walk agrees with the inventory -/

section Walk
variable (d : Nat) (rec : Bool)

/-- A subscript whose base is not a bare name is walked in both parts. -/
theorem visitExpr_subscript_of_asName (f : Nat) (v i : Expr) (l : Option Loc)
    (hv : v.asName? = none) :
    X.visitExpr (f + 1) d rec (.mk (.subscript v i) l) = (do
      let v' ← X.visitExpr f d rec v
      let i' ← X.visitExpr f d rec i
      pure (.mk (.subscript v' i') l)) := by
  obtain ⟨vk, vl⟩ := v
  cases vk <;> simp_all [visitExpr, Expr.asName?, exprInvocation?, nameInvocation?]

mutual
theorem visitExpr_agrees : ∀ (e : Expr) (f : Nat), sizeOf e < f →
    X.Agrees d rec (e.invocations X.bindings X.isNameMacro) (X.visitExpr f d rec e) e
  | .mk _ _, 0, hf => absurd hf (Nat.not_lt_zero _)
  | .mk k l, f + 1, hf => by
    cases k with
    | done inner =>
      simp only [visitExpr]
      exact (Agrees.pure _).congr (by simp [Expr.invocations])
    | name n =>
      cases hn : nameInvocation? X.bindings X.isNameMacro (.mk (.name n) l) with
      | none =>
        simp only [visitExpr, hn, exprInvocation?]
        exact (Agrees.pure _).congr (by simp [Expr.invocations, hn])
      | some name =>
        -- a name invocation goes through `expandName`, which applies one fuel step later
        have hl : 0 < sizeOf l := by cases l <;> simp
        obtain ⟨f, rfl⟩ : ∃ f', f = f' + 1 + 1 := ⟨f - 2, by simp at hf; omega⟩
        simp only [visitExpr, hn, exprInvocation?, expandName]
        refine Agrees.apply (nameInvocation_mem _ _ hn) (fun _ => rfl) (fun hrec r => ?_) _
        subst hrec
        exact .bind _ _ (callsOnly_toExpr _ _ _) fun new => .pure new
    | const c =>
      simp only [visitExpr, exprInvocation?, nameInvocation?]
      exact (Agrees.pure _).congr (by simp [Expr.invocations])
    | binOp op a c =>
      simp at hf
      simp only [visitExpr, exprInvocation?, nameInvocation?]
      refine (Agrees.bind (visitExpr_agrees a f (by omega)) fun a' =>
        Agrees.bind (visitExpr_agrees c f (by omega)) fun c' => Agrees.pure _).congr ?_
      simp [Expr.invocations]
    | unaryOp op a =>
      simp at hf
      simp only [visitExpr, exprInvocation?, nameInvocation?]
      refine (Agrees.bind (visitExpr_agrees a f (by omega)) fun a' => Agrees.pure _).congr ?_
      simp [Expr.invocations]
    | call fn args =>
      simp at hf
      simp only [visitExpr, exprInvocation?, nameInvocation?]
      refine (Agrees.bind (visitExpr_agrees fn f (by omega)) fun fn' =>
        Agrees.bind (visitExprs_agrees args f (by omega)) fun args' => Agrees.pure _).congr ?_
      simp [Expr.invocations]
    | «attribute» v a =>
      simp at hf
      simp only [visitExpr, exprInvocation?, nameInvocation?]
      refine (Agrees.bind (visitExpr_agrees v f (by omega)) fun v' => Agrees.pure _).congr ?_
      simp [Expr.invocations]
    | subscript v i =>
      simp at hf
      cases hx : exprInvocation? X.bindings (.mk (.subscript v i) l) with
      | some name =>
        -- a bound name indexed: the macro gets the index, which is not walked
        obtain ⟨f, rfl⟩ : ∃ f', f = f' + 1 := ⟨f - 1, by omega⟩
        simp only [visitExpr, hx]
        exact Agrees.apply (exprInvocation_mem _ _ hx) id
          (fun _ r => callsOnly_toExpr _ _ _) _
      | none =>
        cases hv : v.asName? with
        | none =>
          rw [visitExpr_subscript_of_asName d rec f v i l hv]
          refine (Agrees.bind (visitExpr_agrees v f (by omega)) fun v' =>
            Agrees.bind (visitExpr_agrees i f (by omega)) fun i' => Agrees.pure _).congr ?_
          simp [Expr.invocations_subscript_of_asName _ _ v i l hv]
        | some _ =>
          -- an unbound bare base is kept as it is, and only the index is walked
          obtain ⟨vk, vl⟩ := v
          cases vk with
          | name n =>
            simp only [visitExpr, hx, nameInvocation?]
            refine (Agrees.bind (visitExpr_agrees i f (by omega)) fun i' => Agrees.pure _).congr ?_
            simp [Expr.invocations, hx]
          | _ => simp [Expr.asName?] at hv
    | list items =>
      simp at hf
      simp only [visitExpr, exprInvocation?, nameInvocation?]
      refine (Agrees.bind (visitExprs_agrees items f (by omega)) fun items' =>
        Agrees.pure _).congr ?_
      simp [Expr.invocations]
    | tuple items =>
      simp at hf
      simp only [visitExpr, exprInvocation?, nameInvocation?]
      refine (Agrees.bind (visitExprs_agrees items f (by omega)) fun items' =>
        Agrees.pure _).congr ?_
      simp [Expr.invocations]
    | lambda ps body =>
      simp at hf
      simp only [visitExpr, exprInvocation?, nameInvocation?]
      refine (Agrees.bind (visitExpr_agrees body f (by omega)) fun body' =>
        Agrees.pure _).congr ?_
      simp [Expr.invocations]
    | ifExp t body o =>
      simp at hf
      simp only [visitExpr, exprInvocation?, nameInvocation?]
      refine (Agrees.bind (visitExpr_agrees t f (by omega)) fun t' =>
        Agrees.bind (visitExpr_agrees body f (by omega)) fun body' =>
        Agrees.bind (visitExpr_agrees o f (by omega)) fun o' => Agrees.pure _).congr ?_
      -- the inventory lists the branch before the test; the walk visits the test first
      simp [Expr.invocations, or_left_comm]
theorem visitExprs_agrees : ∀ (es : List Expr) (f : Nat), sizeOf es < f →
    X.Agrees d rec (Expr.invocationsList X.bindings X.isNameMacro es) (X.visitExprs f d rec es) es
  | _, 0, hf => absurd hf (Nat.not_lt_zero _)
  | [], f + 1, _ => by
    rw [visitExprs_nil]
    exact (Agrees.pure _).congr (by simp [Expr.invocationsList])
  | e :: es, f + 1, hf => by
    simp at hf
    rw [visitExprs_cons]
    refine (Agrees.bind (visitExpr_agrees e f (by omega)) fun e' =>
      Agrees.bind (visitExprs_agrees es (f + 1) (by omega)) fun es' => Agrees.pure _).congr ?_
    simp [Expr.invocationsList]
end

theorem visitOpt_agrees (o : Option Expr) (f : Nat) (hf : sizeOf o < f) :
    X.Agrees d rec (Expr.invocationsOpt X.bindings X.isNameMacro o) (X.visitOpt f d rec o) o := by
  match o, f, hf with
  | _, 0, hf => exact absurd hf (Nat.not_lt_zero _)
  | none, f + 1, _ =>
    rw [visitOpt_none]
    exact (Agrees.pure _).congr (by simp [Expr.invocationsOpt])
  | some e, f + 1, hf =>
    simp at hf
    rw [visitOpt_some]
    exact ((visitExpr_agrees d rec e f (by omega)).map some).congr (by simp [Expr.invocationsOpt])

/-- The decorator chain of `expandDecorated`: each bound bare decorator, the one nearest the
definition first, takes what the previous one returned, until one deletes it. -/
theorem expandDecorated_succ (f : Nat) (k : StmtKind) (l : Option Loc)
    (hs : decoratorInvocations X.bindings (.mk k l) ≠ []) : ∃ t₀, X.expandDecorated (f + 1) d rec (.mk k l) = (do
      let current ← forIn (decoratorInvocations X.bindings (.mk k l)).reverse (some t₀)
        fun name (current : Option Tree) => match current with
          | none => pure (ForInStep.done current)
          | some t => do
            let r ← X.apply f d rec name .decorator t l none
            pure (ForInStep.yield r)
      pure (match current with
        | some t => t.toStmts
        | none => [])) := by
  -- only a definition has decorators; it starts the chain from itself less its macro ones
  cases k
  case functionDef n ps b ds =>
    refine ⟨.stmts [.mk (.functionDef n ps b (splitDecorators X.bindings ds).2) l], ?_⟩
    unfold expandDecorated
    rfl
  case classDef n b ds =>
    refine ⟨.stmts [.mk (.classDef n b (splitDecorators X.bindings ds).2) l], ?_⟩
    unfold expandDecorated
    rfl
  all_goals simp [decoratorInvocations] at hs

/-- A decorator chain of bound names of the inventory agrees with it. -/
theorem agrees_decoratorChain (f : Nat) (l : Option Loc) (names : List String) (hne : names ≠ [])
    {L : List (String × Shape)} (hmem : ∀ n ∈ names, (n, Shape.decorator) ∈ L) (t₀ : Tree)
    (a : List Stmt) :
    X.Agrees d rec L (do
      let current ← forIn names (some t₀)
        fun name (current : Option Tree) => match current with
          | none => pure (ForInStep.done current)
          | some t => do
            let r ← X.apply (f + 1) d rec name .decorator t l none
            pure (ForInStep.yield r)
      pure (match current with
        | some t => t.toStmts
        | none => [])) a where
  clean h := by
    obtain ⟨n, hn⟩ := List.exists_mem_of_ne_nil names hne
    exact absurd (h ▸ hmem n hn) List.not_mem_nil
  starts _ := by
    -- the chain starts with the decorator nearest the definition, on the definition itself
    obtain ⟨n, rest, rfl⟩ := List.exists_cons_of_ne_nil hne
    simp only [List.forIn_cons, bind_assoc]
    exact ⟨f, rec, n, .decorator, t₀, l, none, _, rfl, hmem n List.mem_cons_self⟩
  callsOnly h := by
    subst h
    refine .bind _ _ (CallsOnly.forIn _ _ _ fun n hn current => ?_) fun _ => .pure _
    cases current with
    | none => exact .pure _
    | some t => exact .bind _ _ (callsOnly_apply_once f d n _ t l none (hmem n hn)) fun _ => .pure _

theorem expandDecorated_agrees (f : Nat) (s : Stmt) (hs : decoratorInvocations X.bindings s ≠ [])
    (a : List Stmt) :
    X.Agrees d rec (s.invocations X.bindings X.isNameMacro) (X.expandDecorated (f + 1 + 1) d rec s) a := by
  obtain ⟨k, l⟩ := s
  obtain ⟨t₀, h⟩ := expandDecorated_succ d rec (f + 1) k l hs
  rw [h]
  exact agrees_decoratorChain d rec f l _ (by simpa using hs)
    (fun n hn => decoratorInvocation_mem _ _ (List.mem_reverse.mp hn)) t₀ a

mutual
theorem visitStmt_agrees : ∀ (s : Stmt) (f : Nat), sizeOf s < f →
    X.Agrees d rec (s.invocations X.bindings X.isNameMacro) (X.visitStmt f d rec s) [s]
  | .mk _ _, 0, hf => absurd hf (Nat.not_lt_zero _)
  | .mk k l, f + 1, hf => by
    cases k with
    | done inner =>
      simp only [visitStmt]
      exact (Agrees.pure _).congr (by simp [Stmt.invocations])
    | withBlock item a body =>
      simp at hf
      cases hb : blockInvocation? X.bindings (.mk (.withBlock item a body) l) with
      | some name =>
        -- a bound name as the item: the macro gets the body, which is not walked
        obtain ⟨f, rfl⟩ : ∃ f', f = f' + 1 := ⟨f - 1, by omega⟩
        simp only [visitStmt, hb]
        exact Agrees.apply (blockInvocation_mem _ _ hb) id (fun _ _ => .pure _) _
      | none =>
        simp only [visitStmt, hb, decoratorInvocations, List.isEmpty_nil]
        refine (Agrees.bind (visitExpr_agrees d rec item f (by omega)) fun item' =>
          Agrees.bind (visitBody_agrees body f (by omega)) fun body' => Agrees.pure _).congr ?_
        simp [Stmt.invocations, hb]
    | functionDef n ps body ds =>
      simp at hf
      by_cases hdec : decoratorInvocations X.bindings (.mk (.functionDef n ps body ds) l) = []
      · have hds : ds.filterMap (decoratorMacro? X.bindings) = [] := hdec
        simp only [visitStmt, blockInvocation?, hdec, List.isEmpty_nil]
        refine (Agrees.bind (visitExprs_agrees d rec ds f (by omega)) fun ds' =>
          Agrees.bind (visitBody_agrees body f (by omega)) fun body' => Agrees.pure _).congr ?_
        simp [Stmt.invocations, decoratorsInvocations_of_filterMap_nil _ _ hds]
      · obtain ⟨f, rfl⟩ : ∃ f', f = f' + 1 + 1 := ⟨f - 2, by omega⟩
        have hne : (!(decoratorInvocations X.bindings (.mk (.functionDef n ps body ds) l)).isEmpty) = true := by
          simpa [List.isEmpty_iff] using hdec
        simp only [visitStmt, blockInvocation?, hne, ↓reduceIte]
        exact expandDecorated_agrees d rec f _ hdec _
    | classDef n body ds =>
      simp at hf
      by_cases hdec : decoratorInvocations X.bindings (.mk (.classDef n body ds) l) = []
      · have hds : ds.filterMap (decoratorMacro? X.bindings) = [] := hdec
        simp only [visitStmt, blockInvocation?, hdec, List.isEmpty_nil]
        refine (Agrees.bind (visitExprs_agrees d rec ds f (by omega)) fun ds' =>
          Agrees.bind (visitBody_agrees body f (by omega)) fun body' => Agrees.pure _).congr ?_
        simp [Stmt.invocations, decoratorsInvocations_of_filterMap_nil _ _ hds]
      · obtain ⟨f, rfl⟩ : ∃ f', f = f' + 1 + 1 := ⟨f - 2, by omega⟩
        have hne : (!(decoratorInvocations X.bindings (.mk (.classDef n body ds) l)).isEmpty) = true := by
          simpa [List.isEmpty_iff] using hdec
        simp only [visitStmt, blockInvocation?, hne, ↓reduceIte]
        exact expandDecorated_agrees d rec f _ hdec _
    | expr v =>
      simp at hf
      simp only [visitStmt, blockInvocation?, decoratorInvocations, List.isEmpty_nil]
      refine (Agrees.bind (visitExpr_agrees d rec v f (by omega)) fun v' => Agrees.pure _).congr ?_
      simp [Stmt.invocations]
    | assign t v =>
      simp at hf
      simp only [visitStmt, blockInvocation?, decoratorInvocations, List.isEmpty_nil]
      refine (Agrees.bind (visitExpr_agrees d rec t f (by omega)) fun t' =>
        Agrees.bind (visitExpr_agrees d rec v f (by omega)) fun v' => Agrees.pure _).congr ?_
      simp [Stmt.invocations]
    | ret v =>
      simp at hf
      simp only [visitStmt, blockInvocation?, decoratorInvocations, List.isEmpty_nil]
      refine (Agrees.bind (visitOpt_agrees d rec v f (by omega)) fun v' => Agrees.pure _).congr ?_
      simp [Stmt.invocations]
    | ifElse t body o =>
      simp at hf
      simp only [visitStmt, blockInvocation?, decoratorInvocations, List.isEmpty_nil]
      refine (Agrees.bind (visitExpr_agrees d rec t f (by omega)) fun t' =>
        Agrees.bind (visitBody_agrees body f (by omega)) fun body' =>
        Agrees.bind (visitBody_agrees o f (by omega)) fun o' => Agrees.pure _).congr ?_
      simp [Stmt.invocations]
    | whileLoop t body =>
      simp at hf
      simp only [visitStmt, blockInvocation?, decoratorInvocations, List.isEmpty_nil]
      refine (Agrees.bind (visitExpr_agrees d rec t f (by omega)) fun t' =>
        Agrees.bind (visitBody_agrees body f (by omega)) fun body' => Agrees.pure _).congr ?_
      simp [Stmt.invocations]
    | forLoop x i body =>
      simp at hf
      simp only [visitStmt, blockInvocation?, decoratorInvocations, List.isEmpty_nil]
      refine (Agrees.bind (visitExpr_agrees d rec i f (by omega)) fun i' =>
        Agrees.bind (visitBody_agrees body f (by omega)) fun body' => Agrees.pure _).congr ?_
      simp [Stmt.invocations]
    | assertion t m =>
      simp at hf
      simp only [visitStmt, blockInvocation?, decoratorInvocations, List.isEmpty_nil]
      refine (Agrees.bind (visitExpr_agrees d rec t f (by omega)) fun t' =>
        Agrees.bind (visitOpt_agrees d rec m f (by omega)) fun m' => Agrees.pure _).congr ?_
      simp [Stmt.invocations]
    | importModule _ _ | importFrom _ _ _ | pass | breakLoop | continueLoop =>
      simp only [visitStmt, blockInvocation?, decoratorInvocations, List.isEmpty_nil]
      exact (Agrees.pure _).congr (by simp [Stmt.invocations])
theorem visitBody_agrees : ∀ (ss : List Stmt) (f : Nat), sizeOf ss < f →
    X.Agrees d rec (Stmt.invocationsList X.bindings X.isNameMacro ss) (X.visitBody f d rec ss) ss
  | _, 0, hf => absurd hf (Nat.not_lt_zero _)
  | [], f + 1, _ => by
    rw [visitBody_nil]
    exact (Agrees.pure _).congr (by simp [Stmt.invocationsList])
  | s :: ss, f + 1, hf => by
    simp at hf
    rw [visitBody_cons]
    refine (Agrees.bind (visitStmt_agrees s f (by omega)) fun r =>
      Agrees.bind (visitBody_agrees ss (f + 1) (by omega)) fun rs => Agrees.pure _).congr ?_
    simp [Stmt.invocationsList]
end

theorem visitTree_agrees (t : Tree) (f : Nat) (hf : sizeOf t < f) :
    X.Agrees d rec (Tree.collect X.bindings X.isNameMacro t) (X.visitTree f d rec t) t := by
  match t, f, hf with
  | _, 0, hf => exact absurd hf (Nat.not_lt_zero _)
  | .expr e, f + 1, hf =>
    simp at hf
    simp only [visitTree]
    exact ((visitExpr_agrees d rec e f (by omega)).map Tree.expr).congr
      fun _ => (mem_collect_expr _ _).symm
  | .stmts ss, f + 1, hf =>
    simp at hf
    simp only [visitTree]
    exact ((visitBody_agrees d rec ss f (by omega)).map Tree.stmts).congr
      fun _ => (mem_collect_stmts _ _).symm

end Walk

/-! ## Calls of the walk -/

section Tree
variable (t : Tree) (f d : Nat) (hf : sizeOf t < f)
include hf

/-- A tree whose inventory is empty is left as it is, with no effect at all. -/
theorem visitTree_of_collect_nil (h : Tree.collect X.bindings X.isNameMacro t = []) (rec : Bool) :
    X.visitTree f d rec t = pure t :=
  (visitTree_agrees d rec t f hf).clean h

/-- Below the depth limit, a tree whose inventory is not empty starts by calling a macro of
its inventory. -/
theorem visitTree_starts_with_invoke (h : Tree.collect X.bindings X.isNameMacro t ≠ [])
    (hd : X.maxDepth.all (d < ·)) (rec : Bool) :
    ∃ (inv : Invocation (EStateM Error σ) Mac) (k : Option Tree → EStateM Error σ Tree),
      X.visitTree f d rec t = X.invoke inv >>= k ∧
        (inv.name, inv.shape) ∈ Tree.collect X.bindings X.isNameMacro t := by
  obtain ⟨f', rec', name, shape, tree, loc, asName, k, heq, hmem⟩ :=
    (visitTree_agrees d rec t f hf).starts h
  -- the inventory names only bound macros, so the application reaches the call
  obtain ⟨mac, hmac, -⟩ := backs_of_mem_collect _ _ hmem
  rw [heq, apply_succ_of_bound f' d name shape tree loc asName rec' hmac hd, bind_assoc]
  exact ⟨_, _, rfl, hmem⟩

/-- At the depth limit, a tree whose inventory is not empty fails with a depth error, before
any macro is called. -/
theorem visitTree_fails_at_limit (h : Tree.collect X.bindings X.isNameMacro t ≠ [])
    (hd : ¬ X.maxDepth.all (d < ·)) (rec : Bool) :
    ∃ e : Error, X.visitTree f d rec t = throw e ∧ e.kind = .depthExceeded := by
  obtain ⟨f', rec', name, shape, tree, loc, asName, k, heq, hmem⟩ :=
    (visitTree_agrees d rec t f hf).starts h
  obtain ⟨mac, hmac, -⟩ := backs_of_mem_collect _ _ hmem
  obtain ⟨e, he, hkind⟩ := apply_succ_at_limit f' d name shape tree loc asName rec' hmac hd
  rw [heq, he, throw_bind]
  exact ⟨e, rfl, hkind⟩

/-- In one-layer mode the walk calls macros of the inventory only. -/
theorem visitTree_once_callsOnly :
    X.CallsOnly (· ∈ Tree.collect X.bindings X.isNameMacro t) (X.visitTree f d false t) :=
  (visitTree_agrees d false t f hf).callsOnly rfl

/-- The expander and the inventory agree: the walk, in either mode, is `pure t` exactly when
the inventory is empty; otherwise it calls a macro of the inventory first, or fails at the
depth limit before calling any; and in one-layer mode every call the walk makes itself is of
an inventory pair. -/
theorem visitTree_agrees_with_collect :
    (Tree.collect X.bindings X.isNameMacro t = [] → ∀ rec, X.visitTree f d rec t = pure t) ∧
    (Tree.collect X.bindings X.isNameMacro t ≠ [] → X.maxDepth.all (d < ·) → ∀ rec,
      ∃ (inv : Invocation (EStateM Error σ) Mac) (k : Option Tree → EStateM Error σ Tree),
        X.visitTree f d rec t = X.invoke inv >>= k ∧
          (inv.name, inv.shape) ∈ Tree.collect X.bindings X.isNameMacro t) ∧
    (Tree.collect X.bindings X.isNameMacro t ≠ [] → ¬ X.maxDepth.all (d < ·) → ∀ rec,
      ∃ e : Error, X.visitTree f d rec t = throw e ∧ e.kind = .depthExceeded) ∧
    X.CallsOnly (· ∈ Tree.collect X.bindings X.isNameMacro t) (X.visitTree f d false t) :=
  ⟨visitTree_of_collect_nil t f d hf, visitTree_starts_with_invoke t f d hf,
    visitTree_fails_at_limit t f d hf, visitTree_once_callsOnly t f d hf⟩

end Tree

/-! ## One macro that gives back its argument -/

/-- An expander with one macro, bound to `m`, that gives back what it is handed. -/
def echo (maxDepth : Option Nat) : Expander (EStateM Error Unit) Unit where
  bindings := ⟨[("m", ())]⟩
  filename := "t.trl"
  maxDepth := maxDepth
  isNameMacro _ := false
  invoke inv := pure (some inv.tree)

/-- The expression `m[1]`. -/
def echoCall : Tree :=
  .expr (.mk (.subscript (.mk (.name "m") none) (.mk (.const (.int 1)) none)) none)

theorem echoCall_mem_collect (maxDepth : Option Nat) :
    ("m", Shape.expr) ∈ Tree.collect (echo maxDepth).bindings (echo maxDepth).isNameMacro echoCall :=
  (mem_collect_expr _ _).mpr (exprInvocation_mem _ _ rfl)

theorem visitTree_agrees_with_collect_echo :
    sizeOf echoCall < sizeOf echoCall + 1 ∧
    (Tree.collect (echo none).bindings (echo none).isNameMacro echoCall = [] →
      ∀ rec, (echo none).visitTree (sizeOf echoCall + 1) 0 rec echoCall = pure echoCall) ∧
    (Tree.collect (echo none).bindings (echo none).isNameMacro echoCall ≠ [] →
      (echo none).maxDepth.all (0 < ·) → ∀ rec,
      ∃ (inv : Invocation (EStateM Error Unit) Unit) (k : Option Tree → EStateM Error Unit Tree),
        (echo none).visitTree (sizeOf echoCall + 1) 0 rec echoCall = (echo none).invoke inv >>= k ∧
          (inv.name, inv.shape) ∈ Tree.collect (echo none).bindings (echo none).isNameMacro echoCall) ∧
    (Tree.collect (echo none).bindings (echo none).isNameMacro echoCall ≠ [] →
      ¬ (echo none).maxDepth.all (0 < ·) → ∀ rec,
      ∃ e : Error, (echo none).visitTree (sizeOf echoCall + 1) 0 rec echoCall = throw e ∧
        e.kind = .depthExceeded) ∧
    (echo none).CallsOnly (· ∈ Tree.collect (echo none).bindings (echo none).isNameMacro echoCall)
      ((echo none).visitTree (sizeOf echoCall + 1) 0 false echoCall) :=
  ⟨Nat.lt_succ_self _, visitTree_agrees_with_collect echoCall _ 0 (Nat.lt_succ_self _)⟩

/-- With a depth limit of zero, `m[1]` lists a call in its inventory, yet the walk fails
without calling the macro. -/
theorem depth_limit_blocks_listed_call :
    Tree.collect (echo (some 0)).bindings (echo (some 0)).isNameMacro echoCall ≠ [] ∧
    ∃ e : Error, (echo (some 0)).visitTree (sizeOf echoCall + 1) 0 true echoCall = throw e := by
  have hne := List.ne_nil_of_mem (echoCall_mem_collect (some 0))
  obtain ⟨e, he, -⟩ :=
    visitTree_fails_at_limit echoCall _ 0 (Nat.lt_succ_self _) hne (by decide) true
  exact ⟨hne, e, he⟩

end Espalier.Expander
