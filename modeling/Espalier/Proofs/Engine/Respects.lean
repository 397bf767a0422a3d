import Mathlib
import Espalier.Macro.Expander

/-!
# Computations that keep to a relation on states

A computation over a state *respects* a relation `R` when every run of it, whether it gives a
value or fails, ends in a state that `R` relates to the one it started from. For a preorder
this is closed under everything a `do` block is built from: `pure` and `throw`, binds,
`tryCatch`, loops over lists and ranges, `mapM` and `foldlM`, and writes that `R` allows. So a
property such as "the fresh-name counter never goes down" is proved of a whole program by
checking its leaves.

The macro walk is generic in its state, and its only leaves beyond these are the macro calls.
`Expander.walk_respects`: if every macro call respects `R` whenever the expander handed to the
macro does, every function of the walk respects `R`, at every fuel. The induction is on the
fuel, which is also what bounds the expanders handed to the macros.
-/

namespace Espalier

section Respects

variable {σ α β γ : Type}

/-- The state a run ends in, with a value or with an error. -/
def stateAfter : EStateM.Result Error σ α → σ
  | .ok _ s => s
  | .error _ s => s

@[simp] theorem stateAfter_ok (a : α) (s : σ) :
    stateAfter (.ok a s : EStateM.Result Error σ α) = s := rfl

@[simp] theorem stateAfter_error (e : Error) (s : σ) :
    stateAfter (.error e s : EStateM.Result Error σ α) = s := rfl

/-- Every run of `x` ends, with a value or with an error, in a state that `R` relates to the
state it started from. -/
structure Respects (R : σ → σ → Prop) (x : EStateM Error σ α) : Prop where
  after : ∀ s, R s (stateAfter (x.run s))

variable {R : σ → σ → Prop}

/-- A write respects `R` when `R` holds across it. -/
theorem Respects.modify {f : σ → σ} (hf : ∀ s, R s (f s)) :
    Respects R (modify f : EStateM Error σ PUnit) :=
  ⟨fun s => hf s⟩

theorem Respects.ite {c : Prop} [Decidable c] {x y : EStateM Error σ α} (hx : Respects R x)
    (hy : Respects R y) : Respects R (if c then x else y) := by
  split
  · exact hx
  · exact hy

theorem Respects.dite {c : Prop} [Decidable c] {x : c → EStateM Error σ α}
    {y : ¬c → EStateM Error σ α} (hx : ∀ h, Respects R (x h)) (hy : ∀ h, Respects R (y h)) :
    Respects R (if h : c then x h else y h) := by
  split
  · exact hx _
  · exact hy _

/-- A join point of a `do` block: the code after a branch, shared by its arms. It is proved
once, and the arms use that fact wherever they jump to it. -/
theorem Respects.joinPoint (R : σ → σ → Prop) (j : γ → EStateM Error σ α) {P : Prop}
    (hj : ∀ a, Respects R (j a)) (h : (∀ a, Respects R (j a)) → P) : P :=
  h hj

variable [IsPreorder σ R]

theorem Respects.get : Respects R (MonadState.get : EStateM Error σ σ) :=
  ⟨fun s => refl_of R s⟩

theorem Respects.pure (a : α) : Respects R (Pure.pure a : EStateM Error σ α) :=
  ⟨fun s => refl_of R s⟩

theorem Respects.throw (e : Error) : Respects R (MonadExcept.throw e : EStateM Error σ α) :=
  ⟨fun s => refl_of R s⟩

theorem Respects.bind {x : EStateM Error σ β} {k : β → EStateM Error σ α} (hx : Respects R x)
    (hk : ∀ b, Respects R (k b)) : Respects R (x >>= k) := by
  refine ⟨fun s => ?_⟩
  have h₁ := hx.after s
  rw [EStateM.run_bind]
  cases hrun : x.run s with
  | ok b s₁ =>
    rw [hrun] at h₁
    exact trans_of R h₁ ((hk b).after s₁)
  | error e s₁ =>
    rw [hrun] at h₁
    exact h₁

theorem Respects.map {x : EStateM Error σ β} (hx : Respects R x) (g : β → α) :
    Respects R (g <$> x) := by
  rw [← bind_pure_comp]
  exact hx.bind fun b => Respects.pure (g b)

/-- A handler runs from where the failed computation stopped. -/
theorem Respects.tryCatch {x : EStateM Error σ α} {h : Error → EStateM Error σ α}
    (hx : Respects R x) (hh : ∀ e, Respects R (h e)) : Respects R (tryCatch x h) := by
  refine ⟨fun s => ?_⟩
  have h₁ := hx.after s
  show R s (stateAfter (EStateM.tryCatch x h s))
  simp only [EStateM.tryCatch]
  cases hrun : x s with
  | ok a s₁ => simpa [EStateM.run, hrun] using h₁
  | error e s₁ =>
    simp only [EStateM.run, hrun, stateAfter_error] at h₁
    exact trans_of R h₁ ((hh e).after _)

theorem Respects.forIn (xs : List γ) (init : β) {body : γ → β → EStateM Error σ (ForInStep β)}
    (hbody : ∀ a b, Respects R (body a b)) : Respects R (forIn xs init body) := by
  induction xs generalizing init with
  | nil => exact Respects.pure init
  | cons a as ih =>
    rw [List.forIn_cons]
    refine (hbody a init).bind fun r => ?_
    cases r with
    | done b => exact Respects.pure b
    | yield b => exact ih b

theorem Respects.forIn_range (r : Std.Legacy.Range) (init : β)
    {body : Nat → β → EStateM Error σ (ForInStep β)} (hbody : ∀ a b, Respects R (body a b)) :
    Respects R (ForIn.forIn r init body) := by
  rw [Std.Legacy.Range.forIn_eq_forIn_range']
  exact Respects.forIn _ init hbody

theorem Respects.mapM (xs : List γ) {f : γ → EStateM Error σ α}
    (hf : ∀ a, Respects R (f a)) : Respects R (xs.mapM f) := by
  induction xs with
  | nil => exact Respects.pure []
  | cons a as ih =>
    rw [List.mapM_cons]
    exact (hf a).bind fun b => ih.bind fun bs => Respects.pure _

theorem Respects.optionMapM (o : Option γ) {f : γ → EStateM Error σ α}
    (hf : ∀ a, Respects R (f a)) : Respects R (o.mapM f) := by
  cases o with
  | none => exact Respects.pure none
  | some a =>
    rw [Option.mapM_some]
    exact (hf a).map some

theorem Respects.foldlM (xs : List γ) (init : β) {f : β → γ → EStateM Error σ β}
    (hf : ∀ b a, Respects R (f b a)) : Respects R (xs.foldlM f init) := by
  induction xs generalizing init with
  | nil => exact Respects.pure init
  | cons a as ih =>
    rw [List.foldlM_cons]
    exact (hf init a).bind fun b => ih b

end Respects

/-! ## The macro walk -/

namespace Expander

variable {σ Mac : Type} {R : σ → σ → Prop} (X : Expander (EStateM Error σ) Mac)

/-- Every macro call respects `R` whenever the expanders the invocation hands to the macro
do. -/
def InvokeRespects (R : σ → σ → Prop) : Prop :=
  ∀ inv : Invocation (EStateM Error σ) Mac, (∀ t, Respects R (inv.expand t)) →
    (∀ t, Respects R (inv.expandOnce t)) → Respects R (X.invoke inv)

/-- At fuel `f`, every function of the walk respects `R`. -/
structure WalkRespects (R : σ → σ → Prop) (f : Nat) : Prop where
  expr : ∀ d rec e, Respects R (X.visitExpr f d rec e)
  exprs : ∀ d rec es, Respects R (X.visitExprs f d rec es)
  opt : ∀ d rec o, Respects R (X.visitOpt f d rec o)
  stmt : ∀ d rec s, Respects R (X.visitStmt f d rec s)
  body : ∀ d rec ss, Respects R (X.visitBody f d rec ss)
  tree : ∀ d rec t, Respects R (X.visitTree f d rec t)
  apply : ∀ d rec name shape tree loc asName,
    Respects R (X.apply f d rec name shape tree loc asName)
  name : ∀ d rec e name, Respects R (X.expandName f d rec e name)
  decorated : ∀ d rec s, Respects R (X.expandDecorated f d rec s)

variable [IsPreorder σ R] {X}

/-- The walk keeps to `R` when its macro calls do. Each function at fuel `f + 1` is binds,
branches and loops over calls at fuel `f`, results put back into the tree, and the macro call
of an application, whose expanders are the walk at fuel `f`. -/
theorem walk_respects (hX : X.InvokeRespects R) : ∀ f, X.WalkRespects R f := by
  intro f
  induction f with
  | zero =>
    constructor <;> intros <;>
      simp only [visitExpr, visitExprs, visitOpt, visitStmt, visitBody, visitTree, apply,
        expandName, expandDecorated] <;>
      exact Respects.throw _
  | succ f ih =>
    refine ⟨fun d rec e => ?expr, fun d rec es => ?exprs, fun d rec o => ?opt,
      fun d rec s => ?stmt, fun d rec ss => ?body, fun d rec t => ?tree,
      fun d rec name shape tree loc asName => ?apply, fun d rec e name => ?name,
      fun d rec s => ?decorated⟩
    case' expr => obtain ⟨k, loc⟩ := e
    case' stmt => obtain ⟨k, loc⟩ := s
    case' decorated => obtain ⟨k, loc⟩ := s
    case' tree => cases t
    all_goals
      first
      | rw [visitExpr.eq_def] | rw [visitExprs.eq_def] | rw [visitOpt.eq_def]
      | rw [visitStmt.eq_def] | rw [visitBody.eq_def] | rw [visitTree.eq_def]
      | rw [apply.eq_def] | rw [expandName.eq_def] | rw [expandDecorated.eq_def]
      dsimp only
      repeat
        first
        | with_reducible exact Respects.pure _
        | with_reducible exact Respects.throw _
        | exact ih.expr _ _ _
        | exact ih.exprs _ _ _
        | exact ih.opt _ _ _
        | exact ih.stmt _ _ _
        | exact ih.body _ _ _
        | exact ih.tree _ _ _
        | exact ih.apply _ _ _ _ _ _ _
        | exact ih.name _ _ _ _
        | exact ih.decorated _ _ _
        | exact hX _ (fun _ => ih.tree _ _ _) (fun _ => ih.tree _ _ _)
        | with_reducible apply Respects.bind
        | with_reducible apply Respects.map
        | with_reducible apply Respects.forIn
        | with_reducible apply Respects.mapM
        | with_reducible apply Respects.optionMapM
        | intro _
        | split
        | unfold Expander.toExpr

/-- A whole expansion of a module keeps to `R` when the macro calls do. -/
theorem expandModule_respects (hX : X.InvokeRespects R) (f : Nat) (m : Module) :
    Respects R (X.expandModule f m) :=
  ((walk_respects hX f).body 0 true m.body).bind fun _ => Respects.pure _

end Expander

end Espalier
