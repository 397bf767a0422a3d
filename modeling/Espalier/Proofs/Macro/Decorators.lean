import Espalier.Proofs.Macro.Monotone

/-!
# Decorator macro chains

A definition can carry several macro decorators, bare names bound to macros, among decorators
that are left for run time. Expanding it runs a chain: the macro decorators are applied from
the one nearest the definition outwards, the first to the definition with the macro
decorators taken off, each later one to what the one before gave, and the first deletion ends
the chain.

Main statement, `visitStmt_decorator_chain`: on a definition with at least one macro
decorator, the walk is a left fold of applications over the macro decorators in reverse
source order, stopping the calls at the first `none`, in recursive and in one-layer mode.
What an application does with a result (fill its locations from the invocation, and expand
it again in recursive mode) is `apply_succ_of_bound`.

The loop of `expandDecorated` is put in that form once, for any monad
(`forIn_chain_eq_foldlM`).
-/

namespace Espalier

/-- The decorators of a definition; other statements have none. -/
def StmtKind.decorators : StmtKind → List Expr
  | .functionDef _ _ _ ds | .classDef _ _ ds => ds
  | _ => []

/-- A definition with its decorators replaced; other statements are left as they are. -/
def StmtKind.withDecorators (ds : List Expr) : StmtKind → StmtKind
  | .functionDef n ps b _ => .functionDef n ps b ds
  | .classDef n b _ => .classDef n b ds
  | k => k

/-- The macro decorators of a definition are its bound bare-name decorators, in source order. -/
theorem decoratorInvocations_eq {M : Type} (b : Bindings M) (k : StmtKind) (l : Option Loc) :
    decoratorInvocations b (.mk k l) = k.decorators.filterMap (decoratorMacro? b) := by
  cases k <;> rfl

/-- What the first decorator macro is given keeps the other decorators, in source order. -/
theorem StmtKind.undecorated_eq {M : Type} (b : Bindings M) (k : StmtKind) :
    k.undecorated b =
      k.withDecorators (k.decorators.filter fun e => (decoratorMacro? b e).isNone) := by
  cases k <;> rfl

/-! ## A chain that stops at the first deletion -/

section Chain
variable {m : Type → Type} [Monad m] [LawfulMonad m] {γ : Type}
  (step : γ → Tree → m (Option Tree))

/-- One link of a chain: a deleted tree stays deleted, with no call. -/
def chainStep (current : Option Tree) (x : γ) : m (Option Tree) :=
  match current with
  | none => pure none
  | some t => step x t

theorem foldlM_chainStep_none (xs : List γ) : xs.foldlM (chainStep step) none = pure none := by
  induction xs with
  | nil => rfl
  | cons x xs ih => simpa [chainStep] using ih

/-- A loop that applies `step` to the tree in hand and breaks once it is deleted is the left
fold of the chain. -/
theorem forIn_chain_eq_foldlM (xs : List γ) (init : Option Tree)
    {body : γ → Option Tree → m (ForInStep (Option Tree))}
    (hnone : ∀ x, body x none = pure (.done none))
    (hsome : ∀ x t, body x (some t) = (do let r ← step x t; pure (.yield r))) :
    forIn xs init body = xs.foldlM (chainStep step) init := by
  induction xs generalizing init with
  | nil => rfl
  | cons x xs ih =>
    cases init with
    | none => simp [hnone, foldlM_chainStep_none, chainStep]
    | some t =>
      rw [List.forIn_cons, List.foldlM_cons, hsome, bind_assoc]
      simp only [chainStep, pure_bind]
      congr 1
      funext r
      exact ih r

end Chain

namespace Expander

variable {σ Mac : Type} (X : Expander (EStateM Error σ) Mac)

/-- A definition with macro decorators `n₁, …, nⱼ` (source order) and other decorators `o`
expands as the chain `nⱼ, …, n₁` of decorator applications at the definition's location: the
first is given the definition with decorators `o`, each later one what the one before gave,
and after a deletion no macro is called and the definition becomes no statement. -/
theorem visitStmt_decorator_chain (f d : Nat) (rec : Bool) (k : StmtKind) (l : Option Loc)
    (hmacros : k.decorators.filterMap (decoratorMacro? X.bindings) ≠ []) :
    let macros := k.decorators.filterMap (decoratorMacro? X.bindings)
    let others := k.decorators.filter fun e => (decoratorMacro? X.bindings e).isNone
    X.visitStmt (f + 2) d rec (.mk k l) =
      stmtsOf <$> macros.reverse.foldlM
        (chainStep fun name t => X.apply f d rec name .decorator t l none)
        (some (.stmts [.mk (k.withDecorators others) l])) := by
  intro macros others
  have hdec : decoratorInvocations X.bindings (.mk k l) ≠ [] := by
    rwa [decoratorInvocations_eq]
  have hwalk : X.visitStmt (f + 1 + 1) d rec (.mk k l) = X.expandDecorated (f + 1) d rec (.mk k l) :=
    visitStmt_of_decorated hdec
  rw [hwalk, expandDecorated_succ_eq, forIn_chain_eq_foldlM _ _ _ (fun _ => rfl) (fun _ _ => rfl),
    decoratorInvocations_eq, StmtKind.undecorated_eq, map_eq_bind_pure_comp]
  rfl

/-! ## Two decorator macros around a run-time decorator -/

/-- An expander whose macros `outer` and `inner` write their name down and give back what
they are handed. -/
def logging : Expander (EStateM Error (List String)) Unit where
  bindings := ⟨[("outer", ()), ("inner", ())]⟩
  filename := "t.trl"
  maxDepth := none
  isNameMacro _ := false
  invoke inv := do
    modify (· ++ [inv.name])
    pure (some inv.tree)

/-- `@outer @keep @inner def f(): pass`. -/
def keptBetween : StmtKind :=
  .functionDef "f" [] [.mk .pass none]
    [.mk (.name "outer") none, .mk (.name "keep") none, .mk (.name "inner") none]

theorem keptBetween_chain :
    keptBetween.decorators.filterMap (decoratorMacro? logging.bindings) ≠ [] ∧
    logging.visitStmt (4 + 2) 0 true (.mk keptBetween none) =
      stmtsOf <$> ["inner", "outer"].foldlM
        (chainStep fun name t => logging.apply 4 0 true name .decorator t none none)
        (some (.stmts [.mk (.functionDef "f" [] [.mk .pass none] [.mk (.name "keep") none]) none])) :=
  ⟨by decide, logging.visitStmt_decorator_chain 4 0 true keptBetween none (by decide)⟩

/-- The macro nearest the definition runs first, and `@keep` stays on the definition. -/
example : (logging.visitStmt 20 0 true (.mk keptBetween none)).run [] =
    .ok [.mk (.functionDef "f" [] [.mk .pass none] [.mk (.name "keep") none]) none]
      ["inner", "outer"] := by
  cbv

end Expander

end Espalier
