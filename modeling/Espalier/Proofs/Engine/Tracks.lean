import Espalier.Proofs.Engine.Respects
import Espalier.Engine.Api

/-!
# What every computation of the engine keeps

Two things about a session are only ever changed in one way. The fresh-name counter is only
raised, by `gensym`; the code cache only gets entries that the loader has just compiled, and
is only emptied as a whole. `Tracks R` lists what a relation `R` on sessions has to allow for
these writes: any change that leaves the counter and the cache alone, a fresh name, a
compilation stored under its file's key (`CompiledFrom`), and both caches dropped.

Main statement: `Tracks.engine`. For a preorder `R` with `Tracks R`, every function of the
engine, at every fuel, keeps to `R` on every run, whether it succeeds or fails. The proof is
one induction on the fuel: a function at fuel `f + 1` is binds, branches and loops over calls
at fuel `f` and over helpers; the helpers are unfolded down to their writes, except the few
that need an argument of their own: `gensym`, the call-depth guard, the loader's cache
(`Tracks.getCode`), the dependency times (`Tracks.pathXstats`), the builtins and the engine's
own macros.
-/

namespace Espalier

open Run

/-! ## Stored code -/

/-- The key the loader keeps a file's code under: its canonical path, or the path as given when
it does not resolve. -/
def cacheKey (fs : FileSystem) (path : String) : String :=
  (fs.canonicalize path).toOption.getD path

/-- Cached code `c` was stored under `key` by a compilation: from a session `s₀` in which
`path` has the key `key`, the dependency time of `path` came out as `c.mtime` (leaving `s₁`),
the file held `bytes`, and compiling them as module `name` gave `c.code`. -/
def CompiledFrom (key : String) (c : CachedCode) : Prop :=
  ∃ (f : Nat) (name path : String) (bytes : List UInt8) (s₀ s₁ s₂ : Session),
    cacheKey s₀.files path = key ∧
    (pathXstats (f + 1) path).run s₀ = .ok c.mtime s₁ ∧
    s₁.files.readBytes path = .ok bytes ∧
    (compileSource f (.bytes bytes) path (some name)).run s₁ = .ok c.code s₂

/-! ## Relations the engine keeps -/

/-- What a relation on sessions must allow for the engine to keep to it: a change that leaves
the fresh-name counter and the code cache alone, one fresh name, a compilation stored under its
key, and the dependency times and the code cache dropped together. -/
structure Tracks (R : Session → Session → Prop) : Prop where
  frame : ∀ s t : Session, t.gensyms = s.gensyms → t.codeCache = s.codeCache → R s t
  fresh : ∀ s : Session, R s { s with gensyms := s.gensyms + 1 }
  store : ∀ (s : Session) (key : String) (c : CachedCode), CompiledFrom key c →
    R s { s with codeCache := assocSet s.codeCache key c }
  forget : ∀ s : Session, R s { s with xstats := [], codeCache := [] }

variable {R : Session → Session → Prop}

theorem Tracks.gensym (hR : Tracks R) (base : String) : Respects R (Run.gensym base) :=
  ⟨fun s => hR.fresh s⟩

variable [IsPreorder Session R]

/-! ## Finding modules

The search for a module's file and the resolution of an import only read the session. -/

theorem Respects.findModule (name : String) : Respects R (Run.findModule name) := by
  unfold Run.findModule
  repeat
    first
    | with_reducible apply Respects.bind
    | intro _
    | with_reducible exact Respects.pure _
    | with_reducible exact Respects.get
    | with_reducible apply Respects.ite
    | with_reducible apply Respects.forIn
    | split
    | dsimp only

theorem Respects.findNamespaceDir (name : String) : Respects R (Run.findNamespaceDir name) := by
  unfold Run.findNamespaceDir
  repeat
    first
    | with_reducible apply Respects.bind
    | intro _
    | with_reducible exact Respects.pure _
    | with_reducible exact Respects.get
    | with_reducible apply Respects.ite
    | with_reducible apply Respects.forIn
    | split
    | dsimp only

theorem Respects.resolvePackage (filename : String) (loc : Option Loc) :
    Respects R (Run.resolvePackage filename loc) := by
  unfold Run.resolvePackage
  repeat
    first
    | with_reducible apply Respects.bind
    | intro _
    | with_reducible exact Respects.pure _
    | with_reducible exact Respects.throw _
    | with_reducible exact Respects.get
    | with_reducible apply Respects.ite
    | with_reducible apply Respects.forIn
    | split
    | dsimp only

theorem Respects.resolveImport (stmt : Stmt) (filename : String) (selfName : Option String)
    (allowAs : Bool) : Respects R (Run.resolveImport stmt filename selfName allowAs) := by
  unfold Run.resolveImport
  repeat
    first
    | with_reducible apply Respects.bind
    | intro _
    | with_reducible exact Respects.pure _
    | with_reducible exact Respects.throw _
    | with_reducible apply Respects.ite
    | exact Respects.resolvePackage _ _
    | split
    | dsimp only


/-- Namespace packages are made and registered in the store and the registry only. -/
theorem Tracks.ensureNamespace (hR : Tracks R) (name : String) :
    Respects R (Run.ensureNamespace name) := by
  simp only [Run.ensureNamespace, Run.registered?, Run.newModule, Run.registerChild, Run.register,
    Run.attachToParent, Run.setModuleVar,
    Run.store, Run.modifyStore, Run.module]
  repeat
    first
    | with_reducible apply Respects.bind
    | intro _
    | with_reducible exact Respects.pure _
    | with_reducible exact Respects.get
    | with_reducible apply Respects.ite
    | with_reducible apply Respects.forIn
    | (with_reducible apply Respects.modify; intro s; apply hR.frame <;> rfl)
    | split
    | dsimp only

/-- Scanning a file for its imports writes at most its side record. -/
theorem Tracks.depsRecord (hR : Tracks R) (path : String) : Respects R (Run.depsRecord path) := by
  simp only [Run.depsRecord, Run.fileMtime, Run.readText]
  repeat
    first
    | with_reducible apply Respects.bind
    | intro _
    | with_reducible exact Respects.pure _
    | with_reducible exact Respects.throw _
    | with_reducible exact Respects.get
    | with_reducible apply Respects.ite
    | (with_reducible apply Respects.modify; intro s; apply hR.frame <;> rfl)
    | split
    | dsimp only

theorem Tracks.dependencies (hR : Tracks R) (path : String) :
    Respects R (Run.dependencies path) := by
  unfold Run.dependencies
  repeat
    first
    | with_reducible apply Respects.bind
    | intro _
    | with_reducible exact Respects.pure _
    | with_reducible exact Respects.throw _
    | with_reducible apply Respects.ite
    | with_reducible apply Respects.forIn
    | exact hR.depsRecord _
    | exact Respects.resolvePackage _ _
    | exact Respects.findModule _
    | split
    | dsimp only

/-! ## Helpers with arguments of their own -/

theorem Respects.liftExcept {α : Type} (e : Except Error α) : Respects R (Run.liftExcept e) := by
  cases e with
  | ok a => exact Respects.pure a
  | error err => exact Respects.throw err

/-- The call-depth guard raises the depth, runs the body and lowers the depth again, also
when the body fails. -/
theorem Tracks.withCallDepth (hR : Tracks R) {α : Type} (name : String) {body : Run α}
    (hb : Respects R body) : Respects R (Run.withCallDepth name body) := by
  have hleave : Respects R (modify fun s : Session => { s with callDepth := s.callDepth - 1 }) :=
    Respects.modify fun _ => hR.frame _ _ rfl rfl
  have hrest := Respects.tryCatch (hb.bind fun r => hleave.bind fun _ => Respects.pure r)
    fun e => hleave.bind fun _ => (Respects.throw e : Respects R (throw e : Run α))
  refine ⟨fun s => ?_⟩
  unfold Run.withCallDepth
  simp only [EStateM.run_bind, EStateM.run_get]
  split
  · exact refl_of R s
  · rw [EStateM.run_bind, EStateM.run_set]
    exact trans_of R (hR.frame s { s with callDepth := s.callDepth + 1 } rfl rfl) (hrest.after _)

theorem Respects.sourceRounds {round : String → String → Run String}
    (h : ∀ line text, Respects R (round line text)) (n : Nat) (text : String)
    (seen : List String) : Respects R (sourceRounds round n text seen) := by
  induction n generalizing text seen with
  | zero => exact Respects.pure text
  | succ n ih =>
    rw [Run.sourceRounds]
    split
    · exact Respects.pure text
    · exact (h _ _).bind fun t => ih t _

theorem Respects.dialectLineRound {inst : Stmt → Run (List (DialectSpec Value))}
    {hook : DialectSpec Value → String → Run String} (hi : ∀ st, Respects R (inst st))
    (hh : ∀ d text, Respects R (hook d text)) (file line text : String) :
    Respects R (dialectLineRound inst hook file line text) := by
  unfold Run.dialectLineRound
  refine (Respects.liftExcept _).bind fun stmt => ?_
  split
  · exact Respects.pure text
  · exact (hi stmt).bind fun ds => Respects.foldlM ds text fun t d => hh d t

theorem Respects.astRounds {round : Nat → Module → Run (Module × List (DialectSpec Value))}
    (h : ∀ i m, Respects R (round i m)) (n : Nat) (m : Module)
    (applied : List (DialectSpec Value)) : Respects R (astRounds round n m applied) := by
  induction n generalizing m applied with
  | zero => exact Respects.pure _
  | succ n ih =>
    rw [Run.astRounds]
    split
    · exact Respects.pure _
    · exact (h _ _).bind fun r => ih r.1 _

theorem Respects.dialectImportRound {resolve : Stmt → Run ImportTarget}
    {inst : Stmt → Run (List (DialectSpec Value))} {hook : DialectSpec Value → Module → Run Module}
    (hr : ∀ st, Respects R (resolve st)) (hi : ∀ st, Respects R (inst st))
    (hh : ∀ d m, Respects R (hook d m)) (i : Nat) (m : Module) :
    Respects R (dialectImportRound resolve inst hook i m) := by
  unfold Run.dialectImportRound
  exact (hr _).bind fun _ => (hi _).bind fun ds =>
    (Respects.foldlM ds _ fun m d => hh d m).bind fun _ => Respects.pure _

/-- The dependency-time walk keeps to `R` when its readings do: besides them it only writes
the files in progress and the times it has found. -/
theorem Respects.xstatsWith (hR : Tracks R) {reads : DepsReads}
    (hc : ∀ p, Respects R (reads.canonical p)) (hm : ∀ p, Respects R (reads.mtime p))
    (hd : ∀ p, Respects R (reads.dependsOn p)) (f : Nat) :
    (∀ p, Respects R (xstatsWith reads f p)) ∧
      (∀ p, Respects R (computeXstatsWith reads f p)) := by
  induction f with
  | zero =>
    constructor <;> intro p <;> simp only [Run.xstatsWith, Run.computeXstatsWith] <;>
      exact Respects.throw _
  | succ f ih =>
    constructor <;> intro p
    · rw [Run.xstatsWith]
      repeat
        first
        | with_reducible apply Respects.bind
        | intro _
        | with_reducible exact Respects.pure _
        | with_reducible exact Respects.throw _
        | with_reducible exact Respects.get
        | with_reducible apply Respects.ite
        | with_reducible apply Respects.dite
        | split
        | with_reducible apply Respects.map
        | with_reducible apply Respects.tryCatch
        | (with_reducible apply Respects.modify; intro s; apply hR.frame <;> rfl)
        | exact hc _
        | exact ih.2 _
    · rw [Run.computeXstatsWith]
      exact (hm p).bind fun t => (hd p).bind fun ps =>
        (Respects.forIn ps _ fun q b => (ih.1 q).bind fun _ => Respects.pure _).bind
          fun _ => Respects.pure _

theorem Tracks.pathXstats (hR : Tracks R) (f : Nat) (path : String) :
    Respects R (pathXstats f path) := by
  refine (Respects.xstatsWith hR (fun p => ?_) (fun p => ?_) (fun p => ?_) f).1 path
  · simp only [filesReads]
    exact Respects.get.bind fun s => by
      split
      · exact Respects.pure _
      · exact Respects.throw _
  · simp only [filesReads, Run.fileMtime]
    exact Respects.get.bind fun s => by
      split
      · exact Respects.pure _
      · exact Respects.throw _
  · exact (hR.dependencies p).bind fun _ => Respects.pure _

theorem Tracks.callBuiltin (hR : Tracks R) (b : Builtin) (args : List Value) :
    Respects R (callBuiltin b args) := by
  unfold Run.callBuiltin
  simp only [Run.display, Run.repr, Run.emit, Run.store, Run.modifyStore, Run.listItems,
    Run.setListItems, Run.newList, Run.freshFunctionId, Run.expectArity, Run.strArg,
    Run.treeArg, Run.hookArg, Run.exprArg, Run.exprListArg, Run.exprsValue, Run.namesValue,
    Run.exprField, Run.stmtField]
  repeat
    first
    | with_reducible apply Respects.bind
    | intro _
    | with_reducible exact Respects.pure _
    | with_reducible exact Respects.throw _
    | with_reducible exact Respects.get
    | with_reducible apply Respects.ite
    | with_reducible apply Respects.dite
    | split
    | with_reducible apply Respects.map
    | with_reducible apply Respects.mapM
    | (with_reducible apply Respects.modify; intro s; apply hR.frame <;> (first | rfl | (split <;> rfl)))
    | with_reducible exact Respects.liftExcept _
    | exact hR.gensym _
    | dsimp only
    | simp only [Run.display, Run.store, Run.exprArg]

/-- The engine's macros keep to `R` when the expanders they are handed do. -/
theorem Tracks.engineMacro (hR : Tracks R) (m : EngineMacro) {inv : Invocation Run MacroRef}
    (hexp : ∀ t, Respects R (inv.expand t)) (honce : ∀ t, Respects R (inv.expandOnce t)) :
    Respects R (engineMacro m inv) := by
  unfold Run.engineMacro
  split
  all_goals
    simp only [Run.stepExpansion, Run.showBindings, Run.sampleMacro, Run.emit, Run.config]
    repeat
      first
      | with_reducible apply Respects.bind
      | intro _
      | with_reducible exact Respects.pure _
      | with_reducible exact Respects.throw _
      | with_reducible exact Respects.get
      | with_reducible apply Respects.ite
      | with_reducible apply Respects.dite
      | split
      | with_reducible apply Respects.map
      | with_reducible apply Respects.forIn
      | with_reducible apply Respects.forIn_range
      | (with_reducible apply Respects.modify; intro s; apply hR.frame <;> (first | rfl | (split <;> rfl)))
      | exact hR.gensym _
      | exact hexp _
      | exact honce _
      | dsimp only

/-! ## The loader's cache -/

namespace Run

/-- What the loader does on a cache miss: read the file, compile it as module `name`, and keep
the code under `key` with dependency time `mtime`. -/
def compileAndStore (f : Nat) (name path key : String) (mtime : Nat) : Run CodeObject := do
  let bytes ← match (← get).files.readBytes path with
    | .ok bs => pure bs
    | .error e => throw (.plain .ioError ("cannot read " ++ path ++ ": " ++ e))
  let code ← compileSource f (.bytes bytes) path (some name)
  modify fun s => { s with codeCache := assocSet s.codeCache key ⟨mtime, code⟩ }
  pure code

end Run

/-- A miss stores what it compiled: the key and time come from the session the call began in,
and the code from the compilation run on the bytes read then. -/
theorem Tracks.compileAndStore {f : Nat} (hR : Tracks R)
    (hc : ∀ src file self, Respects R (Run.compileSource f src file self)) {name path : String}
    {s s₁ : Session} {mtime : Nat} (hrun : (Run.pathXstats (f + 1) path).run s = .ok mtime s₁) :
    R s₁ (stateAfter ((Run.compileAndStore f name path (cacheKey s.files path) mtime).run s₁)) := by
  unfold Run.compileAndStore
  simp only [EStateM.run_bind, EStateM.run_get]
  split
  next bytes hbytes =>
    simp only [EStateM.run_bind, EStateM.run_pure]
    have hcs := (hc (.bytes bytes) path (some name)).after s₁
    cases hcode : (Run.compileSource f (.bytes bytes) path (some name)).run s₁ with
    | error e s₂ =>
      rw [hcode] at hcs
      exact hcs
    | ok code s₂ =>
      rw [hcode] at hcs
      simp only [EStateM.run_modify, stateAfter_ok]
      exact trans_of R hcs
        (hR.store s₂ _ ⟨mtime, code⟩ ⟨f, name, path, bytes, s, s₁, s₂, rfl, hrun, hbytes, hcode⟩)
  next => exact refl_of R s₁

theorem Tracks.getCode {f : Nat} (hR : Tracks R)
    (hc : ∀ src file self, Respects R (Run.compileSource f src file self)) (name path : String) :
    Respects R (Run.getCode (f + 1) name path) := by
  refine ⟨fun s => ?_⟩
  have hxs := (hR.pathXstats (f + 1) path).after s
  rw [Run.getCode]
  simp only [EStateM.run_bind, EStateM.run_get]
  cases hrun : (Run.pathXstats (f + 1) path).run s with
  | error e s₁ =>
    rw [hrun] at hxs
    exact hxs
  | ok mtime s₁ =>
    rw [hrun] at hxs
    refine trans_of R hxs ?_
    have hmiss : R s₁ (stateAfter
        ((Run.compileAndStore f name path (cacheKey s.files path) mtime).run s₁)) :=
      hR.compileAndStore hc hrun
    dsimp only
    -- a hit returns the cached code from where the time was found; all else is a miss
    split
    · split
      · exact refl_of R s₁
      · exact hmiss
    · exact hmiss

/-! ## The engine -/

/-- At fuel `f`, every function of the engine keeps to `R`; a macro call does whenever the
expanders handed to the macro do. -/
structure EngineRespects (R : Session → Session → Prop) (f : Nat) : Prop where
  execBody : ∀ sc fr body, Respects R (execBody f sc fr body)
  execStmt : ∀ sc fr st, Respects R (execStmt f sc fr st)
  decorate : ∀ sc fr v ds loc, Respects R (decorate f sc fr v ds loc)
  assign : ∀ sc fr t v, Respects R (assign f sc fr t v)
  eval : ∀ sc fr e, Respects R (eval f sc fr e)
  callValue : ∀ v args, Respects R (callValue f v args)
  callFunction : ∀ c args, Respects R (callFunction f c args)
  execCode : ∀ code r, Respects R (execCode f code r)
  importModule : ∀ n reload, Respects R (importModule f n reload)
  loadModule : ∀ n path, Respects R (loadModule f n path)
  getCode : ∀ n path, Respects R (getCode f n path)
  compileSource : ∀ src file self, Respects R (compileSource f src file self)
  expandSource : ∀ src file self, Respects R (expandSource f src file self)
  parseTransformed : ∀ text file self, Respects R (parseTransformed f text file self)
  transformSource : ∀ text file self, Respects R (transformSource f text file self)
  instantiate : ∀ st file self, Respects R (instantiate f st file self)
  applySourceHook : ∀ d text file, Respects R (applySourceHook f d text file)
  applyTreeHook : ∀ d hook m file, Respects R (applyTreeHook f d hook m file)
  transformAst : ∀ m file self, Respects R (transformAst f m file self)
  findMacros : ∀ m file self reload, Respects R (findMacros f m file self reload)
  invokeMacro : ∀ inv : Invocation Run MacroRef, (∀ t, Respects R (inv.expand t)) →
    (∀ t, Respects R (inv.expandOnce t)) → Respects R (invokeMacro f inv)
  expandMacros : ∀ m bindings file, Respects R (expandMacros f m bindings file)
  singlephaseExpand : ∀ m file self, Respects R (singlephaseExpand f m file self)
  multiphaseExpand : ∀ m file self, Respects R (multiphaseExpand f m file self)



set_option linter.unusedSimpArgs false in
theorem Tracks.engine (hR : Tracks R) (f : Nat) : EngineRespects R f := by
  induction f with
  | zero =>
    constructor <;> intros <;>
      simp only [Run.execBody, Run.execStmt, Run.decorate, Run.assign, Run.eval, Run.callValue,
        Run.callFunction, Run.execCode, Run.importModule, Run.loadModule, Run.getCode,
        Run.compileSource, Run.expandSource, Run.parseTransformed, Run.transformSource,
        Run.instantiate, Run.applySourceHook, Run.applyTreeHook, Run.transformAst, Run.findMacros,
        Run.invokeMacro, Run.expandMacros, Run.singlephaseExpand, Run.multiphaseExpand] <;>
      exact Respects.throw _
  | succ f ih =>
    -- the expanders a module expansion builds call the macros at fuel `f`
    have hexpand : ∀ (X : Expander Run MacroRef) (m : Module), X.invoke = invokeMacro f →
        Respects R (X.expandModule f m) := by
      intro X m hX
      refine Expander.expandModule_respects (fun inv hexp honce => ?_) f m
      rw [hX]
      exact ih.invokeMacro inv hexp honce
    obtain ⟨h₁, h₂, h₃, h₄, h₅, h₆, h₇, h₈, h₉, h₁₀, h₁₁, h₁₂, h₁₃, h₁₄, h₁₅, h₁₆, h₁₇, h₁₈, h₁₉,
      h₂₀, -, h₂₂, h₂₃, h₂₄⟩ := ih
    have hres : ∀ st file self b, Respects R (Run.resolveImport st file self b) :=
      Respects.resolveImport
    have hfind : ∀ n, Respects R (Run.findModule n) := Respects.findModule
    have hns : ∀ n, Respects R (Run.findNamespaceDir n) := Respects.findNamespaceDir
    have hensure : ∀ n, Respects R (Run.ensureNamespace n) := hR.ensureNamespace
    have hbuiltin : ∀ b args, Respects R (Run.callBuiltin b args) := hR.callBuiltin
    refine ⟨fun sc fr body => ?execBody, fun sc fr st => ?execStmt,
      fun sc fr v ds loc => ?decorate, fun sc fr t v => ?assign, fun sc fr e => ?eval,
      fun v args => ?callValue, fun c args => ?callFunction, fun code r => ?execCode,
      fun n reload => ?importModule, fun n path => ?loadModule,
      fun n path => hR.getCode h₁₂ n path,
      fun src file self => ?compileSource, fun src file self => ?expandSource,
      fun text file self => ?parseTransformed, fun text file self => ?transformSource,
      fun st file self => ?instantiate, fun d text file => ?applySourceHook,
      fun d hook m file => ?applyTreeHook, fun m file self => ?transformAst,
      fun m file self reload => ?findMacros, fun inv hexp honce => ?invokeMacro,
      fun m bindings file => ?expandMacros, fun m file self => ?singlephaseExpand,
      fun m file self => ?multiphaseExpand⟩
    -- each function at fuel `f + 1` is opened once; its calls are at fuel `f`
    case' execBody => rw [Run.execBody.eq_def]
    case' execStmt => obtain ⟨k, loc⟩ := st; rw [Run.execStmt.eq_def]; cases k
    case' decorate => rw [Run.decorate.eq_def]
    case' assign => obtain ⟨k, loc⟩ := t; rw [Run.assign.eq_def]; cases k
    case' eval => obtain ⟨k, loc⟩ := e; rw [Run.eval.eq_def]; cases k
    case' callValue => rw [Run.callValue.eq_def]
    case' callFunction => rw [Run.callFunction.eq_def]
    case' execCode => rw [Run.execCode.eq_def]
    case' importModule => rw [Run.importModule.eq_def]
    case' loadModule => rw [Run.loadModule.eq_def]
    case' compileSource => rw [Run.compileSource.eq_def]
    case' expandSource => rw [Run.expandSource.eq_def]
    case' parseTransformed => rw [Run.parseTransformed.eq_def]
    case' transformSource => rw [Run.transformSource.eq_def]
    case' instantiate => rw [Run.instantiate.eq_def]
    case' applySourceHook => rw [Run.applySourceHook.eq_def]
    case' applyTreeHook => rw [Run.applyTreeHook.eq_def]
    case' transformAst => rw [Run.transformAst.eq_def]
    case' findMacros => rw [Run.findMacros.eq_def]
    case' invokeMacro => rw [Run.invokeMacro.eq_def]
    case' expandMacros => rw [Run.expandMacros.eq_def]
    case' singlephaseExpand => rw [Run.singlephaseExpand.eq_def]
    case' multiphaseExpand => rw [Run.multiphaseExpand.eq_def]
    all_goals
      dsimp -zeta only
      -- the helpers below the engine's own functions only write what the frame allows
      try simp -zeta only [Run.locating, Run.mapError, Run.lookup, Run.bindName, Run.iterate,
        Run.subscriptValue, Run.binary, Run.eqv, Run.truthy, Run.display, Run.toTree?, Run.config,
        Run.store, Run.modifyStore, Run.newList, Run.listItems, Run.setListItems,
        Run.freshFunctionId, Run.module, Run.moduleVar?, Run.setModuleVar, Run.setModuleDoc,
        Run.newModule, Run.classAttr?, Run.setClassAttr, Run.newClass, Run.registered?,
        Run.register, Run.unregister, Run.attachToParent, Run.registerChild]
      -- take each body apart along its binds and branches; a join point of a `do` block is
      -- proved once and then used at each jump, so the code after a branch is not copied
      repeat
        first
        | with_reducible apply Respects.bind
        | ((try lift_lets); intro jp; guard_hyp jp : _ → _ := _;
            refine Respects.joinPoint R jp (fun a => ?_) (fun hjp => ?_); simp -zeta only [jp])
        | ((try lift_lets); intro x; simp -zeta only [x])
        | intro _
        | with_reducible exact Respects.pure _
        | with_reducible exact Respects.throw _
        | with_reducible exact Respects.get
        | with_reducible apply Respects.ite
        | with_reducible apply Respects.dite
        | with_reducible apply Respects.map
        | with_reducible apply Respects.tryCatch
        | with_reducible apply Respects.forIn
        | with_reducible apply Respects.forIn_range
        | with_reducible apply Respects.mapM
        | (with_reducible apply Respects.modify; intro s; apply hR.frame <;> rfl)
        | with_reducible exact Respects.liftExcept _
        | with_reducible apply_assumption -exfalso -symm
        -- a join point that ignores its unit argument leaves that argument open
        | exact ()
        | ((with_reducible apply hR.engineMacro) <;> assumption)
        | with_reducible apply hR.withCallDepth
        | with_reducible apply Respects.sourceRounds
        | with_reducible apply Respects.dialectLineRound
        | with_reducible apply Respects.astRounds
        | with_reducible apply Respects.dialectImportRound
        | split
        | dsimp -zeta only

end Espalier
