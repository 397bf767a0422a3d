import Espalier.Proofs.Engine.ImportReentry
import Espalier.Proofs.Import.DependencyTime

/-!
# What a failed import leaves behind

The loader registers a module before running its code, so that imports made by that code see
it, and takes the entry out again when the code fails; only an import that succeeds binds the
module in its parent package. Main statement, `failed_import_leaves_entry`: when no code run
on the way writes them itself, a failed import of `n` leaves `n`'s registry entry and its
parent's attribute for `n` as they were, except after a reload whose new code fails, which
leaves no entry at all (`failed_reload_drops_module`): the module registered before the
reload is gone with the new one.

Code run during an import can write both, by design: the parent package's code may import
`n` itself, compiling `n` runs macro and dialect modules, and `n`'s own code may set the
parent's attribute. The statement therefore asks the parent to be registered already (so
that importing it runs nothing) and the compilation of `n` and the run of its code to leave
the entry and the attribute alone; the import's own steps then do the rest.

The steps are taken apart once. `ReadsOnly`, `Oblivious` and `Succeeds` say which steps
cannot change the session, which do not even read it, and which cannot fail; the search for a
module reads only the configuration and which paths name files (`findModule_run_of_search`),
and resolving a path only where the files are (`FileSystem.locate_eq_of_paths`).
`importModule_run_error` finds, for a failing import whose parent is
registered, that the rest of the import (`importFresh`) failed from the same session;
`importFresh_run_error` that it found nothing or the load failed; and `loadModule_run`
spells out a load: compile, add and register a module (`withLoaded`), run its code, and on
failure take the entry out.
-/

namespace Espalier

/-! ## Adding a module -/

@[simp] theorem ModuleObject.name_fresh (n : String) (file : Option String) (package : String) :
    (ModuleObject.fresh n file package).name = n := rfl

@[simp] theorem Store.module_newModule_size (st : Store) (m : ModuleObject) :
    (st.newModule m).1.module st.modules.size = m := by
  simp [Store.newModule, Store.module]

theorem Store.module_newModule_of_lt (st : Store) (m : ModuleObject) {p : Nat}
    (hp : p < st.modules.size) : (st.newModule m).1.module p = st.module p := by
  simp [Store.newModule, Store.module, Array.getElem?_push_lt hp, Array.getElem?_eq_getElem hp]

/-- The session once the loader has added a module for `n` from the file at `path` and
registered it under `n`; the module's reference is the store's old size. -/
def Session.withLoaded (t : Session) (n path : String) : Session :=
  { t with
    store := (t.store.newModule
      (.fresh n (some path) (if fileStem? path = some "__init__" then n else parentName n))).1,
    registry := assocSet t.registry n t.store.modules.size }

/-! ## Steps that only read, and steps that cannot fail -/

namespace Run

/-- A computation that only reads the session: from every session it succeeds and leaves
the session as it was. -/
def ReadsOnly {α : Type} (x : Run α) : Prop := ∀ s, ∃ a, x.run s = .ok a s

/-- A computation that does not even read the session: it gives one value from every session
and leaves the session as it was. -/
def Oblivious {α : Type} (x : Run α) : Prop := ∃ a, ∀ s, x.run s = .ok a s

namespace Oblivious

variable {α β : Type}

protected theorem pure (a : α) : Oblivious (pure a : Run α) := ⟨a, fun _ => rfl⟩

protected theorem bind {x : Run α} {k : α → Run β} (hx : Oblivious x)
    (hk : ∀ a, Oblivious (k a)) : Oblivious (x >>= k) := by
  obtain ⟨a, ha⟩ := hx
  obtain ⟨b, hb⟩ := hk a
  exact ⟨b, fun s => by rw [EStateM.run_bind, ha]; exact hb s⟩

/-- A loop whose every round is oblivious is oblivious. -/
protected theorem forIn (xs : List α) (b : β) {body : α → β → Run (ForInStep β)}
    (hbody : ∀ a b, Oblivious (body a b)) : Oblivious (forIn xs b body) := by
  induction xs generalizing b with
  | nil => exact Oblivious.pure b
  | cons a as ih =>
    rw [List.forIn_cons]
    refine (hbody a b).bind fun r => ?_
    cases r with
    | done b' => exact Oblivious.pure b'
    | yield b' => exact ih b'

/-- An oblivious computation gives the same value from any two sessions. -/
theorem run_pair {x : Run α} (hx : Oblivious x) (s t : Session) :
    ∃ a, x.run s = .ok a s ∧ x.run t = .ok a t := by
  obtain ⟨a, ha⟩ := hx
  exact ⟨a, ha s, ha t⟩

end Oblivious

theorem run_get_bind {β : Type} (k : Session → Run β) (s : Session) :
    (get >>= k).run s = (k s).run s := rfl

/-- Reading the session once and going on obliviously only reads it. -/
theorem ReadsOnly.get_bind {β : Type} {k : Session → Run β} (hk : ∀ st, Oblivious (k st)) :
    ReadsOnly (get >>= k) := by
  intro s
  obtain ⟨b, hb⟩ := hk s
  exact ⟨b, by rw [run_get_bind]; exact hb s⟩

theorem registered?_reads (n : String) : ReadsOnly (registered? n) := fun _ => ⟨_, rfl⟩

/-- The search for a module reads only the configuration and which paths name files: two
sessions that agree on these find the same file. -/
theorem findModule_run_of_search (n : String) (s t : Session) (hc : t.config = s.config)
    (hf : t.files.isFile = s.files.isFile) :
    ∃ o, (findModule n).run s = .ok o s ∧ (findModule n).run t = .ok o t := by
  unfold findModule
  rw [run_get_bind, run_get_bind]
  dsimp only
  rw [hc, hf]
  refine Oblivious.run_pair ?_ s t
  split
  · exact Oblivious.pure _
  · refine (Oblivious.forIn _ _ fun root acc => ?_).bind fun r => ?_
    · split
      · exact Oblivious.pure _
      · split <;> exact Oblivious.pure _
    · split <;> exact Oblivious.pure _

theorem findModule_reads (n : String) : ReadsOnly (findModule n) := fun s =>
  (findModule_run_of_search n s s rfl rfl).imp fun _ h => h.1

theorem findNamespaceDir_reads (n : String) : ReadsOnly (findNamespaceDir n) := by
  unfold findNamespaceDir
  refine ReadsOnly.get_bind fun st => ?_
  refine (Oblivious.forIn _ _ fun root acc => ?_).bind fun r => ?_
  · dsimp only
    split <;> exact Oblivious.pure _
  · dsimp only
    split <;> exact Oblivious.pure _

variable {s s' : Session} {e : Error} {n : String} {f : Nat}

/-- A registered module is imported as it is. -/
theorem importModule_run_of_registered {r : Nat} (hr : s.registry.lookup n = some r) :
    (importModule (f + 1) n false).run s = .ok r s := by
  simp [importModule, registered?, hr, Run.module, store]

/-- A computation that succeeds from every session. -/
def Succeeds {α : Type} (x : Run α) : Prop := ∀ s, ∃ a t, x.run s = .ok a t

namespace Succeeds

variable {α β : Type}

protected theorem pure (a : α) : Succeeds (pure a : Run α) := fun s => ⟨a, s, rfl⟩

protected theorem modify (g : Session → Session) : Succeeds (modify g : Run PUnit) :=
  fun s => ⟨_, g s, rfl⟩

protected theorem bind {x : Run α} {k : α → Run β} (hx : Succeeds x)
    (hk : ∀ a, Succeeds (k a)) : Succeeds (x >>= k) := by
  intro s
  obtain ⟨a, t, ha⟩ := hx s
  obtain ⟨b, t', hb⟩ := hk a t
  exact ⟨b, t', by rw [EStateM.run_bind, ha]; exact hb⟩

protected theorem map {x : Run α} (hx : Succeeds x) (g : α → β) : Succeeds (g <$> x) := by
  rw [← bind_pure_comp]
  exact hx.bind fun a => Succeeds.pure (g a)

theorem of_reads {x : Run α} (hx : ReadsOnly x) : Succeeds x := fun s =>
  let ⟨a, ha⟩ := hx s
  ⟨a, s, ha⟩

theorem run_ne_error {x : Run α} (hx : Succeeds x) (s : Session) (e : Error) (s' : Session) :
    x.run s ≠ .error e s' := by
  obtain ⟨a, t, ha⟩ := hx s
  rw [ha]
  intro h
  cases h

end Succeeds

/-- A failure after a step that cannot fail is the failure of what came before it. -/
theorem run_bind_error_of_succeeds {α β : Type} {x : Run α} {k : α → Run β}
    (hk : ∀ a, Succeeds (k a)) (h : (x >>= k).run s = .error e s') : x.run s = .error e s' := by
  rw [EStateM.run_bind] at h
  split at h
  · rename_i a t _
    exact absurd h ((hk a).run_ne_error t e s')
  · rename_i e' t hx
    cases h
    exact hx

theorem newModule_succeeds (m : ModuleObject) : Succeeds (newModule m) := by
  unfold newModule
  exact (Succeeds.of_reads fun s => ⟨_, rfl⟩).bind fun _ =>
    (Succeeds.modify _).bind fun _ => Succeeds.pure _

theorem module_reads (r : Nat) : ReadsOnly (Run.module r) := fun _ => ⟨_, rfl⟩

theorem attachToParent_succeeds (r : Nat) : Succeeds (attachToParent r) := by
  unfold attachToParent
  refine (Succeeds.of_reads (module_reads r)).bind fun m => ?_
  split
  · refine (Succeeds.of_reads (registered?_reads _)).bind fun p => ?_
    split
    · exact Succeeds.modify _
    · exact Succeeds.pure ()
  · exact Succeeds.pure ()

theorem registerChild_succeeds (r : Nat) : Succeeds (registerChild r) :=
  ((Succeeds.of_reads (module_reads r)).bind fun _ => Succeeds.modify _).bind fun _ =>
    attachToParent_succeeds r

/-- The part of an import that runs once no registered module answers: a built-in module,
a file, or a directory standing for a package. -/
def importFresh (f : Nat) (name : String) : Run Nat := do
  if let some m := engineModule? name then
    let r ← newModule m
    registerChild r
    return r
  if let some path ← findModule name then
    let r ← loadModule f name path
    attachToParent r
    return r
  if (← findNamespaceDir name).isSome then
    let r ← newModule (.namespacePackage name)
    registerChild r
    return r
  throw (.plain .importError ("no module named '" ++ name ++ "'"))

theorem importModule_succ (f : Nat) (name : String) (reload : Bool) :
    importModule (f + 1) name reload = (do
      if let some r ← registered? name then
        if !reload || (← Run.module r).file.isNone || isEngineModule name then return r
      if let some (parent, _) := splitLast? name then
        let _ ← importModule f parent false
        if !reload then
          if let some r ← registered? name then return r
      importFresh f name) := by
  rw [importModule]
  rfl

theorem importFresh_run_error (h : (importFresh f n).run s = .error e s') :
    s' = s ∨ ∃ path, (findModule n).run s = .ok (some path) s ∧
      (loadModule f n path).run s = .error e s' := by
  obtain ⟨found, hfound⟩ := findModule_reads n s
  obtain ⟨dir, hdir⟩ := findNamespaceDir_reads n s
  unfold importFresh at h
  cases heng : engineModule? n with
  | some m =>
    simp only [heng] at h
    exact absurd h (((newModule_succeeds m).bind fun r =>
      (registerChild_succeeds r).bind fun _ => Succeeds.pure r).run_ne_error s e s')
  | none =>
    simp only [heng, EStateM.run_bind, hfound] at h
    cases found with
    | some path =>
      exact .inr ⟨path, hfound, run_bind_error_of_succeeds
        (fun r => (attachToParent_succeeds r).bind fun _ => Succeeds.pure r) h⟩
    | none =>
      simp only [EStateM.run_bind, hdir] at h
      split at h
      · exact absurd h (((newModule_succeeds _).bind fun r =>
          (registerChild_succeeds r).bind fun _ => Succeeds.pure r).run_ne_error s e s')
      · -- nothing found: the error is raised in the session the import started from
        cases h
        exact .inl rfl

/-- With `n`'s parent package registered, an import of `n` that fails has found no
registered module to answer: it was a reload or `n` was not registered, and the rest of
the import failed from the session it started from. -/
theorem importModule_run_error {reload : Bool}
    (hparent : ∀ parent child, splitLast? n = some (parent, child) →
      (s.registry.lookup parent).isSome)
    (h : (importModule (f + 2) n reload).run s = .error e s') :
    (reload = true ∨ s.registry.lookup n = none) ∧
      (importFresh (f + 1) n).run s = .error e s' := by
  -- the parent's import answers at once, from the session it started from
  have hpar : ∀ parent child, splitLast? n = some (parent, child) →
      ∃ p, (importModule (f + 1) parent false).run s = .ok p s := fun parent child hsplit =>
    (Option.isSome_iff_exists.mp (hparent parent child hsplit)).imp fun _ hp =>
      importModule_run_of_registered hp
  rw [importModule_succ] at h
  cases reload with
  | false =>
    -- a plain import of a registered module answers with it
    have hreg : s.registry.lookup n = none := by
      cases hr : s.registry.lookup n with
      | none => rfl
      | some r => simp [registered?, hr, Run.module, store] at h
    refine ⟨.inr hreg, ?_⟩
    cases hsplit : splitLast? n with
    | none => simpa [registered?, hsplit, hreg] using h
    | some pc =>
      obtain ⟨p, hp⟩ := hpar pc.1 pc.2 hsplit
      simpa [registered?, hsplit, hreg, hp] using h
  | true =>
    refine ⟨.inl rfl, ?_⟩
    -- a registered module is passed by, unless it has no file or is built in
    have hpass : ∀ {x : Run Nat} (r : Nat),
        (if (s.store.module r).file = none ∨ isEngineModule n = true then pure r else x).run s =
          .error e s' → x.run s = .error e s' := by
      intro x r hx
      split at hx
      · cases hx
      · exact hx
    cases hsplit : splitLast? n with
    | none =>
      cases hr : s.registry.lookup n with
      | none => simpa [registered?, hsplit, hr] using h
      | some r =>
        simp [registered?, hsplit, hr, Run.module, store] at h
        exact hpass r h
    | some pc =>
      obtain ⟨p, hp⟩ := hpar pc.1 pc.2 hsplit
      cases hr : s.registry.lookup n with
      | none => simpa [registered?, hsplit, hr, hp] using h
      | some r =>
        simp [registered?, hsplit, hr, Run.module, store] at h
        simpa [hp] using hpass r h

theorem newModule_run (m : ModuleObject) (t : Session) :
    (newModule m).run t = .ok t.store.modules.size { t with store := (t.store.newModule m).1 } :=
  rfl

theorem register_run (r : Nat) (t : Session) :
    (register r).run t =
      .ok () { t with registry := assocSet t.registry (t.store.module r).name r } :=
  rfl

theorem unregister_run (t : Session) :
    (unregister n).run t = .ok () { t with registry := t.registry.filter (·.1 != n) } := rfl

/-- Adding the module for `n` and registering it reaches `withLoaded`. -/
theorem newModule_register_run {α : Type} (path : String) (k : Nat → Run α) (t : Session) :
    (do
      let r ← newModule
        (.fresh n (some path) (if fileStem? path = some "__init__" then n else parentName n))
      register r
      k r).run t = (k t.store.modules.size).run (t.withLoaded n path) := by
  simp only [EStateM.run_bind, newModule_run, register_run, Store.module_newModule_size,
    ModuleObject.name_fresh]
  rfl

/-- Loading compiles the file, then runs its code in a new module registered under `n`;
when the code fails, the entry is taken out again. -/
theorem loadModule_run (path : String) (s : Session) :
    (loadModule (f + 1) n path).run s =
      match (getCode f n path).run s with
      | .ok code t =>
        match (execCode f code t.store.modules.size).run (t.withLoaded n path) with
        | .ok _ t₂ => .ok t.store.modules.size t₂
        | .error e t₂ => .error e { t₂ with registry := t₂.registry.filter (·.1 != n) }
      | .error e t => .error e t := by
  unfold loadModule
  rw [EStateM.run_bind]
  cases (getCode f n path).run s with
  | error => rfl
  | ok code t =>
    dsimp only
    rw [newModule_register_run]
    cases hx : (execCode f code t.store.modules.size).run (t.withLoaded n path) <;>
      simp only [EStateM.run_bind, EStateM.run_tryCatch, hx] <;> rfl

theorem loadModule_run_error {path : String} (h : (loadModule (f + 1) n path).run s = .error e s') :
    (getCode f n path).run s = .error e s' ∨
    ∃ code t t₂, (getCode f n path).run s = .ok code t ∧
      (execCode f code t.store.modules.size).run (t.withLoaded n path) = .error e t₂ ∧
      s' = { t₂ with registry := t₂.registry.filter (·.1 != n) } := by
  rw [loadModule_run] at h
  cases hg : (getCode f n path).run s with
  | error e' t =>
    rw [hg] at h
    cases h
    exact .inl rfl
  | ok code t =>
    rw [hg] at h
    dsimp only at h
    cases hx : (execCode f code t.store.modules.size).run (t.withLoaded n path) with
    | ok _ t₂ => rw [hx] at h; cases h
    | error e' t₂ =>
      rw [hx] at h
      cases h
      exact .inr ⟨code, t, t₂, rfl, hx, rfl⟩

variable {sc : Scope} {fr : Frame} {t t' : Session}

theorem eval_run_const (c : Constant) (loc : Option Loc) :
    (eval (f + 1) sc fr (.mk (.const c) loc)).run t = .ok (.ofConstant c) t := by
  rw [eval]
  rfl

/-- `assert test` with a false test fails at the statement. -/
theorem execStmt_run_assertion_false {test : Expr} {loc : Option Loc}
    (htest : (eval f sc fr test).run t = .ok (.bool false) t) :
    (execStmt (f + 1) sc fr (.mk (.assertion test none) loc)).run t =
      .error (.atLoc .evalError sc.filename loc "assertion failed") t := by
  rw [execStmt]
  dsimp only
  simp only [EStateM.run_bind, htest]
  rfl

/-- A statement that fails fails the statements it begins. -/
theorem execBody_run_cons_error {st : Stmt} {rest : List Stmt}
    (h : (execStmt f sc fr st).run t = .error e t') :
    (execBody (f + 1) sc fr (st :: rest)).run t = .error e t' := by
  rw [execBody]
  simp only [List.forIn_cons, EStateM.run_bind, h]

theorem execCode_run_of_body_fails (code : CodeObject) (r : Nat)
    (h : ∀ sc t, ∃ e t', (execBody f sc none code.body).run t = .error e t') :
    ∃ e t', (execCode (f + 1) code r).run t = .error e t' := by
  rw [execCode]
  simp only [EStateM.run_bind]
  obtain ⟨_, t₁, hdoc⟩ : ∃ u t₁, (setModuleDoc r code.docstring).run t = .ok u t₁ :=
    ⟨_, _, rfl⟩
  obtain ⟨m, hm⟩ := module_reads r t₁
  obtain ⟨e, t', hbody⟩ := h { globals := r, filename := m.filename } t₁
  rw [hdoc]
  dsimp only
  rw [hm]
  dsimp only
  rw [hbody]
  exact ⟨e, t', rfl⟩

/-- Code cached at the file's dependency time is used as it is. -/
theorem getCode_run_of_cached {path c : String} {t : Nat} {code : CodeObject}
    (hc : s.files.canonicalize path = .ok c) (ht : s.xstats.lookup c = some t)
    (hcache : s.codeCache.lookup c = some ⟨t, code⟩) :
    (getCode (f + 1) n path).run s = .ok code s := by
  have hknown := pathXstats_run_of_known (f := f) hc ht
  rw [getCode]
  simp only [EStateM.run_bind, EStateM.run_get]
  -- the cache key is rewritten by `rw`: through `simp` its proof takes the kernel seconds
  rw [hc]
  simp only [Except.toOption, Option.getD, hknown, hcache, if_true, EStateM.run_pure]

/-- A reload of a registered top-level module found as a file loads the file again, and
fails as the load fails. -/
theorem importModule_run_of_reload {r : Nat} {path : String} (hreg : s.registry.lookup n = some r)
    (hfile : (s.store.module r).file ≠ none) (heng : isEngineModule n = false)
    (htop : splitLast? n = none) (hbuilt : engineModule? n = none)
    (hfind : (findModule n).run s = .ok (some path) s)
    (hload : (loadModule (f + 1) n path).run s = .error e s') :
    (importModule (f + 2) n true).run s = .error e s' := by
  rw [importModule_succ]
  simp [registered?, hreg, hfile, heng, htop, Run.module, store, importFresh, hbuilt, hfind, hload]

end Run

/-! ## What a failed import leaves behind -/

/-- The module registered as `n`'s parent package, with `n`'s last component: the attribute
under which a loaded `n` is bound in its parent. -/
def Session.parentSlot (s : Session) (n : String) : Option (Nat × String) :=
  (splitLast? n).bind fun (parent, child) => (s.registry.lookup parent).map (·, child)

/-- What the module of a slot holds under the slot's name. -/
def Session.slotAttr (t : Session) : Option (Nat × String) → Option Value
  | some (p, child) => getVar? (t.store.module p).vars child
  | none => none

/-- A run from `t` to `t'` leaves module `n`'s registry entry and the attribute at `slot`
alone, and only adds modules to the store. -/
structure LeavesEntry (n : String) (slot : Option (Nat × String)) (t t' : Session) : Prop where
  entry : t'.registry.lookup n = t.registry.lookup n
  attr : t'.slotAttr slot = t.slotAttr slot
  grows : t.store.modules.size ≤ t'.store.modules.size

theorem LeavesEntry.refl (n : String) (slot : Option (Nat × String)) (t : Session) :
    LeavesEntry n slot t t := ⟨rfl, rfl, le_rfl⟩

theorem lookup_filter_ne_self (xs : List (String × Nat)) (k : String) :
    (xs.filter (·.1 != k)).lookup k = none := by
  simp only [List.lookup_eq_none_iff, List.mem_filter, bne_iff_ne, ne_eq, and_imp]
  intro a _ hak hka
  exact hak hka.symm

theorem Session.slotAttr_registry (t : Session) (reg : List (String × Nat))
    (slot : Option (Nat × String)) :
    { t with registry := reg }.slotAttr slot = t.slotAttr slot := by
  cases slot <;> rfl

/-- Loading keeps the attributes of every module already in the store. -/
theorem Session.slotAttr_withLoaded (t : Session) (n path : String) {slot : Option (Nat × String)}
    (hslot : ∀ p child, slot = some (p, child) → p < t.store.modules.size) :
    (t.withLoaded n path).slotAttr slot = t.slotAttr slot := by
  cases slot with
  | none => rfl
  | some pc =>
    obtain ⟨p, child⟩ := pc
    simp only [Session.slotAttr, Session.withLoaded,
      Store.module_newModule_of_lt _ _ (hslot p child rfl)]

/-- The slot's module is the registered parent's, so it is in the store when the parent is. -/
theorem Session.parentSlot_lt_size {s : Session} {n : String}
    (hparent : ∀ parent child, splitLast? n = some (parent, child) →
      ∃ p, s.registry.lookup parent = some p ∧ p < s.store.modules.size)
    {p : Nat} {child : String} (hpc : s.parentSlot n = some (p, child)) :
    p < s.store.modules.size := by
  simp only [Session.parentSlot, Option.bind_eq_some_iff, Option.map_eq_some_iff] at hpc
  obtain ⟨⟨parent, child'⟩, hsplit, q, hq, hqp⟩ := hpc
  obtain ⟨p', hp', hlt⟩ := hparent parent child' hsplit
  cases hqp
  rw [hq] at hp'
  cases hp'
  exact hlt

/-- A failed import of `n` leaves `n`'s registry entry as it was, and the attribute for `n`
in its parent package, provided that no code run on the way writes them itself: the parent is
already registered, so importing it runs nothing; compiling `n`'s file leaves both alone; and
`n`'s own code leaves the parent's attribute alone. The one exception is a reload whose new
code fails: the loader registers the new module before running it and removes the entry
again, so the module registered before the reload is gone too. -/
theorem failed_import_leaves_entry {f : Nat} {n : String} {reload : Bool} {s s' : Session}
    {e : Error}
    (hparent : ∀ parent child, splitLast? n = some (parent, child) →
      ∃ p, s.registry.lookup parent = some p ∧ p < s.store.modules.size)
    (hcompile : ∀ path, (Run.findModule n).run s = .ok (some path) s →
      LeavesEntry n (s.parentSlot n) s (endState ((Run.getCode f n path).run s)))
    (hexec : ∀ path code t, (Run.findModule n).run s = .ok (some path) s →
      (Run.getCode f n path).run s = .ok code t →
      (endState ((Run.execCode f code t.store.modules.size).run (t.withLoaded n path))).slotAttr
          (s.parentSlot n) = (t.withLoaded n path).slotAttr (s.parentSlot n))
    (h : (Run.importModule (f + 2) n reload).run s = .error e s') :
    s'.slotAttr (s.parentSlot n) = s.slotAttr (s.parentSlot n) ∧
      (s'.registry.lookup n = s.registry.lookup n ∨
        reload = true ∧ s'.registry.lookup n = none ∧
          ∃ path code t t₂, (Run.findModule n).run s = .ok (some path) s ∧
            (Run.getCode f n path).run s = .ok code t ∧
            (Run.execCode f code t.store.modules.size).run (t.withLoaded n path) = .error e t₂) := by
  obtain ⟨hfirst, hfresh⟩ := Run.importModule_run_error
    (fun parent child hsplit => by
      obtain ⟨p, hp, -⟩ := hparent parent child hsplit
      simp [hp]) h
  rcases Run.importFresh_run_error hfresh with rfl | ⟨path, hfound, hload⟩
  · -- nothing to load: the import failed in the session it started from
    exact ⟨rfl, .inl rfl⟩
  have hc := hcompile path hfound
  rcases Run.loadModule_run_error hload with hcode | ⟨code, t, t₂, hcode, hrun, rfl⟩
  · -- compiling failed: its run ended where the import ended
    rw [hcode, endState_error] at hc
    exact ⟨hc.attr, .inl hc.entry⟩
  · -- the module's code failed, and the loader took its entry out again
    rw [hcode, endState_ok] at hc
    have hx := hexec path code t hfound hcode
    rw [hrun, endState_error] at hx
    refine ⟨?_, ?_⟩
    · calc { t₂ with registry := t₂.registry.filter (·.1 != n) }.slotAttr (s.parentSlot n)
          = t₂.slotAttr (s.parentSlot n) := Session.slotAttr_registry _ _ _
        _ = (t.withLoaded n path).slotAttr (s.parentSlot n) := hx
        _ = t.slotAttr (s.parentSlot n) := Session.slotAttr_withLoaded t n path fun p child hpc =>
            lt_of_lt_of_le (Session.parentSlot_lt_size hparent hpc) hc.grows
        _ = s.slotAttr (s.parentSlot n) := hc.attr
    · have hgone : (t₂.registry.filter (·.1 != n)).lookup n = none := lookup_filter_ne_self _ n
      rcases hfirst with rfl | hnone
      · exact .inr ⟨rfl, hgone, path, code, t, t₂, hfound, hcode, hrun⟩
      · exact .inl (hgone.trans hnone.symm)

/-! ## What path resolution reads

Resolving a path reads where the files are, never what they hold, so two file systems with
files at the same places resolve, canonicalize and test paths alike. -/

namespace FileSystem

variable {fs fs' : FileSystem}

section SameLayout

variable (h : fs.files.map (·.path) = fs'.files.map (·.path))
include h

theorem isDirAt_eq_of_paths : fs.isDirAt = fs'.isDirAt := by
  funext loc
  have hany := congrArg (List.any · fun p => loc.isPrefixOf p && loc.length < p.length) h
  simp only [List.any_map] at hany
  rw [isDirAt, isDirAt]
  exact congrArg (loc.isEmpty || ·) hany

theorem isSome_fileAt?_eq_of_paths (abs : List String) :
    (fs.fileAt? abs).isSome = (fs'.fileAt? abs).isSome := by
  unfold fileAt?
  cases insideWork? abs with
  | none => rfl
  | some loc =>
    have hany := congrArg (List.any · (· == loc)) h
    simp only [List.any_map, Function.comp_def] at hany
    simpa only [Option.bind_some, find?, List.isSome_find?] using hany

theorem isDirectory_eq_of_paths : fs.isDirectory = fs'.isDirectory := by
  funext abs
  rw [isDirectory, isDirectory, isDirAt_eq_of_paths h]

theorem locate_eq_of_paths (p : String) : fs.locate p = fs'.locate p := by
  have hstep : fs.step = fs'.step := by
    funext here name
    rw [step, step, isDirectory_eq_of_paths h, isSome_fileAt?_eq_of_paths h]
  rw [locate, locate, hstep]

theorem canonicalize_eq_of_paths (p : String) : fs.canonicalize p = fs'.canonicalize p := by
  simp only [canonicalize, locate_eq_of_paths h, isDirectory_eq_of_paths h,
    isSome_fileAt?_eq_of_paths h]

theorem isFile_eq_of_paths : fs.isFile = fs'.isFile := by
  funext p
  simp only [isFile, locate_eq_of_paths h, isSome_fileAt?_eq_of_paths h]

end SameLayout

end FileSystem

/-! ## A reload whose new code fails -/

/-- The statement `assert False`, alone on line 1. -/
def assertFalse : Stmt :=
  .mk (.assertion (.mk (.const (.bool false)) (some ⟨1, 7⟩)) none) (some ⟨1, 0⟩)

/-- A session in which module `a` is loaded from a.trl, and a.trl has since been changed to
`assert False`, compiled and cached at its dependency time. -/
def failingReloadSession : Session where
  files := { files := [⟨["a.trl"], .text "assert False\n", 1600000001000000000⟩], clock := 1 }
  xstats := [("/tmp/trellis-work/a.trl", 1600000001000000000)]
  codeCache :=
    [("/tmp/trellis-work/a.trl", ⟨1600000001000000000, ⟨"./a.trl", [assertFalse], none⟩⟩)]
  registry := [("a", 0)]
  store := { modules := #[.fresh "a" (some "./a.trl") ""] }

-- the session has its one file where `selfImportSession` has its own
theorem failingReloadSession_canonicalize :
    failingReloadSession.files.canonicalize "./a.trl" = .ok "/tmp/trellis-work/a.trl" :=
  calc failingReloadSession.files.canonicalize "./a.trl"
      = selfImportSession.files.canonicalize "./a.trl" := FileSystem.canonicalize_eq_of_paths (by rfl) _
    _ = .ok "/tmp/trellis-work/a.trl" := selfImportSession_canonicalize

theorem failingReloadSession_findModule :
    (Run.findModule "a").run failingReloadSession = .ok (some "./a.trl") failingReloadSession := by
  obtain ⟨o, hs, ht⟩ := Run.findModule_run_of_search "a" selfImportSession failingReloadSession
    rfl (FileSystem.isFile_eq_of_paths (by rfl))
  rw [selfImportSession_findModule] at hs
  cases hs
  exact ht

theorem splitLast?_a : splitLast? "a" = none := by cbv

theorem failingReloadSession_getCode :
    (Run.getCode 6 "a" "./a.trl").run failingReloadSession =
      .ok ⟨"./a.trl", [assertFalse], none⟩ failingReloadSession :=
  Run.getCode_run_of_cached failingReloadSession_canonicalize rfl rfl

/-- Reloading `a` runs `assert False` in the new module, which fails, and the loader takes
`a`'s entry out. -/
theorem failingReloadSession_run : ∃ (e : Error) (t₂ : Session),
    (Run.importModule 8 "a" true).run failingReloadSession =
      .error e { t₂ with registry := t₂.registry.filter (·.1 != "a") } := by
  -- the new module's code fails at its first statement, from whatever session it starts in
  obtain ⟨e, t₂, hx⟩ := Run.execCode_run_of_body_fails (f := 5)
    ⟨"./a.trl", [assertFalse], none⟩ failingReloadSession.store.modules.size
    (t := failingReloadSession.withLoaded "a" "./a.trl") fun _ _ =>
      ⟨_, _, Run.execBody_run_cons_error
        (Run.execStmt_run_assertion_false (Run.eval_run_const (f := 2) _ _))⟩
  refine ⟨e, t₂, Run.importModule_run_of_reload rfl (by decide) (by decide) splitLast?_a
    (by cbv) failingReloadSession_findModule ?_⟩
  rw [Run.loadModule_run, failingReloadSession_getCode]
  dsimp only
  rw [hx]

/-- The main statement at a failing reload: its conclusion holds through the reload case. -/
theorem failed_import_leaves_entry_on_reload : ∃ e s',
    (Run.importModule 8 "a" true).run failingReloadSession = .error e s' ∧
      s'.slotAttr (failingReloadSession.parentSlot "a") =
        failingReloadSession.slotAttr (failingReloadSession.parentSlot "a") ∧
      (s'.registry.lookup "a" = failingReloadSession.registry.lookup "a" ∨
        true = true ∧ s'.registry.lookup "a" = none ∧
          ∃ path code t t₂, (Run.findModule "a").run failingReloadSession =
              .ok (some path) failingReloadSession ∧
            (Run.getCode 6 "a" path).run failingReloadSession = .ok code t ∧
            (Run.execCode 6 code t.store.modules.size).run (t.withLoaded "a" path) = .error e t₂) := by
  obtain ⟨e, t₂, h⟩ := failingReloadSession_run
  have hslot : failingReloadSession.parentSlot "a" = none := by
    simp [Session.parentSlot, splitLast?_a]
  refine ⟨e, _, h, failed_import_leaves_entry (f := 6) ?_ ?_ ?_ h⟩
  · intro parent child hsplit
    rw [splitLast?_a] at hsplit
    cases hsplit
  · intro path hpath
    rw [failingReloadSession_findModule] at hpath
    cases hpath
    rw [failingReloadSession_getCode, endState_ok]
    exact LeavesEntry.refl _ _ _
  · intro _ _ _ _ _
    rw [hslot]
    rfl

/-- A failed reload takes out the entry of the module it reloads: `a` was registered before,
and is not registered after. -/
theorem failed_reload_drops_module :
    failingReloadSession.registry.lookup "a" = some 0 ∧
      ∃ e s', (Run.importModule 8 "a" true).run failingReloadSession = .error e s' ∧
        s'.registry.lookup "a" = none := by
  obtain ⟨e, t₂, h⟩ := failingReloadSession_run
  exact ⟨rfl, e, _, h, lookup_filter_ne_self _ _⟩

end Espalier