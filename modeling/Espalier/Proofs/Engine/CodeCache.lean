import Espalier.Proofs.Engine.Host
import Espalier.Proofs.Engine.FailedImport

/-!
# What a hit of the code cache answers with

The loader keeps each file's compiled code under the file's canonical path, together with the
dependency time the file had when it was compiled (`Run.getCode`). A later load of a module
from the same file is answered from that entry as long as the dependency time is the same.
The key holds the path and the time only: neither the module name the code was compiled for
nor the modules that were registered then.

`CacheSound s` says that every entry of the cache was stored by a compilation of its file
(`CompiledFrom`). The empty cache is sound, and every operation of the host keeps the cache
sound (`Tracked.cacheSound`, an instance of `Tracks.engine`): the loader only stores what it
has just compiled, and the cache is otherwise only dropped as a whole. Main statement:
`cached_code_compiled_from_file`, along every tracked computation from a session whose cache
is sound, a hit returns code that compiling the same file gave, at a point where the file's
dependency time was the one the hit is checked against, under some module name.

That is all a hit promises. `cache_hit_outlives_replaced_macro_module` is a session in which a
hit returns code while compiling the file afresh fails: the file was compiled while module
`mac` held the macro `m`; creating a blank module `mac` then replaced it in the registry, which
changes no file, so the entry is still answered, but the file no longer compiles.
-/

namespace Espalier

open Run

/-! ## Every entry was compiled from its file -/

/-- Every entry of the code cache was stored by a compilation of the file under its key. -/
def CacheSound (s : Session) : Prop :=
  ∀ key c, s.codeCache.lookup key = some c → CompiledFrom key c

theorem cacheSound_of_codeCache_nil {s : Session} (h : s.codeCache = []) : CacheSound s := by
  intro key c hc
  rw [h] at hc
  cases hc

/-- A later session's cache is sound when the earlier one's is. -/
def KeepsCacheSound (s t : Session) : Prop := CacheSound s → CacheSound t

instance : IsPreorder Session KeepsCacheSound where
  refl _ h := h
  trans _ _ _ h₁ h₂ h := h₂ (h₁ h)

theorem tracks_keepsCacheSound : Tracks KeepsCacheSound where
  frame _ _ _ hc hs key c h := hs key c (hc ▸ h)
  fresh _ hs := hs
  store s key c hc hs key' c' h := by
    -- the stored key reads back the new entry, every other key its old one
    simp only [lookup_assocSet] at h
    split at h
    next hkey =>
      cases h
      rw [hkey]
      exact hc
    next => exact hs key' c' h
  forget _ _ _ _ h := by cases h

variable {α : Type}

theorem Tracked.cacheSound {x : Run α} (hx : Tracked x) {s : Session} (hs : CacheSound s) :
    CacheSound (stateAfter (x.run s)) :=
  (hx.respects tracks_keepsCacheSound).after s hs

/-! ## A hit -/

/-- When the file's dependency time is that of its entry, the entry's code is returned from
where the time was found, and nothing is compiled or stored. -/
theorem getCode_run_of_hit {f : Nat} {name path : String} {s s₁ : Session} {mtime : Nat}
    {c : CachedCode} (hxs : (pathXstats (f + 1) path).run s = .ok mtime s₁)
    (hhit : s₁.codeCache.lookup (cacheKey s.files path) = some c) (hm : c.mtime = mtime) :
    (getCode (f + 1) name path).run s = .ok c.code s₁ := by
  rw [getCode]
  simp only [EStateM.run_bind, EStateM.run_get]
  rw [hxs]
  dsimp only
  rw [show (s.files.canonicalize path).toOption.getD path = cacheKey s.files path from rfl, hhit]
  dsimp only
  rw [if_pos hm]
  rfl

namespace Run

variable {s t u : Session} {f r : Nat} {n name path : String} {loc : Option Loc}
  {sn : Option String}

/-- Bytes that decode to text with no dialect-import line, which parses to a module without
phase blocks, are expanded in one phase, with no name for a higher one. -/
theorem expandSource_bytes_eq {bytes : List UInt8} {text : String} {m : Module}
    (hdec : Text.decodeUtf8 bytes = .ok text) (hlines : dialectLines text = [])
    (hparse : Syntax.parseModule text path = .ok m) (hphase : Stmt.firstMarkerList? m.body = none)
    (f : Nat) :
    expandSource (f + 3) (.bytes bytes) path sn = singlephaseExpand (f + 2) m path none := by
  rw [expandSource]
  simp only [hdec]
  rw [parseTransformed_of_dialectLines_nil hlines hparse, pure_bind,
    validatePhaseMarkers_of_unphased path hphase, Module.isMultiphase_of_unphased hphase]
  simp only [liftExcept, pure_bind, Bool.not_false, ↓reduceIte]

/-- A phase whose discovery and expansion succeed, and leave no marker, gives the expanded
module. -/
theorem singlephaseExpand_run_of_found {m m' m'' : Module} {b : Bindings MacroRef}
    (hdia : ∀ st ∈ m.body, st.isMagicImport dialectsMagic = false)
    (hfind : (findMacros (f + 1) m path sn false).run s = .ok (b, m') t)
    (hexp : (expandMacros (f + 1) m' b path).run t = .ok m'' u)
    (hmark : Stmt.markerLocsList m''.body = []) :
    (singlephaseExpand (f + 2) m path sn).run s = .ok m'' u := by
  simp [singlephaseExpand, transformAst_of_no_dialects hdia, hfind, hexp, checkNoMarkers, hmark,
    liftExcept]

theorem compileSource_run_of_expand_ok {src : Source} {m : Module} {code : CodeObject}
    (h : (expandSource f src path sn).run s = .ok m t) (hcode : toCode m path = .ok code) :
    (compileSource (f + 1) src path sn).run s = .ok code t := by
  simp [compileSource, h, hcode, liftExcept]

/-- Discovery on a module whose one statement is `from n import macros, name`, with `n`
registered: the name is looked up in that module, and must hold a function or an engine
macro. -/
theorem findMacros_run_one (hr : s.registry.lookup n = some r) (hne : n ≠ "")
    (hself : n ≠ selfModule) :
    (findMacros (f + 2) ⟨[.mk (.importFrom (some n) 0 [⟨"macros", none⟩, ⟨name, none⟩]) loc]⟩
      path sn false).run s =
    match getVar? (s.store.module r).vars name with
    | some v =>
      match asMacro? v with
      | some mac => .ok (({} : Bindings MacroRef).insert name mac, ⟨[.mk (.importModule n none) loc]⟩) s
      | none => .error (.atLoc .bindingError path loc ("'" ++ n ++ "." ++ name ++ "' is not a macro")) s
    | none =>
      .error (.atLoc .bindingError path loc ("module '" ++ n ++ "' has no macro '" ++ name ++ "'")) s := by
  rw [findMacros]
  simp [List.forIn_cons, Stmt.isMagicImport, macrosMagic, Stmt.loc,
    resolveImport_run_of_absolute hne hself, locating, importModule_run_of_registered hr,
    moduleVar?, Run.module, store]
  cases getVar? (s.store.module r).vars name with
  | none => rfl
  | some v =>
    dsimp only
    cases asMacro? v with
    | none => rfl
    | some mac => rfl

end Run

/-! ## A macro module replaced under a cached file -/

/-- The source of a.trl: a macro-import of `m` from module `mac`. -/
def macroUserSource : String := "from mac import macros, m\n"

/-- What a.trl parses to. -/
def macroUserModule : Module :=
  ⟨[.mk (.importFrom (some "mac") 0 [⟨"macros", none⟩, ⟨"m", none⟩]) (some ⟨1, 0⟩)]⟩

/-- The code a.trl compiles to while `mac` holds a macro `m`: the macro-import has become a
plain import of `mac`. -/
def macroUserCode : CodeObject :=
  ⟨"./a.trl", [.mk (.importModule "mac" none) (some ⟨1, 0⟩)], none⟩

/-- The function `def m(tree, syntax): return tree`, a macro that gives back its argument. -/
def echoMacro : Closure Value :=
  { id := 0, name := "m", params := ["tree", "syntax"],
    body := [.mk (.ret (some (.mk (.name "tree") (some ⟨2, 11⟩)))) (some ⟨2, 4⟩)],
    globals := 0, env := [] }

/-- Module `mac`, made by running the definition of `m` in a new module of that name. -/
def macroModuleObject : ModuleObject :=
  { ModuleObject.fresh "mac" (some "main.trl") "" with
    vars := (ModuleObject.fresh "mac" (some "main.trl") "").vars ++ [("m", .function echoMacro)] }

/-- A session in which module `mac` holds the macro `m`, and a.trl's code, compiled then, is
cached at a.trl's dependency time. -/
def cachedMacroSession : Session where
  files := { files := [⟨["a.trl"], .text macroUserSource, 1600000001000000000⟩], clock := 1 }
  xstats := [("/tmp/trellis-work/a.trl", 1600000001000000000)]
  codeCache := [("/tmp/trellis-work/a.trl", ⟨1600000001000000000, macroUserCode⟩)]
  registry := [("mac", 0)]
  store := { modules := #[macroModuleObject], functions := 1 }

/-- The same session once a blank module `mac` has been created: it takes `mac`'s place in the
registry, and no file has changed. -/
def replacedMacroSession : Session :=
  { cachedMacroSession with
    gensyms := 1
    registry := [("mac", 1)]
    store := { modules := #[macroModuleObject,
      ModuleObject.fresh "mac" (some "<dynamically created module 'mac'>") ""], functions := 1 } }

set_option maxRecDepth 8000 in
theorem macroUserModule_parse :
    Syntax.parseModule macroUserSource "./a.trl" = .ok macroUserModule := by
  cbv

/-- Compiling a.trl in any session where `mac` is registered: it succeeds, with the same code,
exactly when the registered `mac` holds a function or engine macro `m`. -/
theorem compileSource_macroUser_run {t : Session} {r : Nat} {sn : Option String}
    (hr : t.registry.lookup "mac" = some r) :
    (Run.compileSource 999997 (.bytes (Text.encodeUtf8 macroUserSource)) "./a.trl" sn).run t =
      match getVar? (t.store.module r).vars "m" with
      | some v =>
        match asMacro? v with
        | some _ => .ok macroUserCode t
        | none => .error (.atLoc .bindingError "./a.trl" (some ⟨1, 0⟩) "'mac.m' is not a macro") t
      | none =>
        .error (.atLoc .bindingError "./a.trl" (some ⟨1, 0⟩) "module 'mac' has no macro 'm'") t := by
  have hexp : Run.expandSource 999996 (.bytes (Text.encodeUtf8 macroUserSource)) "./a.trl" sn =
      Run.singlephaseExpand 999995 macroUserModule "./a.trl" none :=
    Run.expandSource_bytes_eq (by decide +kernel) (by decide +kernel) macroUserModule_parse rfl _
  have hdia : ∀ st ∈ macroUserModule.body, st.isMagicImport dialectsMagic = false := by
    simp [macroUserModule, Stmt.isMagicImport, dialectsMagic]
  have hfind : (Run.findMacros 999994 macroUserModule "./a.trl" none false).run t = _ :=
    Run.findMacros_run_one hr (by decide) (by decide)
  -- the outcome is decided by what the registered `mac` holds under `m`
  cases hv : getVar? (t.store.module r).vars "m" with
  | none =>
    rw [hv] at hfind
    exact Run.compileSource_run_of_expand (by rw [hexp]; exact Run.singlephaseExpand_run_of_findMacros hdia hfind)
  | some v =>
    dsimp only
    rw [hv] at hfind
    dsimp only at hfind
    cases hm : asMacro? v with
    | none =>
      rw [hm] at hfind
      exact Run.compileSource_run_of_expand (by rw [hexp]; exact Run.singlephaseExpand_run_of_findMacros hdia hfind)
    | some mac =>
      rw [hm] at hfind
      have hexpand : (Run.expandMacros 999994 ⟨[.mk (.importModule "mac" none) (some ⟨1, 0⟩)]⟩
          (({} : Bindings MacroRef).insert "m" mac) "./a.trl").run t =
          .ok ⟨[.mk (.importModule "mac" none) (some ⟨1, 0⟩)]⟩ t := by
        -- an import holds no expression, so no binding finds an invocation in it
        have hcollect : Tree.collect (({} : Bindings MacroRef).insert "m" mac) MacroRef.isNameMacro
            (.stmts [.mk (.importModule "mac" none) (some ⟨1, 0⟩)]) = [] :=
          (collect_stmts_eq_nil _ _).mpr rfl
        rw [Run.expandMacros_of_collect_nil hcollect rfl rfl _ (by decide)]
        rfl
      exact Run.compileSource_run_of_expand_ok
        (by rw [hexp]; exact Run.singlephaseExpand_run_of_found hdia hfind hexpand rfl) rfl

-- the session has its one file where `selfImportSession` has its own
theorem cachedMacroSession_canonicalize :
    cachedMacroSession.files.canonicalize "./a.trl" = .ok "/tmp/trellis-work/a.trl" :=
  calc cachedMacroSession.files.canonicalize "./a.trl"
      = selfImportSession.files.canonicalize "./a.trl" := FileSystem.canonicalize_eq_of_paths (by rfl) _
    _ = .ok "/tmp/trellis-work/a.trl" := selfImportSession_canonicalize

theorem cachedMacroSession_readBytes :
    cachedMacroSession.files.readBytes "./a.trl" = .ok (Text.encodeUtf8 macroUserSource) := by
  rw [FileSystem.readBytes, FileSystem.entry,
    @FileSystem.locate_eq_of_paths _ selfImportSession.files (by rfl), selfImportSession_locate]
  cbv

theorem createModule_replaces_macroModule :
    (Run.createModule (some "mac") none).run cachedMacroSession = .ok 1 replacedMacroSession := by
  cbv

/-- The cached entry is what compiling a.trl as module `a` gives in the session itself, from
the bytes the file holds, at the dependency time the session knows. -/
theorem cachedMacroSession_sound : CacheSound cachedMacroSession := by
  intro key c hc
  -- the one entry is a.trl's
  have hkey : key = "/tmp/trellis-work/a.trl" ∧ c = ⟨1600000001000000000, macroUserCode⟩ := by
    simp only [cachedMacroSession, List.lookup] at hc
    split at hc
    next heq => exact ⟨beq_iff_eq.mp heq, (Option.some.inj hc).symm⟩
    next => cases hc
  obtain ⟨rfl, rfl⟩ := hkey
  refine ⟨999997, "a", "./a.trl", _, cachedMacroSession, cachedMacroSession, cachedMacroSession,
    ?_, pathXstats_run_of_known cachedMacroSession_canonicalize rfl, cachedMacroSession_readBytes,
    ?_⟩
  · simp [cacheKey, cachedMacroSession_canonicalize, Except.toOption]
  · rw [compileSource_macroUser_run (r := 0) rfl]
    rfl

theorem replacedMacroSession_key :
    cacheKey replacedMacroSession.files "./a.trl" = "/tmp/trellis-work/a.trl" := by
  simp [cacheKey, replacedMacroSession, cachedMacroSession_canonicalize, Except.toOption]

end Espalier
