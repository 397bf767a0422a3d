import Espalier.Proofs.Engine.MacroFree

/-!
# Importing a module that macro-imports itself

A module is registered only after its code is compiled, and macro discovery imports each
definition module while that compilation is still going on; only the dependency-time query
keeps a set of files in progress. A module whose source macro-imports the module itself by
name (and not through the next phase's reserved name) therefore re-enters its own
compilation, and it does so from the very session it started from: nothing is registered,
cached or written on the way down.

The stages from one import to the next are seven: the import loads the file, the code is
looked up and compiled, the source expanded, one phase expanded, and discovery imports the
module again. Each stage has a run lemma saying that it fails, at the same session, as the
next one fails (`importModule_run_of_load` down to `findMacros_run_of_import`). Together
they give `importModule_run_reenters`: with seven more fuel the import fails exactly as the
inner one does, located at the macro-import. By strong induction on the fuel
(`importModule_reentry_exhausts_fuel`), importing such a module fails at every fuel with the
out-of-fuel error and leaves the session unchanged: no fuel is enough, so the import does
not terminate, and no cycle is ever reported.
-/

namespace Espalier

/-- Locating an error keeps the file of an error that already has one. -/
@[simp] theorem Error.located_located (e : Error) (file file' : String) (loc loc' : Option Loc) :
    (e.located file loc).located file' loc' = e.located file loc := by
  unfold Error.located
  cases h : e.filename <;> simp [h]

namespace Run

variable {s : Session} {n path : String} {e : Error} {f : Nat}

/-! ## Reading steps that leave the session alone -/

theorem locating_run_of_error {α : Type} {x : Run α} {file : String} {loc : Option Loc}
    (h : x.run s = .error e s) : (locating x file loc).run s = .error (e.located file loc) s := by
  simp only [locating, tryCatch, tryCatchThe, MonadExceptOf.tryCatch, EStateM.tryCatch,
    EStateM.run] at h ⊢
  rw [h]
  rfl

/-- A remembered dependency time is answered at once. -/
theorem pathXstats_run_of_known {c : String} {t : Nat} (hc : s.files.canonicalize path = .ok c)
    (ht : s.xstats.lookup c = some t) : (pathXstats (f + 1) path).run s = .ok t s := by
  simp [pathXstats, xstatsWith, filesReads, hc, ht]

theorem findModule_run_empty : (findModule "").run s = .ok none s := by
  have hparts : dottedParts "" = [""] := by cbv
  simp [findModule, hparts]

/-- A level-0 macro-import of a module other than the reserved one names that module. -/
theorem resolveImport_run_of_absolute {names : List Alias} {loc : Option Loc}
    {sn : Option String} (hne : n ≠ "") (hself : n ≠ selfModule) :
    (resolveImport (.mk (.importFrom (some n) 0 names) loc) path sn true).run s =
      .ok ⟨n, names.drop 1, false⟩ s := by
  simp [resolveImport, Option.filter, hne, hself]

/-! ## One lemma per stage: it fails as the next stage fails -/

/-- A top-level module that is neither loaded nor built in, found as a file, is loaded. -/
theorem importModule_run_of_load (reload : Bool) (hreg : s.registry.lookup n = none)
    (htop : splitLast? n = none) (heng : engineModule? n = none)
    (hfind : (findModule n).run s = .ok (some path) s)
    (hload : (loadModule f n path).run s = .error e s) :
    (importModule (f + 1) n reload).run s = .error e s := by
  simp [importModule, registered?, hreg, htop, heng, hfind, hload]

/-- The module is registered only once its code exists. -/
theorem loadModule_run_of_getCode (h : (getCode f n path).run s = .error e s) :
    (loadModule (f + 1) n path).run s = .error e s := by
  simp [loadModule, h]

/-- With no code cached at the file's dependency time, the file is read and compiled. -/
theorem getCode_run_of_compile {c : String} {t : Nat} {bytes : List UInt8}
    (hc : s.files.canonicalize path = .ok c) (ht : s.xstats.lookup c = some t)
    (hstale : ∀ cc, s.codeCache.lookup c = some cc → cc.mtime ≠ t)
    (hread : s.files.readBytes path = .ok bytes)
    (h : (compileSource f (.bytes bytes) path (some n)).run s = .error e s) :
    (getCode (f + 1) n path).run s = .error e s := by
  have hknown := pathXstats_run_of_known (f := f) hc ht
  rw [getCode]
  simp only [EStateM.run_bind, EStateM.run_get]
  -- the cache key is rewritten by `rw`: through `simp` its proof takes the kernel seconds
  rw [hc]
  cases hcc : s.codeCache.lookup c with
  | none => simp [Except.toOption, hknown, hcc, hread, h]
  | some cc => simp [Except.toOption, hknown, hcc, hread, h, hstale cc hcc]

theorem compileSource_run_of_expand {src : Source} {sn : Option String}
    (h : (expandSource f src path sn).run s = .error e s) :
    (compileSource (f + 1) src path sn).run s = .error e s := by
  simp [compileSource, h]

theorem expandSource_run_of_parse {bytes : List UInt8} {text : String} {sn : Option String}
    (hdec : Text.decodeUtf8 bytes = .ok text)
    (h : (parseTransformed f text path sn).run s = .error e s) :
    (expandSource (f + 1) (.bytes bytes) path sn).run s = .error e s := by
  simp [expandSource, hdec, h]

/-- A source without phase blocks is expanded in one phase, with no name for a higher one. -/
theorem expandSource_run_of_singlephase {bytes : List UInt8} {text : String}
    {sn : Option String} {m : Module} (hdec : Text.decodeUtf8 bytes = .ok text)
    (hparse : (parseTransformed f text path sn).run s = .ok m s)
    (hphase : Stmt.firstMarkerList? m.body = none)
    (h : (singlephaseExpand f m path none).run s = .error e s) :
    (expandSource (f + 1) (.bytes bytes) path sn).run s = .error e s := by
  simp [expandSource, hdec, hparse, validatePhaseMarkers_of_unphased path hphase, liftExcept,
    Module.isMultiphase_of_unphased hphase, h]

theorem singlephaseExpand_run_of_findMacros {m : Module} {sn : Option String}
    (hdia : ∀ st ∈ m.body, st.isMagicImport dialectsMagic = false)
    (h : (findMacros (f + 1) m path sn false).run s = .error e s) :
    (singlephaseExpand (f + 2) m path sn).run s = .error e s := by
  simp [singlephaseExpand, transformAst_of_no_dialects hdia, h]

/-- Discovery copies the statements before the first macro-import, then imports its module
and locates a failure at the import. -/
theorem findMacros_run_of_import {m : Module} {names : List Alias} {loc : Option Loc}
    {sn : Option String} (hne : n ≠ "") (hself : n ≠ selfModule)
    (hfirst : m.body.find? (·.isMagicImport macrosMagic) =
      some (.mk (.importFrom (some n) 0 names) loc))
    (h : (importModule f n false).run s = .error e s) :
    (findMacros (f + 1) m path sn false).run s = .error (e.located path loc) s := by
  obtain ⟨hmagic, pre, rest, hbody, hpre⟩ := List.find?_eq_some_iff_append.mp hfirst
  rw [findMacros, hbody, forIn_copy_append _ _ _ _ fun st hst acc => by simp [hpre st hst],
    List.forIn_cons]
  simp [hmagic, Stmt.loc, resolveImport_run_of_absolute hne hself, locating_run_of_error h]

/-! ## The cycle -/

/-- Source text whose compilation imports module `n` before anything else can fail: it has
no dialect-import line and parses, with no phase block and no top-level dialect-import, to a
module whose first top-level macro-import is `from n import macros, ...` at `loc`. -/
structure FirstMacroImport (text path n : String) (loc : Option Loc) : Prop where
  noDialectLines : dialectLines text = []
  parses : ∃ m names, Syntax.parseModule text path = .ok m ∧
    Stmt.firstMarkerList? m.body = none ∧
    (∀ st ∈ m.body, st.isMagicImport dialectsMagic = false) ∧
    m.body.find? (·.isMagicImport macrosMagic) = some (.mk (.importFrom (some n) 0 names) loc)

/-- A session from which importing module `n` compiles the file at `path` and, through its
first macro-import, imports `n` again from the same session. The module is a top-level one,
neither loaded nor built in, not the reserved name of the next phase, and found at `path`;
the file's dependency time is known (as it is once the file has been asked for it) and no
code is cached at that time; its source first macro-imports `n`. -/
structure ReentrantImport (s : Session) (n path : String) (loc : Option Loc) : Prop where
  unregistered : s.registry.lookup n = none
  topLevel : splitLast? n = none
  notEngine : engineModule? n = none
  notSelf : n ≠ selfModule
  found : (findModule n).run s = .ok (some path) s
  known : ∃ c t, s.files.canonicalize path = .ok c ∧ s.xstats.lookup c = some t ∧
    ∀ cc, s.codeCache.lookup c = some cc → cc.mtime ≠ t
  source : ∃ bytes text, s.files.readBytes path = .ok bytes ∧
    Text.decodeUtf8 bytes = .ok text ∧ FirstMacroImport text path n loc

variable {loc : Option Loc}

/-- A module found as a file has a name. -/
theorem ReentrantImport.named (h : ReentrantImport s n path loc) : n ≠ "" := by
  rintro rfl
  have hfound := h.found
  rw [findModule_run_empty] at hfound
  cases hfound

/-- The first four stages: an import reaches the expansion of the file's bytes. -/
theorem importModule_run_of_expand (h : ReentrantImport s n path loc) (reload : Bool)
    {bytes : List UInt8} (hread : s.files.readBytes path = .ok bytes)
    (hexp : (expandSource f (.bytes bytes) path (some n)).run s = .error e s) :
    (importModule (f + 4) n reload).run s = .error e s := by
  obtain ⟨c, t, hc, ht, hstale⟩ := h.known
  apply importModule_run_of_load reload h.unregistered h.topLevel h.notEngine h.found
  apply loadModule_run_of_getCode
  apply getCode_run_of_compile hc ht hstale hread
  exact compileSource_run_of_expand hexp

/-- The last three stages: expansion parses the text and, in its one phase, discovery imports
the module again. -/
theorem expandSource_run_reenters {text : String} {bytes : List UInt8}
    (hsrc : FirstMacroImport text path n loc) (hne : n ≠ "") (hself : n ≠ selfModule)
    (hdec : Text.decodeUtf8 bytes = .ok text) (h : (importModule f n false).run s = .error e s) :
    (expandSource (f + 3) (.bytes bytes) path (some n)).run s = .error (e.located path loc) s := by
  obtain ⟨m, names, hparse, hphase, hdia, hfirst⟩ := hsrc.parses
  apply expandSource_run_of_singlephase hdec ?_ hphase
  · exact singlephaseExpand_run_of_findMacros hdia (findMacros_run_of_import hne hself hfirst h)
  · rw [parseTransformed_of_dialectLines_nil hsrc.noDialectLines hparse]
    rfl

/-- Below three, expansion runs out of fuel before it parses. -/
theorem expandSource_run_short {text : String} {bytes : List UInt8} {sn : Option String}
    (hdec : Text.decodeUtf8 bytes = .ok text) (hf : f < 3) :
    (expandSource f (.bytes bytes) path sn).run s = .error engineFuelError s := by
  rcases f with _ | _ | _ | f
  · rfl
  · exact expandSource_run_of_parse hdec rfl
  · exact expandSource_run_of_parse hdec rfl
  · omega

/-- The step of the cycle: seven stages on, the import fails as the inner one fails, located
at the macro-import, from the same session. -/
theorem importModule_run_reenters (h : ReentrantImport s n path loc) (reload : Bool)
    (hin : (importModule f n false).run s = .error e s) :
    (importModule (f + 7) n reload).run s = .error (e.located path loc) s := by
  obtain ⟨bytes, text, hread, hdec, hsrc⟩ := h.source
  exact importModule_run_of_expand h reload hread
    (expandSource_run_reenters hsrc h.named h.notSelf hdec hin)

/-- Below seven, some stage runs out of fuel before the module is imported again. -/
theorem importModule_run_short (h : ReentrantImport s n path loc) (reload : Bool) (hf : f < 7) :
    (importModule f n reload).run s = .error engineFuelError s := by
  obtain ⟨c, t, hc, ht, hstale⟩ := h.known
  obtain ⟨bytes, text, hread, hdec, -⟩ := h.source
  have load := fun {g : Nat} => importModule_run_of_load (f := g) (e := engineFuelError) reload
    h.unregistered h.topLevel h.notEngine h.found
  rcases f with _ | _ | _ | _ | f
  · rfl
  · exact load rfl
  · exact load (loadModule_run_of_getCode rfl)
  · exact load (loadModule_run_of_getCode (getCode_run_of_compile hc ht hstale hread rfl))
  · exact importModule_run_of_expand h reload hread (expandSource_run_short hdec (by omega))

/-- Importing a module that macro-imports itself fails at every fuel with the out-of-fuel
error, located at its macro-import once the cycle has gone round, and leaves the session as
it was: the compilation re-enters itself from the same session, so no fuel is enough. -/
theorem importModule_reentry_exhausts_fuel (h : ReentrantImport s n path loc) (f : Nat)
    (reload : Bool) :
    (importModule f n reload).run s =
      .error (if f < 7 then engineFuelError else engineFuelError.located path loc) s := by
  -- strong induction: the fuel of the inner import is seven less
  induction f using Nat.strong_induction_on generalizing reload with
  | _ f ih =>
    by_cases hf : f < 7
    · rw [if_pos hf]
      exact importModule_run_short h reload hf
    · obtain ⟨g, rfl⟩ : ∃ g, f = g + 7 := ⟨f - 7, by omega⟩
      rw [if_neg hf, importModule_run_reenters h reload (ih g (by omega) false)]
      split <;> simp

end Run

/-- A session holding only the file a.trl, whose source macro-imports its own module by
name, with the file's dependency time known. -/
def selfImportSession : Session where
  files := { files := [⟨["a.trl"], .text "from a import macros, m\n", 1600000001000000000⟩],
             clock := 1 }
  xstats := [("/tmp/trellis-work/a.trl", 1600000001000000000)]

/-- The module a.trl parses to. -/
def selfImportModule : Module :=
  ⟨[.mk (.importFrom (some "a") 0 [⟨"macros", none⟩, ⟨"m", none⟩]) (some ⟨1, 0⟩)]⟩

set_option maxRecDepth 8000 in
theorem selfImportModule_parse :
    Syntax.parseModule "from a import macros, m\n" "./a.trl" = .ok selfImportModule := by
  cbv

-- the evaluator splits a path built from its parts more readily than the literal
theorem selfImportSession_locate :
    selfImportSession.files.locate "./a.trl" = .ok ["tmp", "trellis-work", "a.trl"] := by
  rw [show "./a.trl" = withExtension (joinPath "." "a") "trl" by cbv]
  cbv

theorem selfImportSession_canonicalize :
    selfImportSession.files.canonicalize "./a.trl" = .ok "/tmp/trellis-work/a.trl" := by
  rw [FileSystem.canonicalize, selfImportSession_locate]
  cbv

theorem selfImportSession_readBytes :
    selfImportSession.files.readBytes "./a.trl" =
      .ok (Text.encodeUtf8 "from a import macros, m\n") := by
  rw [FileSystem.readBytes, FileSystem.entry, selfImportSession_locate]
  cbv

theorem selfImportSession_findModule :
    (Run.findModule "a").run selfImportSession = .ok (some "./a.trl") selfImportSession := by
  cbv

theorem selfImportSession_reentrant :
    Run.ReentrantImport selfImportSession "a" "./a.trl" (some ⟨1, 0⟩) where
  unregistered := rfl
  topLevel := by cbv
  notEngine := by cbv
  notSelf := by decide
  found := selfImportSession_findModule
  known := ⟨_, _, selfImportSession_canonicalize, rfl, fun cc h => by cases h⟩
  source := ⟨_, _, selfImportSession_readBytes, by decide +kernel,
    { noDialectLines := by decide +kernel
      parses := ⟨_, _, selfImportModule_parse, rfl,
        by simp [selfImportModule, Stmt.isMagicImport, dialectsMagic], rfl⟩ }⟩

/-- Importing a by name, at the engine's fuel, fails with "computation nests too deeply"
at its macro-import. -/
theorem importNamed_self_import_nests_too_deeply :
    Run.ReentrantImport selfImportSession "a" "./a.trl" (some ⟨1, 0⟩) ∧
    (Run.importNamed "a" false).run selfImportSession =
      .error (engineFuelError.located "./a.trl" (some ⟨1, 0⟩)) selfImportSession := by
  refine ⟨selfImportSession_reentrant, ?_⟩
  rw [Run.importNamed, Run.importModule_reentry_exhausts_fuel selfImportSession_reentrant,
    if_neg (by decide)]

end Espalier
