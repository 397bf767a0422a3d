import Espalier.Engine.Api
import Espalier.Proofs.Macro.Fixpoint
import Espalier.Proofs.Syntax.Clean

/-!
# Macro-free code expands to itself

Expanding a source runs every stage of compilation: the dialect source hooks rescan the
text, the text is parsed, phase markers are checked, the dialect tree hooks run, the
macro-imports are bound, the macros are expanded, markers are stripped and locations
filled, the dialect post-hooks run and no marker may remain. Text that imports no dialect
and no macro and holds no phase block goes through all of them unchanged: expansion gives
exactly the module that parsing gives, for every module name and every session state, and
leaves the session as it was (`Run.expandSource_macroFree_eq_parse`), so in particular no
module is imported.

Each stage has its own lemma: the rescanning loop stops at its first round, a module with
no dialect- or macro-import passes the tree hooks and discovery unchanged with no macro
bound, and with no macro bound expansion is the identity on a clean module
(`Expander.expandModule_of_collect_nil`). That the parsed module is clean is
`Syntax.parseModule_clean`.
-/

namespace Espalier

/-! ## Loops that only copy -/

/-- A loop that only appends each item of a prefix to the list in its state copies the
prefix, then goes on with the rest. -/
theorem forIn_copy_append {m : Type → Type} [Monad m] [LawfulMonad m] {β γ : Type}
    (xs ys : List γ) (b : β) (acc : List γ) {body : γ → β × List γ → m (ForInStep (β × List γ))}
    (h : ∀ x ∈ xs, ∀ acc, body x (b, acc) = pure (.yield (b, acc ++ [x]))) :
    forIn (xs ++ ys) (b, acc) body = forIn ys (b, acc ++ xs) body := by
  induction xs generalizing acc with
  | nil => simp
  | cons x xs ih =>
    rw [List.cons_append, List.forIn_cons, h x List.mem_cons_self, pure_bind]
    simpa using ih (acc ++ [x]) fun y hy => h y (List.mem_cons_of_mem x hy)

/-- A loop that only appends each item to the list in its state copies the items. -/
theorem forIn_copy {m : Type → Type} [Monad m] [LawfulMonad m] {β γ : Type} (xs : List γ) (b : β)
    (acc : List γ) {body : γ → β × List γ → m (ForInStep (β × List γ))}
    (h : ∀ x ∈ xs, ∀ acc, body x (b, acc) = pure (.yield (b, acc ++ [x]))) :
    forIn xs (b, acc) body = pure (b, acc ++ xs) := by
  simpa using forIn_copy_append xs [] b acc h

/-! ## Phase blocks -/

theorem Stmt.firstMarkerList?_eq_none_iff {ss : List Stmt} :
    Stmt.firstMarkerList? ss = none ↔ ∀ s ∈ ss, Stmt.firstMarker? s = none := by
  induction ss with
  | nil => simp [Stmt.firstMarkerList?]
  | cons s ss ih => simp [Stmt.firstMarkerList?, ih]

/-- A statement with no phase block in it is not one, and holds none in its bodies. -/
theorem Stmt.firstMarker?_eq_none {s : Stmt} (h : Stmt.firstMarker? s = none) :
    s.isPhaseBlock = false ∧ Stmt.innerMarker? s.kind = none := by
  obtain ⟨k, l⟩ := s
  rw [Stmt.firstMarker?] at h
  split at h
  · cases h
  · exact ⟨Bool.eq_false_iff.mpr ‹_›, h⟩

/-- Statements with no phase block at any depth pass the phase check. -/
theorem validatePhaseMarkers_of_unphased (file : String) {ss : List Stmt}
    (h : Stmt.firstMarkerList? ss = none) : validatePhaseMarkers file ss = .ok () := by
  induction ss with
  | nil => rfl
  | cons s ss ih =>
    obtain ⟨hs, hss⟩ := List.forall_mem_cons.mp (Stmt.firstMarkerList?_eq_none_iff.mp h)
    obtain ⟨hblock, hinner⟩ := Stmt.firstMarker?_eq_none hs
    rw [validatePhaseMarkers.eq_def]
    simp only [hblock, Bool.false_eq_true, if_false, hinner, pure_bind]
    exact ih (Stmt.firstMarkerList?_eq_none_iff.mpr hss)

/-- A module with no phase block at any depth has a single phase. -/
theorem Module.isMultiphase_of_unphased {m : Module} (h : Stmt.firstMarkerList? m.body = none) :
    m.isMultiphase = false := by
  simp only [Module.isMultiphase, List.any_eq_false]
  intro s hs
  simp [(Stmt.firstMarker?_eq_none (Stmt.firstMarkerList?_eq_none_iff.mp h s hs)).1]

/-- With no macro bound, no invocation is found. -/
theorem Tree.collect_empty {M : Type} (isNameMacro : M → Bool) (t : Tree) :
    Tree.collect ({} : Bindings M) isNameMacro t = [] := by
  refine List.eq_nil_iff_forall_not_mem.mpr fun p hp => ?_
  obtain ⟨mac, hget, -⟩ := backs_of_mem_collect _ _ hp
  simp [Bindings.get?] at hget

namespace Run

variable {filename : String} {selfName : Option String}

/-! ## Each stage leaves macro-free code alone -/

/-- Text with no dialect-import line passes the source hooks unchanged: the rescanning loop
stops at its first round. -/
theorem transformSource_of_dialectLines_nil {s : String} (h : dialectLines s = []) (f : Nat) :
    transformSource (f + 1) s filename selfName = pure s := by
  rw [transformSource, show loopBound = 4294967295 + 1 from rfl, sourceRounds, h]
  rfl

/-- Text with no dialect-import line is parsed as it is. -/
theorem parseTransformed_of_dialectLines_nil {s : String} {m : Module} (h : dialectLines s = [])
    (hp : Syntax.parseModule s filename = .ok m) (f : Nat) :
    parseTransformed (f + 2) s filename selfName = pure m := by
  rw [parseTransformed, transformSource_of_dialectLines_nil h, pure_bind, hp]

/-- A module with no dialect-import at its top level passes the tree hooks unchanged. -/
theorem transformAst_of_no_dialects {m : Module}
    (h : ∀ st ∈ m.body, st.isMagicImport dialectsMagic = false) (f : Nat) :
    transformAst (f + 1) m filename selfName = pure (m, []) := by
  have hnone : m.body.findIdx? (Stmt.isMagicImport dialectsMagic) = none :=
    List.findIdx?_eq_none_iff.mpr h
  rw [transformAst, show m.body.length + loopBound = m.body.length + 4294967295 + 1 from rfl,
    astRounds, hnone]

/-- A module with no macro-import at its top level binds no macro and is kept as it is. -/
theorem findMacros_of_no_macros {m : Module}
    (h : ∀ st ∈ m.body, st.isMagicImport macrosMagic = false) (f : Nat) (reload : Bool) :
    findMacros (f + 1) m filename selfName reload = pure ({}, m) := by
  rw [findMacros, forIn_copy _ _ _ fun st hst acc => by simp [h st hst]]
  rfl

/-- Where the bindings find no invocation, expansion gives back a module without markers or
unlocated nodes; with no macro bound, it finds none in any module. -/
theorem expandMacros_of_collect_nil {m : Module} {b : Bindings MacroRef}
    (hc : Tree.collect b MacroRef.isNameMacro (.stmts m.body) = [])
    (hmark : Stmt.markerLocsList m.body = []) (hmiss : Stmt.missingLocsList m.body = [])
    (f : Nat) (hf : sizeOf m.body < f) :
    expandMacros (f + 1) m b filename = pure m := by
  rw [expandMacros]
  -- whatever depth bound the session sets, nothing is expanded
  trans (config >>= fun _ => pure m)
  · congr 1
    funext c
    exact Expander.expandModule_of_collect_nil m hc hmark hmiss f hf
  · rfl

/-- One phase of a module without dialect- or macro-imports and without markers or unlocated
nodes is the module itself. -/
theorem singlephaseExpand_of_macroFree {m : Module}
    (hmagic : ∀ st ∈ m.body, st.isMagicImport macrosMagic = false ∧
      st.isMagicImport dialectsMagic = false)
    (hmark : Stmt.markerLocsList m.body = []) (hmiss : Stmt.missingLocsList m.body = [])
    (f : Nat) (hf : sizeOf m.body < f) :
    singlephaseExpand (f + 2) m filename selfName = pure m := by
  rw [singlephaseExpand, transformAst_of_no_dialects (fun st h => (hmagic st h).2), pure_bind]
  dsimp only
  rw [findMacros_of_no_macros (fun st h => (hmagic st h).1), pure_bind]
  dsimp only
  rw [expandMacros_of_collect_nil (Tree.collect_empty _ _) hmark hmiss f hf, pure_bind,
    List.forIn_nil, pure_bind]
  simp [checkNoMarkers, hmark, liftExcept]

/-- Text with no dialect-import line, which parses to a clean module with no macro- or
dialect-import at its top level and no phase block at any depth, expands to that module. -/
theorem expandSource_of_clean {s : String} {m : Module} (hlines : dialectLines s = [])
    (hparse : Syntax.parseModule s filename = .ok m)
    (hmagic : ∀ st ∈ m.body, st.isMagicImport macrosMagic = false ∧
      st.isMagicImport dialectsMagic = false)
    (hphase : Stmt.firstMarkerList? m.body = none)
    (hmark : Stmt.markerLocsList m.body = []) (hmiss : Stmt.missingLocsList m.body = [])
    (f : Nat) (hf : sizeOf m.body + 3 < f) :
    expandSource f (.text s) filename selfName = pure m := by
  obtain ⟨k, rfl⟩ : ∃ k, f = k + 3 := ⟨f - 3, by omega⟩
  show expandSource (k + 2 + 1) _ _ _ = _
  rw [expandSource, parseTransformed_of_dialectLines_nil hlines hparse, pure_bind]
  dsimp only
  rw [validatePhaseMarkers_of_unphased filename hphase, Module.isMultiphase_of_unphased hphase]
  simp only [liftExcept, pure_bind, Bool.not_false, if_true]
  exact singlephaseExpand_of_macroFree hmagic hmark hmiss k (by omega)

/-! ## The whole expansion -/

/-- Expanding text with no dialect-import line gives the module the text parses to, with no
effect on the session, for every module name and every session state, when that module has
no macro- or dialect-import at its top level and no phase block at any depth; the fuel only
has to exceed the module's size. -/
theorem expandSource_macroFree_eq_parse {s : String} {m : Module}
    (hlines : dialectLines s = []) (hparse : Syntax.parseModule s filename = .ok m)
    (hmagic : ∀ stmt ∈ m.body, stmt.isMagicImport macrosMagic = false ∧
      stmt.isMagicImport dialectsMagic = false)
    (hphase : Stmt.firstMarkerList? m.body = none)
    (f : Nat) (hf : sizeOf m.body + 3 < f) (sess : Session) :
    (expandSource f (.text s) filename selfName).run sess = .ok m sess := by
  obtain ⟨hmark, hmiss⟩ := Syntax.parseModule_clean hparse
  rw [expandSource_of_clean hlines hparse hmagic hphase hmark hmiss f hf]
  rfl

/-- The module of one function that reading `def inc(x): return x + 1` gives. -/
def incModule : Module :=
  ⟨[.mk (.functionDef "inc" ["x"]
      [.mk (.ret (some (.mk (.binOp .add (.mk (.name "x") (some ⟨1, 19⟩))
        (.mk (.const (.int 1)) (some ⟨1, 23⟩))) (some ⟨1, 19⟩)))) (some ⟨1, 12⟩)] [])
    (some ⟨1, 0⟩)]⟩

set_option maxRecDepth 8000 in
theorem expandSource_inc :
    dialectLines "def inc(x): return x + 1\n" = [] ∧
    Syntax.parseModule "def inc(x): return x + 1\n" "inc.py" = .ok incModule ∧
    (∀ stmt ∈ incModule.body, stmt.isMagicImport macrosMagic = false ∧
      stmt.isMagicImport dialectsMagic = false) ∧
    Stmt.firstMarkerList? incModule.body = none ∧ sizeOf incModule.body + 3 < engineFuel ∧
    (expand (.text "def inc(x): return x + 1\n") "inc.py" none).run {} = .ok incModule {} :=
  have hparse : Syntax.parseModule "def inc(x): return x + 1\n" "inc.py" = .ok incModule := by
    cbv
  ⟨by decide, hparse, by decide, rfl, by decide,
    expandSource_macroFree_eq_parse (by decide) hparse (by decide) rfl engineFuel (by decide) {}⟩

end Run

end Espalier
