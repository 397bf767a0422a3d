import Espalier.Macro.Basic
import Espalier.Diagnostic

/-!
# Phases

Top-level `with phase[N]:` blocks, `N ≥ 1`, split a module into phases. Phase `k` sees the
bodies of every phase block numbered `k` or higher, so definitions are inherited
downwards; phase 0 also holds everything outside phase blocks. Every phase above 0 starts
with the module's top-level dialect-imports.

A marker must be at the top level, take no `as` name, and be numbered by a positive integer
literal.
-/

namespace Espalier

/-- The word that marks a phase block. -/
def phaseMarker : String := "phase"

/-- The index of `phase[...]`, if the expression is one. -/
def phaseIndex? : Expr → Option Expr
  | .mk (.subscript (.mk (.name n) _) index) _ => if n = phaseMarker then some index else none
  | _ => none

/-- Whether a statement is a `with phase[...]:` block. -/
def Stmt.isPhaseBlock : Stmt → Bool
  | .mk (.withBlock item _ _) _ => (phaseIndex? item).isSome
  | _ => false

/-- Whether a module has a phase block at its top level. -/
def Module.isMultiphase (m : Module) : Bool := m.body.any Stmt.isPhaseBlock

/-- The number of a top-level phase block. -/
def phaseNumber (file : String) : Stmt → Except Error Nat
  | s@(.mk (.withBlock item asName _) loc) =>
      match phaseIndex? item with
      | none => .error (.plain .internalError "phase_number expects a phase marker")
      | some index =>
          if asName.isSome then .error (.atLoc .syntaxError file loc "a phase marker takes no 'as' name")
          else match index with
            | .mk (.const (.int n)) _ =>
                if n ≥ 1 then .ok n.toNat
                else if n = 0 then .error (.atLoc .syntaxError file loc
                  "phase[0] is implicit; top-level code outside phase blocks already runs in phase 0")
                else .error (.atLoc .syntaxError file s.loc "phase number must be a positive integer literal")
            | _ => .error (.atLoc .syntaxError file loc "phase number must be a positive integer literal")
  | _ => .error (.plain .internalError "phase_number expects a with-statement")

mutual
/-- The location of the first phase block at any depth of a statement, itself included. -/
def Stmt.firstMarker? : Stmt → Option (Option Loc)
  | s@(.mk k loc) =>
      if s.isPhaseBlock then some loc else Stmt.innerMarker? k

/-- The location of the first phase block inside a statement's bodies. -/
def Stmt.innerMarker? : StmtKind → Option (Option Loc)
  | .withBlock _ _ b | .functionDef _ _ b _ | .classDef _ b _ | .whileLoop _ b | .forLoop _ _ b
  | .done b => Stmt.firstMarkerList? b
  | .ifElse _ b o => (Stmt.firstMarkerList? b).orElse (fun _ => Stmt.firstMarkerList? o)
  | _ => none

/-- The location of the first phase block in a statement list, at any depth. -/
def Stmt.firstMarkerList? : List Stmt → Option (Option Loc)
  | [] => none
  | s :: ss => (Stmt.firstMarker? s).orElse (fun _ => Stmt.firstMarkerList? ss)
end

/-- Checks the phase markers: every top-level marker well numbered, none nested. -/
def validatePhaseMarkers (file : String) : List Stmt → Except Error Unit
  | [] => .ok ()
  | s :: rest => do
      let nested ← if s.isPhaseBlock then do
          let _ ← phaseNumber file s
          pure (match s with
            | .mk (.withBlock _ _ body) _ => Stmt.firstMarkerList? body
            | _ => none)
        else pure (Stmt.innerMarker? s.kind)
      match nested with
      | some loc => throw (.atLoc .syntaxError file loc
          "phase markers are only allowed at the top level of a module")
      | none => validatePhaseMarkers file rest

/-- A module split by phase: each statement with the phase it belongs to, in source order,
and the top-level dialect-imports. -/
structure PhaseTable where
  entries : List (Nat × Stmt) := []
  dialectImports : List Stmt := []

namespace PhaseTable

/-- Splits a module by its phase blocks. -/
def split (m : Module) (file : String) : Except Error PhaseTable := do
  validatePhaseMarkers file m.body
  let mut table : PhaseTable := {}
  for s in m.body do
    if s.isPhaseBlock then
      let k ← phaseNumber file s
      match s with
      | .mk (.withBlock _ _ body) _ => table := { table with entries := table.entries ++ body.map (k, ·) }
      | _ => pure ()
    else
      if s.isMagicImport dialectsMagic then
        table := { table with dialectImports := table.dialectImports ++ [s] }
      table := { table with entries := table.entries ++ [(0, s)] }
  pure table

/-- The highest phase, 0 for a module without phase blocks. -/
def maxPhase (t : PhaseTable) : Nat := t.entries.foldl (fun m (k, _) => max m k) 0

/-- How many statements each phase contributes, by ascending phase. -/
def counts (t : PhaseTable) : List (Nat × Nat) :=
  ((List.range (t.maxPhase + 1)).map fun k => (k, (t.entries.filter (·.1 = k)).length)).filter
    (·.2 > 0)

/-- The module that phase `k` compiles. -/
def moduleFor (t : PhaseTable) (k : Nat) : Module :=
  ⟨(if k = 0 then [] else t.dialectImports) ++ (t.entries.filter (·.1 ≥ k)).map (·.2)⟩

end PhaseTable

/-- The dotted name of the module that runs phase `k` of module `self`. -/
def phaseModuleName (k : Nat) (self : String) : String := "__phase" ++ toString k ++ "__." ++ self

end Espalier
