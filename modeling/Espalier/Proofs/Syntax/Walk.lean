import Mathlib
import Espalier.Syntax.Walk

/-!
# Location filling and marker stripping

The two clean-up passes of `Espalier.Syntax.Walk`, read as operations with laws:

* filling from a known location leaves no node unlocated, and filling a tree that is
  already located changes nothing;
* filling neither adds nor removes markers;
* stripping leaves no marker, and stripping a tree without markers changes nothing.

Every law is proved by one structural recursion over expressions and statements, with
the list forms alongside: each constructor unfolds both functions and uses the law at its
children.
-/

namespace Espalier

/-! ## Filling leaves nothing unlocated -/

mutual
theorem Expr.missingLocs_fillLocs_some (p : Loc) : ∀ e : Expr, (e.fillLocs (some p)).missingLocs = []
  | .mk k l => by
    cases k <;> simp [Expr.fillLocs, Expr.missingLocs, Expr.missingLocs_fillLocs_some,
      Expr.missingLocsList_fillLocsList_some]

theorem Expr.missingLocsList_fillLocsList_some (p : Loc) :
    ∀ es : List Expr, Expr.missingLocsList (Expr.fillLocsList (some p) es) = []
  | [] => rfl
  | e :: es => by
    simp [Expr.fillLocsList, Expr.missingLocsList, Expr.missingLocs_fillLocs_some p e,
      Expr.missingLocsList_fillLocsList_some p es]
end

theorem Expr.missingLocsOpt_fillLocsOpt_some (p : Loc) (e : Option Expr) :
    Expr.missingLocsOpt (Expr.fillLocsOpt (some p) e) = [] := by
  cases e <;> simp [Expr.fillLocsOpt, Expr.missingLocsOpt, Expr.missingLocs_fillLocs_some]

mutual
theorem Stmt.missingLocs_fillLocs_some (p : Loc) : ∀ s : Stmt, (s.fillLocs (some p)).missingLocs = []
  | .mk k l => by
    cases k <;> simp [Stmt.fillLocs, Stmt.missingLocs, Expr.missingLocs_fillLocs_some,
      Expr.missingLocsList_fillLocsList_some, Expr.missingLocsOpt_fillLocsOpt_some,
      Stmt.missingLocsList_fillLocsList_some]

theorem Stmt.missingLocsList_fillLocsList_some (p : Loc) :
    ∀ ss : List Stmt, Stmt.missingLocsList (Stmt.fillLocsList (some p) ss) = []
  | [] => rfl
  | s :: ss => by
    simp [Stmt.fillLocsList, Stmt.missingLocsList, Stmt.missingLocs_fillLocs_some p s,
      Stmt.missingLocsList_fillLocsList_some p ss]
end

/-- Every top-level statement is filled from a known location, so nothing stays unlocated. -/
theorem missingLocsList_fillTopLevel :
    ∀ (previous : Loc) (ss : List Stmt), Stmt.missingLocsList (fillTopLevel previous ss) = []
  | _, [] => rfl
  | previous, s :: ss => by
    simp [fillTopLevel, Stmt.missingLocsList, Stmt.missingLocs_fillLocs_some,
      missingLocsList_fillTopLevel]

theorem Module.missingLocs_fillLocs (m : Module) : Stmt.missingLocsList m.fillLocs.body = [] :=
  missingLocsList_fillTopLevel _ _

/-! ## Filling a located tree changes nothing -/

mutual
theorem Expr.fillLocs_of_located (p : Option Loc) :
    ∀ e : Expr, e.missingLocs = [] → e.fillLocs p = e
  | .mk k l, h => by
    cases k <;> cases l <;> simp_all [Expr.fillLocs, Expr.missingLocs, Expr.fillLocs_of_located,
      Expr.fillLocsList_of_located]

theorem Expr.fillLocsList_of_located (p : Option Loc) :
    ∀ es : List Expr, Expr.missingLocsList es = [] → Expr.fillLocsList p es = es
  | [], _ => rfl
  | e :: es, h => by
    simp only [Expr.missingLocsList, List.append_eq_nil_iff] at h
    simp [Expr.fillLocsList, Expr.fillLocs_of_located p e h.1, Expr.fillLocsList_of_located p es h.2]
end

theorem Expr.fillLocsOpt_of_located (p : Option Loc) (e : Option Expr)
    (h : Expr.missingLocsOpt e = []) : Expr.fillLocsOpt p e = e := by
  cases e <;> simp_all [Expr.fillLocsOpt, Expr.missingLocsOpt, Expr.fillLocs_of_located]

mutual
theorem Stmt.fillLocs_of_located (p : Option Loc) :
    ∀ s : Stmt, s.missingLocs = [] → s.fillLocs p = s
  | .mk k l, h => by
    cases k <;> cases l <;> simp_all [Stmt.fillLocs, Stmt.missingLocs, Expr.fillLocs_of_located,
      Expr.fillLocsList_of_located, Expr.fillLocsOpt_of_located, Stmt.fillLocsList_of_located]

theorem Stmt.fillLocsList_of_located (p : Option Loc) :
    ∀ ss : List Stmt, Stmt.missingLocsList ss = [] → Stmt.fillLocsList p ss = ss
  | [], _ => rfl
  | s :: ss, h => by
    simp only [Stmt.missingLocsList, List.append_eq_nil_iff] at h
    simp [Stmt.fillLocsList, Stmt.fillLocs_of_located p s h.1, Stmt.fillLocsList_of_located p ss h.2]
end

theorem fillTopLevel_of_located :
    ∀ (previous : Loc) (ss : List Stmt), Stmt.missingLocsList ss = [] → fillTopLevel previous ss = ss
  | _, [], _ => rfl
  | previous, s :: ss, h => by
    simp only [Stmt.missingLocsList, List.append_eq_nil_iff] at h
    simp [fillTopLevel, Stmt.fillLocs_of_located _ s h.1, fillTopLevel_of_located _ ss h.2]

theorem Module.fillLocs_of_located (m : Module) (h : Stmt.missingLocsList m.body = []) :
    m.fillLocs = m := by
  simp [Module.fillLocs, fillTopLevel_of_located _ _ h]

/-! ## Filling neither adds nor removes markers -/

mutual
theorem Expr.markerLocs_fillLocs_eq_nil (p : Option Loc) :
    ∀ e : Expr, (e.fillLocs p).markerLocs = [] ↔ e.markerLocs = []
  | .mk k l => by
    cases k <;> simp [Expr.fillLocs, Expr.markerLocs, Expr.markerLocs_fillLocs_eq_nil,
      Expr.markerLocsList_fillLocsList_eq_nil]

theorem Expr.markerLocsList_fillLocsList_eq_nil (p : Option Loc) :
    ∀ es : List Expr, Expr.markerLocsList (Expr.fillLocsList p es) = [] ↔ Expr.markerLocsList es = []
  | [] => Iff.rfl
  | e :: es => by
    simp [Expr.fillLocsList, Expr.markerLocsList, Expr.markerLocs_fillLocs_eq_nil p e,
      Expr.markerLocsList_fillLocsList_eq_nil p es]
end

theorem Expr.markerLocsOpt_fillLocsOpt_eq_nil (p : Option Loc) (e : Option Expr) :
    Expr.markerLocsOpt (Expr.fillLocsOpt p e) = [] ↔ Expr.markerLocsOpt e = [] := by
  cases e <;> simp [Expr.fillLocsOpt, Expr.markerLocsOpt, Expr.markerLocs_fillLocs_eq_nil]

mutual
theorem Stmt.markerLocs_fillLocs_eq_nil (p : Option Loc) :
    ∀ s : Stmt, (s.fillLocs p).markerLocs = [] ↔ s.markerLocs = []
  | .mk k l => by
    cases k <;> simp [Stmt.fillLocs, Stmt.markerLocs, Expr.markerLocs_fillLocs_eq_nil,
      Expr.markerLocsList_fillLocsList_eq_nil, Expr.markerLocsOpt_fillLocsOpt_eq_nil,
      Stmt.markerLocsList_fillLocsList_eq_nil]

theorem Stmt.markerLocsList_fillLocsList_eq_nil (p : Option Loc) :
    ∀ ss : List Stmt, Stmt.markerLocsList (Stmt.fillLocsList p ss) = [] ↔ Stmt.markerLocsList ss = []
  | [] => Iff.rfl
  | s :: ss => by
    simp [Stmt.fillLocsList, Stmt.markerLocsList, Stmt.markerLocs_fillLocs_eq_nil p s,
      Stmt.markerLocsList_fillLocsList_eq_nil p ss]
end

theorem markerLocsList_fillTopLevel_eq_nil :
    ∀ (previous : Loc) (ss : List Stmt),
      Stmt.markerLocsList (fillTopLevel previous ss) = [] ↔ Stmt.markerLocsList ss = []
  | _, [] => Iff.rfl
  | previous, s :: ss => by
    simp [fillTopLevel, Stmt.markerLocsList, Stmt.markerLocs_fillLocs_eq_nil,
      markerLocsList_fillTopLevel_eq_nil]

theorem Module.markerLocs_fillLocs_eq_nil (m : Module) :
    Stmt.markerLocsList m.fillLocs.body = [] ↔ Stmt.markerLocsList m.body = [] :=
  markerLocsList_fillTopLevel_eq_nil _ _

/-! ## Stripping -/

theorem Stmt.markerLocsList_append (ss ts : List Stmt) :
    Stmt.markerLocsList (ss ++ ts) = Stmt.markerLocsList ss ++ Stmt.markerLocsList ts := by
  induction ss with
  | nil => rfl
  | cons s ss ih => simp [Stmt.markerLocsList, ih]

theorem Stmt.stripMarkersList_append (ss ts : List Stmt) :
    Stmt.stripMarkersList (ss ++ ts) = Stmt.stripMarkersList ss ++ Stmt.stripMarkersList ts := by
  induction ss with
  | nil => rfl
  | cons s ss ih => simp [Stmt.stripMarkersList, ih]

mutual
theorem Expr.markerLocs_stripMarkers : ∀ e : Expr, e.stripMarkers.markerLocs = []
  | .mk k l => by
    cases k <;> simp [Expr.stripMarkers, Expr.markerLocs, Expr.markerLocs_stripMarkers,
      Expr.markerLocsList_stripMarkersList]

theorem Expr.markerLocsList_stripMarkersList :
    ∀ es : List Expr, Expr.markerLocsList (Expr.stripMarkersList es) = []
  | [] => rfl
  | e :: es => by
    simp [Expr.stripMarkersList, Expr.markerLocsList, Expr.markerLocs_stripMarkers e,
      Expr.markerLocsList_stripMarkersList es]
end

theorem Expr.markerLocsOpt_stripMarkersOpt (e : Option Expr) :
    Expr.markerLocsOpt (Expr.stripMarkersOpt e) = [] := by
  cases e <;> simp [Expr.stripMarkersOpt, Expr.markerLocsOpt, Expr.markerLocs_stripMarkers]

mutual
theorem Stmt.markerLocsList_stripMarkers : ∀ s : Stmt, Stmt.markerLocsList s.stripMarkers = []
  | .mk k l => by
    cases k <;> simp [Stmt.stripMarkers, Stmt.markerLocsList, Stmt.markerLocs,
      Expr.markerLocs_stripMarkers, Expr.markerLocsList_stripMarkersList,
      Expr.markerLocsOpt_stripMarkersOpt, Stmt.markerLocsList_stripMarkersList]

theorem Stmt.markerLocsList_stripMarkersList :
    ∀ ss : List Stmt, Stmt.markerLocsList (Stmt.stripMarkersList ss) = []
  | [] => rfl
  | s :: ss => by
    simp [Stmt.stripMarkersList, Stmt.markerLocsList_append, Stmt.markerLocsList_stripMarkers s,
      Stmt.markerLocsList_stripMarkersList ss]
end

mutual
theorem Expr.stripMarkers_of_unmarked : ∀ e : Expr, e.markerLocs = [] → e.stripMarkers = e
  | .mk k l, h => by
    cases k <;> simp_all [Expr.stripMarkers, Expr.markerLocs, Expr.stripMarkers_of_unmarked,
      Expr.stripMarkersList_of_unmarked]

theorem Expr.stripMarkersList_of_unmarked :
    ∀ es : List Expr, Expr.markerLocsList es = [] → Expr.stripMarkersList es = es
  | [], _ => rfl
  | e :: es, h => by
    simp only [Expr.markerLocsList, List.append_eq_nil_iff] at h
    simp [Expr.stripMarkersList, Expr.stripMarkers_of_unmarked e h.1,
      Expr.stripMarkersList_of_unmarked es h.2]
end

theorem Expr.stripMarkersOpt_of_unmarked (e : Option Expr) (h : Expr.markerLocsOpt e = []) :
    Expr.stripMarkersOpt e = e := by
  cases e <;> simp_all [Expr.stripMarkersOpt, Expr.markerLocsOpt, Expr.stripMarkers_of_unmarked]

mutual
theorem Stmt.stripMarkers_of_unmarked : ∀ s : Stmt, s.markerLocs = [] → s.stripMarkers = [s]
  | .mk k l, h => by
    cases k <;> simp_all [Stmt.stripMarkers, Stmt.markerLocs, Expr.stripMarkers_of_unmarked,
      Expr.stripMarkersList_of_unmarked, Expr.stripMarkersOpt_of_unmarked,
      Stmt.stripMarkersList_of_unmarked]

theorem Stmt.stripMarkersList_of_unmarked :
    ∀ ss : List Stmt, Stmt.markerLocsList ss = [] → Stmt.stripMarkersList ss = ss
  | [], _ => rfl
  | s :: ss, h => by
    simp only [Stmt.markerLocsList, List.append_eq_nil_iff] at h
    simp [Stmt.stripMarkersList, Stmt.stripMarkers_of_unmarked s h.1,
      Stmt.stripMarkersList_of_unmarked ss h.2]
end

end Espalier
