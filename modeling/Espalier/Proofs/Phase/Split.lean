import Mathlib
import Espalier.Proofs.Engine.MacroFree

/-!
# Splitting a module into phases

`PhaseTable.split` checks the phase markers of a module and records, in source order, each
statement with the phase it belongs to. Main statement, `PhaseTable.split_spec`: the split
succeeds exactly when the marker check does, which is exactly when every top-level phase
block is labelled (no `as` name, a positive integer literal) and no phase block stands
inside another statement (`PhaseMarkersOK`). Then

* phase 0 is the module with every phase block replaced in place by its body;
* phase `k ≥ 1` is the top-level dialect-imports followed by the bodies of the blocks
  numbered `k` or more, in source order;
* the highest phase is the largest number of a block with a non-empty body, 0 if none;
* the statement counts per phase add up to the length of phase 0.

The table is read through its entries (`PhaseTable.split_entries`): the loop of `split`
yields at every statement, so it is a fold, and each round appends the statement's entries
(`Stmt.phaseEntries`).
-/

namespace Espalier

/-! ## Loops that only yield -/

/-- A loop whose every round over the items yields `g x b` runs to the fold of `g`. -/
theorem forIn_eq_foldl_of_yield {m : Type → Type} [Monad m] [LawfulMonad m] {α β : Type}
    (xs : List α) (init : β) {body : α → β → m (ForInStep β)} (g : α → β → β)
    (h : ∀ x ∈ xs, ∀ b, body x b = pure (.yield (g x b))) :
    forIn xs init body = pure (xs.foldl (fun b x => g x b) init) := by
  induction xs generalizing init with
  | nil => rfl
  | cons x xs ih =>
    rw [List.forIn_cons, h x List.mem_cons_self, pure_bind]
    exact ih _ fun y hy => h y (List.mem_cons_of_mem x hy)

/-! ## Phase blocks, read declaratively -/

/-- The number and body of a well-formed phase block: `with phase[n]:` with no `as` name and
a positive integer literal `n`. -/
def Stmt.phaseLabel? : Stmt → Option (Nat × List Stmt)
  | .mk (.withBlock item none body) _ =>
      match phaseIndex? item with
      | some (.mk (.const (.int n)) _) => if 1 ≤ n then some (n.toNat, body) else none
      | _ => none
  | _ => none

/-- The statement lists directly inside a statement. -/
def Stmt.bodies : Stmt → List (List Stmt)
  | .mk k _ =>
    match k with
    | .withBlock _ _ b | .functionDef _ _ b _ | .classDef _ b _ | .whileLoop _ b
    | .forLoop _ _ b | .done b => [b]
    | .ifElse _ b o => [b, o]
    | _ => []

/-- `t` stands inside `s`: in one of its bodies, at any depth. -/
inductive Stmt.Inside : Stmt → Stmt → Prop
  | child {t s : Stmt} {b : List Stmt} : b ∈ s.bodies → t ∈ b → Stmt.Inside t s
  | nested {t u s : Stmt} {b : List Stmt} : b ∈ s.bodies → u ∈ b → Stmt.Inside t u →
      Stmt.Inside t s

/-- The phase markers of a statement list are well formed: every phase block is labelled,
and no phase block stands inside a statement, phase blocks included. -/
def PhaseMarkersOK (ss : List Stmt) : Prop :=
  ∀ s ∈ ss, (s.isPhaseBlock → s.phaseLabel?.isSome) ∧ ∀ t, Stmt.Inside t s → t.isPhaseBlock = false

/-- A top-level statement as phase 0 holds it: a labelled block's body, or the statement. -/
def Stmt.unwrapPhase (s : Stmt) : List Stmt :=
  match s.phaseLabel? with
  | some (_, body) => body
  | none => [s]

/-- The bodies of the labelled blocks numbered `k` or more, in source order. -/
def phaseBodiesFrom (k : Nat) (ss : List Stmt) : List Stmt :=
  ss.flatMap fun s =>
    match s.phaseLabel? with
    | some (j, body) => if k ≤ j then body else []
    | none => []

/-! ## Labels and the marker check -/

theorem Stmt.isPhaseBlock_of_phaseLabel? {s : Stmt} {k : Nat} {body : List Stmt}
    (h : s.phaseLabel? = some (k, body)) : s.isPhaseBlock = true := by
  rcases s with ⟨_ | _ | _ | _ | ⟨item, _ | a, body⟩ | _, l⟩ <;>
    simp only [Stmt.phaseLabel?, reduceCtorEq] at h
  cases hi : phaseIndex? item with
  | none => simp [hi] at h
  | some index => simp [Stmt.isPhaseBlock, hi]

/-- The number the marker check reads off a block is its label. -/
theorem phaseNumber_eq_ok_iff (file : String) (s : Stmt) (k : Nat) :
    phaseNumber file s = .ok k ↔ ∃ body, s.phaseLabel? = some (k, body) := by
  rcases s with ⟨_ | _ | _ | _ | ⟨item, _ | a, body⟩ | _, l⟩ <;>
    simp only [phaseNumber, Stmt.phaseLabel?, reduceCtorEq, exists_false, iff_false]
  · cases phaseIndex? item with
    | none => simp
    | some index =>
      rcases index with ⟨_ | ⟨_ | _ | n | _⟩ | _, _⟩ <;> simp
      by_cases hn : 1 ≤ n
      · simp [hn]
      · simp only [hn, if_false]
        split <;> simp
  · cases phaseIndex? item <;> simp

/-- A phase block passes the number check exactly when it is labelled. -/
theorem phaseNumber_ok_iff_isSome (file : String) (s : Stmt) :
    (∃ k, phaseNumber file s = .ok k) ↔ s.phaseLabel?.isSome := by
  simp only [phaseNumber_eq_ok_iff, Option.isSome_iff_exists, Prod.exists]

/-! ## Phase blocks inside statements -/

/-- Nothing in a statement's bodies is a phase block, at any depth, exactly when no body
holds one. -/
theorem Stmt.innerMarker?_eq_none_iff_bodies (s : Stmt) :
    Stmt.innerMarker? s.kind = none ↔ ∀ b ∈ s.bodies, Stmt.firstMarkerList? b = none := by
  rcases s with ⟨k, l⟩
  cases k <;> simp [Stmt.innerMarker?, Stmt.bodies, Stmt.kind]

/-- A statement whose bodies hold no phase block has none inside it, at any depth. -/
theorem Stmt.Inside.firstMarker?_eq_none {t s : Stmt} (h : Stmt.Inside t s)
    (hs : Stmt.innerMarker? s.kind = none) : Stmt.firstMarker? t = none := by
  induction h with
  | child hb ht =>
    exact Stmt.firstMarkerList?_eq_none_iff.mp
      ((Stmt.innerMarker?_eq_none_iff_bodies _).mp hs _ hb) _ ht
  | nested hb hu _ ih =>
    have hu' := Stmt.firstMarkerList?_eq_none_iff.mp
      ((Stmt.innerMarker?_eq_none_iff_bodies _).mp hs _ hb) _ hu
    exact ih (Stmt.firstMarker?_eq_none hu').2

mutual
/-- A statement with no phase block inside it holds none in its bodies. -/
theorem Stmt.innerMarker?_eq_none_of_inside :
    ∀ s : Stmt, (∀ t, Stmt.Inside t s → t.isPhaseBlock = false) → Stmt.innerMarker? s.kind = none
  | .mk k l, h => by
    -- each body is a list whose statements, and what stands inside them, stand inside `s`
    have body : ∀ b ∈ (Stmt.mk k l).bodies, ∀ u ∈ b,
        u.isPhaseBlock = false ∧ ∀ t, Stmt.Inside t u → t.isPhaseBlock = false :=
      fun b hb u hu => ⟨h u (.child hb hu), fun t ht => h t (.nested hb hu ht)⟩
    cases k with
    | withBlock _ _ b | functionDef _ _ b _ | classDef _ b _ | whileLoop _ b | forLoop _ _ b
    | done b =>
      exact Stmt.firstMarkerList?_eq_none_of_inside b (body b (by simp [Stmt.bodies]))
    | ifElse _ b o =>
      simp only [Stmt.kind, Stmt.innerMarker?,
        Stmt.firstMarkerList?_eq_none_of_inside b (body b (by simp [Stmt.bodies])),
        Stmt.firstMarkerList?_eq_none_of_inside o (body o (by simp [Stmt.bodies]))]
      rfl
    | _ => rfl

/-- A list of statements none of which is or holds a phase block has no phase block. -/
theorem Stmt.firstMarkerList?_eq_none_of_inside :
    ∀ ss : List Stmt, (∀ u ∈ ss, u.isPhaseBlock = false ∧
      ∀ t, Stmt.Inside t u → t.isPhaseBlock = false) → Stmt.firstMarkerList? ss = none
  | [], _ => rfl
  | .mk k l :: ss, h => by
    have hu := h _ List.mem_cons_self
    have hinner : Stmt.innerMarker? k = none := Stmt.innerMarker?_eq_none_of_inside _ hu.2
    simp only [Stmt.firstMarkerList?, Stmt.firstMarker?, hu.1, Bool.false_eq_true, if_false,
      hinner]
    exact Stmt.firstMarkerList?_eq_none_of_inside ss fun u hu => h u (List.mem_cons_of_mem _ hu)
end

/-- A statement holds no phase block in its bodies exactly when nothing inside it is one. -/
theorem Stmt.innerMarker?_eq_none_iff_inside (s : Stmt) :
    Stmt.innerMarker? s.kind = none ↔ ∀ t, Stmt.Inside t s → t.isPhaseBlock = false :=
  ⟨fun hs _ ht => (Stmt.firstMarker?_eq_none (ht.firstMarker?_eq_none hs)).1,
    Stmt.innerMarker?_eq_none_of_inside s⟩

/-! ## The marker check -/

/-- The check of one top-level statement: a phase block must be labelled, and no statement
may hold a phase block in its bodies. -/
theorem validatePhaseMarkers_cons_eq_ok_iff (file : String) (s : Stmt) (rest : List Stmt)
    (u : Unit) :
    validatePhaseMarkers file (s :: rest) = .ok u ↔
      (s.isPhaseBlock → s.phaseLabel?.isSome) ∧ Stmt.innerMarker? s.kind = none ∧
        validatePhaseMarkers file rest = .ok u := by
  rw [validatePhaseMarkers.eq_def]
  by_cases hp : s.isPhaseBlock
  · -- a phase block is a `with` block; its check reads the body the block's kind holds
    obtain ⟨item, a, body, l, rfl⟩ : ∃ item a body l, s = .mk (.withBlock item a body) l := by
      rcases s with ⟨_ | _ | _ | _ | ⟨item, a, body⟩ | _, l⟩ <;> simp_all [Stmt.isPhaseBlock]
    cases hn : phaseNumber file (.mk (.withBlock item a body) l) with
    | error e =>
      have hlabel : ¬ (Stmt.mk (.withBlock item a body) l).phaseLabel?.isSome := by
        rw [← phaseNumber_ok_iff_isSome file]
        simp [hn]
      simp [hp, hn, hlabel, bind, Except.bind]
    | ok k =>
      have hlabel : (Stmt.mk (.withBlock item a body) l).phaseLabel?.isSome :=
        (phaseNumber_ok_iff_isSome file _).mp ⟨k, hn⟩
      simp only [hp, if_true, hn, hlabel, Stmt.kind, Stmt.innerMarker?]
      cases Stmt.firstMarkerList? body <;>
        simp [bind, Except.bind, pure, Except.pure, throw, throwThe, MonadExceptOf.throw]
  · simp only [hp, Bool.false_eq_true, if_false, false_implies, true_and]
    cases Stmt.innerMarker? s.kind <;>
      simp [bind, Except.bind, pure, Except.pure, throw, throwThe, MonadExceptOf.throw]

/-- The marker check passes exactly when the phase markers are well formed. -/
theorem validatePhaseMarkers_ok_iff (file : String) (ss : List Stmt) :
    (∃ u, validatePhaseMarkers file ss = .ok u) ↔ PhaseMarkersOK ss := by
  induction ss with
  | nil => simp [validatePhaseMarkers, PhaseMarkersOK]
  | cons s rest ih =>
    simp only [PhaseMarkersOK, List.forall_mem_cons] at ih ⊢
    simp only [validatePhaseMarkers_cons_eq_ok_iff, ← ih, Stmt.innerMarker?_eq_none_iff_inside]
    constructor
    · rintro ⟨u, hlabel, hinside, hrest⟩
      exact ⟨⟨hlabel, hinside⟩, u, hrest⟩
    · rintro ⟨⟨hlabel, hinside⟩, u, hrest⟩
      exact ⟨u, hlabel, hinside, hrest⟩

/-! ## The table -/

/-- What a top-level statement contributes to the table: a labelled block its body at its
number, any other statement itself at phase 0. -/
def Stmt.phaseEntries (s : Stmt) : List (Nat × Stmt) :=
  match s.phaseLabel? with
  | some (k, body) => body.map (k, ·)
  | none => [(0, s)]

/-- A labelled block is a `with` block with no `as` name whose body is the label's. -/
theorem Stmt.eq_of_phaseLabel? {s : Stmt} {k : Nat} {body : List Stmt}
    (h : s.phaseLabel? = some (k, body)) : ∃ item l, s = .mk (.withBlock item none body) l := by
  rcases s with ⟨_ | _ | _ | _ | ⟨item, _ | a, body'⟩ | _, l⟩ <;>
    simp only [Stmt.phaseLabel?, reduceCtorEq] at h
  refine ⟨item, l, ?_⟩
  split at h
  · split at h
    · cases h
      rfl
    · cases h
  · cases h

/-- The loop of the split, with every round's table written out. -/
theorem PhaseTable.foldl_split (ss : List Stmt) (t : PhaseTable) :
    ss.foldl (fun t s => ⟨t.entries ++ s.phaseEntries,
        t.dialectImports ++ [s].filter (·.isMagicImport dialectsMagic)⟩) t =
      ⟨t.entries ++ ss.flatMap Stmt.phaseEntries,
        t.dialectImports ++ ss.filter (·.isMagicImport dialectsMagic)⟩ := by
  induction ss generalizing t with
  | nil => simp
  | cons s ss ih =>
    rw [List.foldl_cons, ih]
    by_cases hd : s.isMagicImport dialectsMagic <;> simp [hd]

/-- The split of a module whose markers are well formed lists each statement's entries in
source order, and the top-level dialect-imports. -/
theorem PhaseTable.split_entries {m : Module} {file : String} (h : PhaseMarkersOK m.body) :
    PhaseTable.split m file =
      .ok ⟨m.body.flatMap Stmt.phaseEntries, m.body.filter (·.isMagicImport dialectsMagic)⟩ := by
  obtain ⟨u, hv⟩ := (validatePhaseMarkers_ok_iff file m.body).mpr h
  simp only [PhaseTable.split, hv, bind, Except.bind]
  rw [forIn_eq_foldl_of_yield _ _ (fun s t => ⟨t.entries ++ s.phaseEntries,
    t.dialectImports ++ [s].filter (·.isMagicImport dialectsMagic)⟩), PhaseTable.foldl_split]
  · rfl
  intro s hs t
  by_cases hp : s.isPhaseBlock
  · -- a labelled block: its number passes the check and its body goes in at that number
    obtain ⟨⟨k, body⟩, hl⟩ := Option.isSome_iff_exists.mp ((h s hs).1 hp)
    obtain ⟨item, l, rfl⟩ := Stmt.eq_of_phaseLabel? hl
    have hn := (phaseNumber_eq_ok_iff file _ k).mpr ⟨body, hl⟩
    simp [hp, hn, Stmt.phaseEntries, hl, Stmt.isMagicImport, pure, Except.pure]
  · -- any other statement goes in at phase 0
    have hl : s.phaseLabel? = none := by
      cases hs' : s.phaseLabel? with
      | none => rfl
      | some kb => exact absurd (Stmt.isPhaseBlock_of_phaseLabel? hs') hp
    by_cases hd : s.isMagicImport dialectsMagic <;>
      simp [hp, hd, Stmt.phaseEntries, hl, pure, Except.pure]

/-- The split succeeds exactly when the marker check does. -/
theorem PhaseTable.split_ok_iff (m : Module) (file : String) :
    (∃ t, PhaseTable.split m file = .ok t) ↔ ∃ u, validatePhaseMarkers file m.body = .ok u := by
  constructor
  · rintro ⟨t, ht⟩
    cases hv : validatePhaseMarkers file m.body with
    | error e => simp [PhaseTable.split, hv, bind, Except.bind] at ht
    | ok u => exact ⟨u, rfl⟩
  · intro hv
    exact ⟨_, PhaseTable.split_entries ((validatePhaseMarkers_ok_iff file m.body).mp hv)⟩

/-! ## The four views of the table -/

/-- Phase 0 keeps every entry: a labelled block's body in its place, anything else itself. -/
theorem Stmt.phaseEntries_map_snd (s : Stmt) : s.phaseEntries.map Prod.snd = s.unwrapPhase := by
  unfold Stmt.phaseEntries Stmt.unwrapPhase
  split <;> simp

/-- Above phase 0, a statement contributes the body of a block numbered high enough. -/
theorem Stmt.phaseEntries_from {k : Nat} (hk : 1 ≤ k) (s : Stmt) :
    (s.phaseEntries.filter fun e => decide (e.1 ≥ k)).map Prod.snd =
      match s.phaseLabel? with
      | some (j, body) => if k ≤ j then body else []
      | none => [] := by
  unfold Stmt.phaseEntries
  split
  · split <;> simp_all [List.filter_map, Function.comp_def]
  · simp; omega

/-- A successful split is the table of the module's entries. -/
theorem PhaseTable.eq_of_split {m : Module} {file : String} {t : PhaseTable}
    (h : PhaseTable.split m file = .ok t) :
    t = ⟨m.body.flatMap Stmt.phaseEntries, m.body.filter (·.isMagicImport dialectsMagic)⟩ := by
  have hok : PhaseMarkersOK m.body :=
    (validatePhaseMarkers_ok_iff file m.body).mp ((PhaseTable.split_ok_iff m file).mp ⟨t, h⟩)
  rw [PhaseTable.split_entries hok] at h
  exact (Except.ok.inj h).symm

theorem PhaseTable.moduleFor_zero_of_split {m : Module} {file : String} {t : PhaseTable}
    (h : PhaseTable.split m file = .ok t) :
    (t.moduleFor 0).body = m.body.flatMap Stmt.unwrapPhase := by
  rw [PhaseTable.eq_of_split h]
  simp [PhaseTable.moduleFor, List.map_flatMap, Stmt.phaseEntries_map_snd]

theorem PhaseTable.moduleFor_of_split {m : Module} {file : String} {t : PhaseTable}
    (h : PhaseTable.split m file = .ok t) {k : Nat} (hk : 1 ≤ k) :
    (t.moduleFor k).body =
      m.body.filter (·.isMagicImport dialectsMagic) ++ phaseBodiesFrom k m.body := by
  rw [PhaseTable.eq_of_split h]
  simp only [PhaseTable.moduleFor, if_neg (show k ≠ 0 by omega), List.filter_flatMap,
    List.map_flatMap, Stmt.phaseEntries_from hk, phaseBodiesFrom]

/-! ### The highest phase -/

/-- A running maximum of first components starts at its start value and bounds every item. -/
theorem le_foldl_max_fst {α : Type} (es : List (Nat × α)) (a : Nat) :
    a ≤ es.foldl (fun m x => max m x.1) a ∧ ∀ e ∈ es, e.1 ≤ es.foldl (fun m x => max m x.1) a := by
  induction es generalizing a with
  | nil => simp
  | cons e es ih =>
    obtain ⟨hstart, hitems⟩ := ih (max a e.1)
    refine ⟨le_trans (le_max_left _ _) hstart, fun x hx => ?_⟩
    rcases List.mem_cons.mp hx with rfl | hx
    · exact le_trans (le_max_right _ _) hstart
    · exact hitems x hx

/-- A running maximum of first components is its start value or the first component of an
item. -/
theorem foldl_max_fst_eq {α : Type} (es : List (Nat × α)) (a : Nat) :
    es.foldl (fun m x => max m x.1) a = a ∨ ∃ e ∈ es, es.foldl (fun m x => max m x.1) a = e.1 := by
  induction es generalizing a with
  | nil => simp
  | cons e es ih =>
    rcases ih (max a e.1) with h | ⟨x, hx, h⟩
    · rcases max_choice a e.1 with hm | hm
      · exact .inl (by rw [List.foldl_cons, h, hm])
      · exact .inr ⟨e, List.mem_cons_self, by rw [List.foldl_cons, h, hm]⟩
    · exact .inr ⟨x, List.mem_cons_of_mem e hx, h⟩

theorem PhaseTable.maxPhase_eq_foldl (t : PhaseTable) :
    t.maxPhase = t.entries.foldl (fun m x => max m x.1) 0 := rfl

/-- The entries of a labelled block with a non-empty body include one at its number. -/
theorem Stmt.mem_phaseEntries {s : Stmt} {k : Nat} {body : List Stmt}
    (h : s.phaseLabel? = some (k, body)) {b : Stmt} (hb : b ∈ body) : (k, b) ∈ s.phaseEntries := by
  simp [Stmt.phaseEntries, h, hb]

/-- An entry above phase 0 comes from a labelled block with a non-empty body. -/
theorem Stmt.phaseLabel?_of_mem_phaseEntries {s : Stmt} {e : Nat × Stmt}
    (he : e ∈ s.phaseEntries) (hpos : e.1 ≠ 0) :
    ∃ body, s.phaseLabel? = some (e.1, body) ∧ body ≠ [] := by
  unfold Stmt.phaseEntries at he
  split at he
  · rename_i k body hl
    obtain ⟨b, hb, rfl⟩ := List.mem_map.mp he
    exact ⟨body, hl, List.ne_nil_of_mem hb⟩
  · simp only [List.mem_singleton] at he
    exact absurd (by rw [he]) hpos

theorem PhaseTable.maxPhase_of_split {m : Module} {file : String} {t : PhaseTable}
    (h : PhaseTable.split m file = .ok t) :
    (∀ s ∈ m.body, ∀ k body, s.phaseLabel? = some (k, body) → body ≠ [] → k ≤ t.maxPhase) ∧
      (t.maxPhase = 0 ∨
        ∃ s ∈ m.body, ∃ body, s.phaseLabel? = some (t.maxPhase, body) ∧ body ≠ []) := by
  rw [PhaseTable.eq_of_split h, PhaseTable.maxPhase_eq_foldl]
  constructor
  · intro s hs k body hl hne
    obtain ⟨b, hb⟩ := List.exists_mem_of_ne_nil body hne
    exact (le_foldl_max_fst _ 0).2 (k, b) (List.mem_flatMap.mpr ⟨s, hs, Stmt.mem_phaseEntries hl hb⟩)
  · rcases foldl_max_fst_eq (m.body.flatMap Stmt.phaseEntries) 0 with h0 | ⟨e, he, heq⟩
    · exact .inl h0
    · by_cases hpos : e.1 = 0
      · exact .inl (heq.trans hpos)
      · obtain ⟨s, hs, hes⟩ := List.mem_flatMap.mp he
        rw [heq]
        exact .inr ⟨s, hs, Stmt.phaseLabel?_of_mem_phaseEntries hes hpos⟩

/-! ### Counts -/

/-- Dropping the phases that count nothing leaves the total as it is. -/
theorem sum_snd_filter_pos (l : List (Nat × Nat)) :
    ((l.filter fun x => decide (x.2 > 0)).map Prod.snd).sum = (l.map Prod.snd).sum := by
  induction l with
  | nil => rfl
  | cons x l ih =>
    by_cases hx : x.2 > 0
    · simp [hx, ih]
    · simp [ih, show x.2 = 0 by omega]

theorem countP_fst_le {α : Type} (es : List (Nat × α)) (n : Nat) :
    es.countP (fun e => decide (e.1 ≤ n)) =
      es.countP (fun e => decide (e.1 < n)) + es.countP (fun e => decide (e.1 = n)) := by
  induction es with
  | nil => rfl
  | cons e es ih =>
    simp only [List.countP_cons, ih, decide_eq_true_eq]
    split_ifs <;> omega

/-- Counting the items at each value below `n` counts the items below `n`. -/
theorem sum_countP_fst_range {α : Type} (es : List (Nat × α)) (n : Nat) :
    ((List.range n).map fun k => es.countP fun e => decide (e.1 = k)).sum =
      es.countP fun e => decide (e.1 < n) := by
  induction n with
  | zero => simp
  | succ n ih =>
    rw [List.range_succ, List.map_append, List.sum_append, ih]
    simp [countP_fst_le]

/-- The counts of a table add up to its number of entries. -/
theorem PhaseTable.sum_counts (t : PhaseTable) : (t.counts.map Prod.snd).sum = t.entries.length := by
  have hbound : ∀ e ∈ t.entries, e.1 < t.maxPhase + 1 := fun e he =>
    Nat.lt_succ_of_le ((le_foldl_max_fst t.entries 0).2 e he)
  calc (t.counts.map Prod.snd).sum
      = ((List.range (t.maxPhase + 1)).map fun k =>
          t.entries.countP fun e => decide (e.1 = k)).sum := by
        simp [PhaseTable.counts, sum_snd_filter_pos, Function.comp_def, List.countP_eq_length_filter]
    _ = t.entries.countP fun e => decide (e.1 < t.maxPhase + 1) := sum_countP_fst_range _ _
    _ = t.entries.length := List.countP_eq_length.mpr (by simpa using hbound)

theorem PhaseTable.length_moduleFor_zero (t : PhaseTable) :
    (t.moduleFor 0).body.length = t.entries.length := by
  simp [PhaseTable.moduleFor]

/-! ## Main statement -/

/-- Splitting a module into phases. The split succeeds exactly when the marker check does,
which is exactly when the markers are well formed. Then phase 0 is the module with every
phase block replaced in place by its body; phase `k ≥ 1` is the top-level dialect-imports
followed by the bodies of the blocks numbered `k` or more, in source order; the highest phase
is the largest number of a block with a non-empty body, 0 if none; and the counts per phase
add up to the length of phase 0. -/
theorem PhaseTable.split_spec (m : Module) (file : String) :
    ((∃ t, PhaseTable.split m file = .ok t) ↔ ∃ u, validatePhaseMarkers file m.body = .ok u) ∧
    ((∃ u, validatePhaseMarkers file m.body = .ok u) ↔ PhaseMarkersOK m.body) ∧
    ∀ t, PhaseTable.split m file = .ok t →
      (t.moduleFor 0).body = m.body.flatMap Stmt.unwrapPhase ∧
      (∀ k, 1 ≤ k → (t.moduleFor k).body =
        m.body.filter (·.isMagicImport dialectsMagic) ++ phaseBodiesFrom k m.body) ∧
      ((∀ s ∈ m.body, ∀ k body, s.phaseLabel? = some (k, body) → body ≠ [] → k ≤ t.maxPhase) ∧
        (t.maxPhase = 0 ∨
          ∃ s ∈ m.body, ∃ body, s.phaseLabel? = some (t.maxPhase, body) ∧ body ≠ [])) ∧
      (t.counts.map Prod.snd).sum = (t.moduleFor 0).body.length :=
  ⟨PhaseTable.split_ok_iff m file, validatePhaseMarkers_ok_iff file m.body, fun _ h =>
    ⟨PhaseTable.moduleFor_zero_of_split h, fun _ hk => PhaseTable.moduleFor_of_split h hk,
      PhaseTable.maxPhase_of_split h,
      by rw [PhaseTable.sum_counts, PhaseTable.length_moduleFor_zero]⟩⟩

end Espalier
