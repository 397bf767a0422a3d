import Mathlib
import Espalier.Import.Deps
import Espalier.Builtins

/-!
# Dependency times over a fixed graph

A file's dependency time is meant to be the latest modification time over the file and
every file its macro- and dialect-imports reach. The walk that computes it (`xstatsWith`)
remembers each file's time once it is computed, and counts 0 for a file met again while its
own time is still being computed, which ends cycles.

This module runs the walk over a fixed `DepGraph`: where each path leads, each file's time
and each file's dependencies are functions of the path, as they are while the files do
not change. Main statements:

* `xstats_frames`: a query ends with the in-progress set it started with, keeps every
  remembered time, and remembers nothing new for a file in progress.
* `xstats_failure`: a failed query fails along a `FailPath`, a chain of dependencies from its
  file down to a file that cannot be read or to the end of the fuel, and none of the files
  whose computation failed is remembered afterwards.
* `xstats_ok_of_readable`: a query over a readable, finite part of the graph succeeds once
  the fuel exceeds twice the number of files.
* `xstats_latest_of_exactMemo`: while every remembered time is exact, a query returns the
  latest time over all the file reaches, on every graph, cycles included. This covers the
  first query of a session and the first after the caches are cleared.
* `xstats_exactMemo_of_acyclic`: on a graph without cycles the remembered times stay exact,
  so every query of every sequence is exact (`xstats_queries_latest`).
* `xstats_remembers_cut_value`: on a cycle they do not. Asked for `b` and then for `a`, the
  walk answers for `a` the time it remembered while `b` was in progress, which misses `b`.
-/

namespace Espalier

/-- A dependency graph as the walk reads it: the canonical path a path names, the
modification time of a file, and the paths of the files a file depends on. Each reading
may fail. -/
structure DepGraph where
  canonical : String → Except Error String
  mtime : String → Except Error Nat
  dependsOn : String → Except Error (List String)

namespace DepGraph

variable (G : DepGraph)

/-- Reading a fixed graph: every reading is the graph's value, whatever the session. -/
def reads : DepsReads where
  canonical p := Run.liftExcept (G.canonical p)
  mtime c := Run.liftExcept (G.mtime c)
  dependsOn c := Run.liftExcept (G.dependsOn c)

/-- `c` depends directly on `d`: one of its dependency paths leads to `d`. -/
def Edge (c d : String) : Prop :=
  ∃ ps, G.dependsOn c = .ok ps ∧ ∃ q ∈ ps, G.canonical q = .ok d

/-- `d` is reachable from `c` through dependencies, `c` itself included. -/
def Reaches : String → String → Prop := Relation.ReflTransGen G.Edge

/-- `v` is the latest modification time over the files reachable from `c`. -/
def Latest (c : String) (v : Nat) : Prop :=
  (∀ d, G.Reaches c d → ∃ t, G.mtime d = .ok t ∧ t ≤ v) ∧
    ∃ d, G.Reaches c d ∧ G.mtime d = .ok v

/-- `v` is the time of a file reachable from `c`, and no earlier than `c`'s own time. -/
def Attained (c : String) (v : Nat) : Prop :=
  (∃ t, G.mtime c = .ok t ∧ t ≤ v) ∧ ∃ d, G.Reaches c d ∧ G.mtime d = .ok v

/-- No file reaches itself through a nonempty chain of dependencies. -/
def Acyclic : Prop := ∀ c, ¬ Relation.TransGen G.Edge c c

/-- Every remembered time is the latest over what its file reaches. -/
def ExactMemo (M : List (String × Nat)) : Prop := ∀ c v, M.lookup c = some v → G.Latest c v

/-- Every remembered time is attained by a file its file reaches. -/
def SoundMemo (M : List (String × Nat)) : Prop := ∀ c v, M.lookup c = some v → G.Attained c v

/-- Everything reachable from `c` is among the files `L` and can be read: its time, its
dependencies, and where each dependency path leads. -/
structure Readable (L : List String) (c : String) : Prop where
  mem : ∀ d, G.Reaches c d → d ∈ L
  mtime : ∀ d, G.Reaches c d → ∃ t, G.mtime d = .ok t
  deps : ∀ d, G.Reaches c d → ∃ ps, G.dependsOn d = .ok ps ∧ ∀ q ∈ ps, ∃ e, G.canonical q = .ok e

variable {G}

theorem Edge.of_mem {c d q : String} {ps : List String} (hps : G.dependsOn c = .ok ps)
    (hq : q ∈ ps) (hd : G.canonical q = .ok d) : G.Edge c d :=
  ⟨ps, hps, q, hq, hd⟩

theorem Latest.attained {c : String} {v : Nat} (h : G.Latest c v) : G.Attained c v :=
  ⟨h.1 c .refl, h.2⟩

theorem ExactMemo.sound {M : List (String × Nat)} (h : G.ExactMemo M) : G.SoundMemo M :=
  fun c v hv => (h c v hv).attained

theorem Readable.of_reaches {L : List String} {c d : String} (h : G.Readable L c)
    (hcd : G.Reaches c d) : G.Readable L d where
  mem e hde := h.mem e (hcd.trans hde)
  mtime e hde := h.mtime e (hcd.trans hde)
  deps e hde := h.deps e (hcd.trans hde)

end DepGraph

/-! ## Caches and results -/

theorem lookup_cons_of_ne {α : Type} {a k : String} {b : α} {l : List (String × α)} (h : a ≠ k) :
    ((k, b) :: l).lookup a = l.lookup a := by
  simp [List.lookup_cons, beq_eq_false_iff_ne.mpr h]

theorem lookup_map_set_of_ne {α : Type} (xs : List (String × α)) {k k' : String} (v : α) (hk : k' ≠ k) :
    (xs.map fun (x : String × α) => if x.1 = k then (k, v) else x).lookup k' = xs.lookup k' := by
  induction xs with
  | nil => rfl
  | cons x xs ih =>
    obtain ⟨a, b⟩ := x
    by_cases hak : a = k
    · subst hak
      simp [lookup_cons_of_ne hk, ih]
    · by_cases hk' : k' = a
      · subst hk'
        simp [hak]
      · simp [hak, lookup_cons_of_ne hk', ih]

theorem lookup_map_set_self {α : Type} (xs : List (String × α)) (k : String) (v : α)
    (h : ∃ p ∈ xs, p.1 = k) :
    (xs.map fun (x : String × α) => if x.1 = k then (k, v) else x).lookup k = some v := by
  induction xs with
  | nil => simp at h
  | cons x xs ih =>
    obtain ⟨a, b⟩ := x
    by_cases hak : a = k
    · subst hak
      simp
    · have h' : ∃ p ∈ xs, p.1 = k := by simpa [hak] using h
      simp [hak, lookup_cons_of_ne (Ne.symm hak), ih h']

/-- Sets an existing key in place and adds a new one at the end: either way the key now
reads back its new value, and every other key reads as before. -/
theorem lookup_assocSet {α : Type} (xs : List (String × α)) (k k' : String) (v : α) :
    (assocSet xs k v).lookup k' = if k' = k then some v else xs.lookup k' := by
  unfold assocSet
  split
  · rename_i hany
    -- the pairs are updated by one test on their key
    rw [List.map_congr_left (g := fun x : String × α => if x.1 = k then (k, v) else x) (by
      intro x _
      obtain ⟨a, b⟩ := x
      simp)]
    by_cases hk' : k' = k
    · subst hk'
      rw [lookup_map_set_self xs k' v (by simpa using hany), if_pos rfl]
    · rw [lookup_map_set_of_ne xs v hk', if_neg hk']
  · rename_i hany
    by_cases hk' : k' = k
    · subst hk'
      have hnone : xs.lookup k' = none := by
        simp only [List.lookup_eq_none_iff]
        intro p hp
        simp only [List.any_eq_true, not_exists, not_and] at hany
        have hp' : p.1 ≠ k' := by simpa using hany p hp
        simp [bne, beq_eq_false_iff_ne.mpr (Ne.symm hp')]
      simp [List.lookup_append, hnone]
    · simp [List.lookup_append, hk']
      cases xs.lookup k' <;> simp [hk']

/-- The state a run ends in, whether it succeeded or failed. -/
def endState {α : Type} : EStateM.Result Error Session α → Session
  | .ok _ s => s
  | .error _ s => s

@[simp] theorem endState_ok {α : Type} (a : α) (s : Session) : endState (.ok a s) = s := rfl

@[simp] theorem endState_error {α : Type} (e : Error) (s : Session) :
    endState (.error e s : EStateM.Result Error Session α) = s := rfl

namespace Run

variable (G : DepGraph)

/-! ## One step of the walk -/

theorem run_bind {α β : Type} (x : Run α) (k : α → Run β) (s : Session) :
    (x >>= k).run s = match x.run s with
      | .ok a s' => (k a).run s'
      | .error e s' => .error e s' := by
  simp only [EStateM.run, bind, EStateM.bind]
  cases x s <;> rfl

theorem run_liftExcept {α : Type} (x : Except Error α) (s : Session) :
    (liftExcept x).run s = match x with
      | .ok a => .ok a s
      | .error e => .error e s := by
  cases x <;> rfl

/-- The loop of `computeXstatsWith`: the latest of `acc` and the times of the files the
paths `ps` lead to. -/
def latestOver (f : Nat) (ps : List String) (acc : Nat) : Run Nat :=
  ps.foldlM (fun acc q => max acc <$> xstatsWith G.reads f q) acc

theorem xstatsWith_zero_run (p : String) (s : Session) :
    (xstatsWith G.reads 0 p).run s =
      .error (.plain .internalError "dependency chain too long") s := rfl

theorem computeXstatsWith_zero_run (c : String) (s : Session) :
    (computeXstatsWith G.reads 0 c).run s =
      .error (.plain .internalError "dependency chain too long") s := rfl

/-- A query reads where the path leads; a remembered time is the answer, a file in
progress counts 0, and any other file's time is computed with the file in progress and
then remembered. -/
theorem xstatsWith_succ_run (f : Nat) (p : String) (s : Session) :
    (xstatsWith G.reads (f + 1) p).run s =
      match G.canonical p with
      | .error e => .error e s
      | .ok c =>
        match s.xstats.lookup c with
        | some t => .ok t s
        | none =>
          if s.inProgress.contains c then .ok 0 s
          else
            match (computeXstatsWith G.reads f c).run { s with inProgress := c :: s.inProgress } with
            | .ok t s' => .ok t { s' with inProgress := s'.inProgress.filter (· != c),
                                          xstats := assocSet s'.xstats c t }
            | .error e s' => .error e { s' with inProgress := s'.inProgress.filter (· != c) } := by
  cases hc : G.canonical p with
  | error e =>
    simp only [xstatsWith, DepGraph.reads, liftExcept, hc]
    rfl
  | ok c =>
    cases hm : s.xstats.lookup c with
    | some t =>
      simp only [xstatsWith, DepGraph.reads, liftExcept, hc]
      simp only [EStateM.run, bind, EStateM.bind, pure, EStateM.pure, get, getThe,
        MonadStateOf.get, EStateM.get, hm]
    | none =>
      cases hp : s.inProgress.contains c with
      | true =>
        simp only [xstatsWith, DepGraph.reads, liftExcept, hc]
        simp only [EStateM.run, bind, EStateM.bind, pure, EStateM.pure, get, getThe,
          MonadStateOf.get, EStateM.get, hm, hp, if_true]
      | false =>
        simp only [xstatsWith, DepGraph.reads, liftExcept, hc]
        simp only [EStateM.run, bind, EStateM.bind, pure, EStateM.pure, get, getThe,
          MonadStateOf.get, EStateM.get, hm, hp, Bool.false_eq_true, if_false, modify, modifyGet,
          MonadStateOf.modifyGet, EStateM.modifyGet, tryCatch, tryCatchThe,
          MonadExceptOf.tryCatch, EStateM.tryCatch, Functor.map, EStateM.map]
        cases computeXstatsWith _ f c { s with inProgress := c :: s.inProgress } <;> rfl

section Cases
variable {G} {f : Nat} {p c : String} {s : Session}

theorem xstatsWith_run_of_canonical_error {e : Error} (h : G.canonical p = .error e) :
    (xstatsWith G.reads (f + 1) p).run s = .error e s := by
  rw [xstatsWith_succ_run, h]

theorem xstatsWith_run_of_lookup {t : Nat} (hc : G.canonical p = .ok c)
    (hm : s.xstats.lookup c = some t) : (xstatsWith G.reads (f + 1) p).run s = .ok t s := by
  rw [xstatsWith_succ_run, hc]
  simp only [hm]

theorem xstatsWith_run_of_inProgress (hc : G.canonical p = .ok c)
    (hm : s.xstats.lookup c = none) (hp : c ∈ s.inProgress) :
    (xstatsWith G.reads (f + 1) p).run s = .ok 0 s := by
  rw [xstatsWith_succ_run, hc]
  simp only [hm, List.contains_iff_mem.mpr hp, if_true]

/-- A file neither remembered nor in progress is computed with itself in progress, taken
out of progress again, and remembered when the computation succeeds. -/
theorem xstatsWith_run_fresh (hc : G.canonical p = .ok c) (hm : s.xstats.lookup c = none)
    (hp : c ∉ s.inProgress) :
    (xstatsWith G.reads (f + 1) p).run s =
      match (computeXstatsWith G.reads f c).run { s with inProgress := c :: s.inProgress } with
      | .ok t s' => .ok t { s' with inProgress := s'.inProgress.filter (· != c),
                                    xstats := assocSet s'.xstats c t }
      | .error e s' => .error e { s' with inProgress := s'.inProgress.filter (· != c) } := by
  have hp' : s.inProgress.contains c = false := by
    simpa [List.contains_iff_mem] using hp
  rw [xstatsWith_succ_run, hc]
  simp only [hm, hp', Bool.false_eq_true, if_false]

end Cases

/-- A file's own time, then the loop over its dependencies. -/
theorem computeXstatsWith_succ_run (f : Nat) (c : String) (s : Session) :
    (computeXstatsWith G.reads (f + 1) c).run s =
      match G.mtime c with
      | .error e => .error e s
      | .ok t =>
        match G.dependsOn c with
        | .error e => .error e s
        | .ok ps => (latestOver G f ps t).run s := by
  have h : computeXstatsWith G.reads (f + 1) c = (do
      let t ← liftExcept (G.mtime c)
      let ps ← liftExcept (G.dependsOn c)
      latestOver G f ps t) := by
    simp [computeXstatsWith, DepGraph.reads, latestOver]
  rw [h, run_bind]
  cases G.mtime c with
  | error e => rfl
  | ok t =>
    rw [run_liftExcept]
    simp only
    rw [run_bind]
    cases G.dependsOn c <;> rfl

section Cases
variable {G} {f : Nat} {c : String} {s : Session}

theorem computeXstatsWith_run_of_mtime_error {e : Error} (h : G.mtime c = .error e) :
    (computeXstatsWith G.reads (f + 1) c).run s = .error e s := by
  rw [computeXstatsWith_succ_run, h]

theorem computeXstatsWith_run_of_deps_error {t : Nat} {e : Error} (ht : G.mtime c = .ok t)
    (h : G.dependsOn c = .error e) : (computeXstatsWith G.reads (f + 1) c).run s = .error e s := by
  rw [computeXstatsWith_succ_run, ht]
  simp only [h]

theorem computeXstatsWith_run_loop {t : Nat} {ps : List String} (ht : G.mtime c = .ok t)
    (hps : G.dependsOn c = .ok ps) :
    (computeXstatsWith G.reads (f + 1) c).run s = (latestOver G f ps t).run s := by
  rw [computeXstatsWith_succ_run, ht]
  simp only [hps]

end Cases

@[simp] theorem latestOver_nil_run (f acc : Nat) (s : Session) :
    (latestOver G f [] acc).run s = .ok acc s := rfl

theorem latestOver_cons_run (f acc : Nat) (q : String) (qs : List String) (s : Session) :
    (latestOver G f (q :: qs) acc).run s =
      match (xstatsWith G.reads f q).run s with
      | .ok v s' => (latestOver G f qs (max acc v)).run s'
      | .error e s' => .error e s' := by
  simp only [latestOver, List.foldlM_cons]
  rw [run_bind, map_eq_pure_bind, run_bind]
  cases (xstatsWith G.reads f q).run s <;> rfl

/-! ## What a query does to the caches -/

/-- What a run does to the caches: it ends with the in-progress set it started with, keeps
every remembered time, and remembers nothing new for a file in progress. -/
structure Frames (s s' : Session) : Prop where
  inProgress : s'.inProgress = s.inProgress
  keeps : ∀ x v, s.xstats.lookup x = some v → s'.xstats.lookup x = some v
  skips : ∀ x ∈ s.inProgress, s'.xstats.lookup x = s.xstats.lookup x

theorem Frames.refl (s : Session) : Frames s s := ⟨rfl, fun _ _ h => h, fun _ _ => rfl⟩

theorem Frames.trans {s₁ s₂ s₃ : Session} (h₁ : Frames s₁ s₂) (h₂ : Frames s₂ s₃) :
    Frames s₁ s₃ where
  inProgress := h₂.inProgress.trans h₁.inProgress
  keeps x v hx := h₂.keeps x v (h₁.keeps x v hx)
  skips x hx := (h₂.skips x (h₁.inProgress ▸ hx)).trans (h₁.skips x hx)

/-- Taking a file out of progress again gives back the set it was added to. -/
theorem filter_cons_of_not_mem {c : String} {P : List String} (hc : c ∉ P) :
    (c :: P).filter (· != c) = P := by
  rw [List.filter_cons_of_neg (by simp), List.filter_eq_self]
  intro x hx
  have : x ≠ c := fun h => hc (h ▸ hx)
  simpa using this

section Frames

variable {G}

theorem frames_latestOver {f : Nat}
    (hx : ∀ p s, Frames s (endState ((xstatsWith G.reads f p).run s)))
    (ps : List String) (acc : Nat) (s : Session) :
    Frames s (endState ((latestOver G f ps acc).run s)) := by
  induction ps generalizing acc s with
  | nil => exact .refl s
  | cons q qs ih =>
    rw [latestOver_cons_run]
    have h := hx q s
    cases hr : (xstatsWith G.reads f q).run s with
    | ok v s₁ =>
      rw [hr] at h
      exact h.trans (ih _ s₁)
    | error e s₁ =>
      rw [hr] at h
      exact h

theorem frames_compute_succ {f : Nat}
    (hl : ∀ ps acc s, Frames s (endState ((latestOver G f ps acc).run s))) (c : String)
    (s : Session) : Frames s (endState ((computeXstatsWith G.reads (f + 1) c).run s)) := by
  rw [computeXstatsWith_succ_run]
  cases G.mtime c with
  | error e => exact .refl s
  | ok t =>
    cases G.dependsOn c with
    | error e => exact .refl s
    | ok ps => exact hl ps t s

theorem frames_xstats_succ {f : Nat}
    (hc : ∀ c s, Frames s (endState ((computeXstatsWith G.reads f c).run s))) (p : String)
    (s : Session) : Frames s (endState ((xstatsWith G.reads (f + 1) p).run s)) := by
  cases hcan : G.canonical p with
  | error e =>
    rw [xstatsWith_run_of_canonical_error hcan]
    exact .refl s
  | ok c =>
    cases hm : s.xstats.lookup c with
    | some t =>
      rw [xstatsWith_run_of_lookup hcan hm]
      exact .refl s
    | none =>
      by_cases hcP : c ∈ s.inProgress
      · rw [xstatsWith_run_of_inProgress hcan hm hcP]
        exact .refl s
      rw [xstatsWith_run_fresh hcan hm hcP]
      have h := hc c { s with inProgress := c :: s.inProgress }
      -- the computation runs with `c` in progress; afterwards `c` leaves the set again
      have hback : ∀ s₂ : Session, s₂.inProgress = c :: s.inProgress →
          s₂.inProgress.filter (· != c) = s.inProgress := fun s₂ h₂ => by
        rw [h₂, filter_cons_of_not_mem hcP]
      cases hr : (computeXstatsWith G.reads f c).run { s with inProgress := c :: s.inProgress } with
      | ok t s₂ =>
        rw [hr] at h
        refine ⟨hback s₂ h.inProgress, fun x v hx => ?_, fun x hx => ?_⟩
        · have hxc : x ≠ c := by rintro rfl; simp [hm] at hx
          simpa [lookup_assocSet, hxc] using h.keeps x v hx
        · have hxc : x ≠ c := by rintro rfl; exact hcP hx
          simpa [lookup_assocSet, hxc] using h.skips x (List.mem_cons_of_mem c hx)
      | error e s₂ =>
        rw [hr] at h
        exact ⟨hback s₂ h.inProgress, h.keeps, fun x hx => h.skips x (List.mem_cons_of_mem c hx)⟩

/-- The three functions of the walk keep the caches framed, at every fuel. -/
theorem frames_all (f : Nat) :
    (∀ p s, Frames s (endState ((xstatsWith G.reads f p).run s))) ∧
    (∀ c s, Frames s (endState ((computeXstatsWith G.reads f c).run s))) ∧
    (∀ ps acc s, Frames s (endState ((latestOver G f ps acc).run s))) := by
  induction f with
  | zero =>
    have hx : ∀ p s, Frames s (endState ((xstatsWith G.reads 0 p).run s)) := fun p s => by
      rw [xstatsWith_zero_run]
      exact .refl s
    refine ⟨hx, fun c s => ?_, frames_latestOver hx⟩
    rw [computeXstatsWith_zero_run]
    exact .refl s
  | succ f ih =>
    have hx := frames_xstats_succ ih.2.1
    exact ⟨hx, frames_compute_succ ih.2.2, frames_latestOver hx⟩

/-- A query ends with the in-progress set it started with, keeps every remembered time, and
remembers nothing new for a file that was in progress. -/
theorem xstats_frames (f : Nat) (p : String) (s : Session) :
    Frames s (endState ((xstatsWith G.reads f p).run s)) :=
  (frames_all f).1 p s

end Frames

/-! ## Remembered times are attained -/

section Sound

/-- What soundness says of a run of a query for `p` from `s`: remembered times stay sound,
and the answer is attained from where `p` leads, unless that file was in progress and
the answer is 0. -/
structure QuerySound (p : String) (s : Session) (r : EStateM.Result Error Session Nat) : Prop where
  memo : G.SoundMemo (endState r).xstats
  value : ∀ v s', r = .ok v s' →
    ∃ c, G.canonical p = .ok c ∧ (G.Attained c v ∨ (c ∈ s.inProgress ∧ v = 0))

/-- What soundness says of a run that computes a time for `c`: remembered times stay
sound, and the answer is attained from `c`. -/
structure ComputeSound (c : String) (r : EStateM.Result Error Session Nat) : Prop where
  memo : G.SoundMemo (endState r).xstats
  value : ∀ v s', r = .ok v s' → G.Attained c v

variable {G}

/-- The loop over some of `c`'s dependencies keeps the running latest attained from `c`. -/
theorem sound_latestOver {f : Nat} {c : String}
    (hx : ∀ p s, G.SoundMemo s.xstats → QuerySound G p s ((xstatsWith G.reads f p).run s))
    (ps : List String) (hedge : ∀ q ∈ ps, ∀ d, G.canonical q = .ok d → G.Edge c d)
    (acc : Nat) (hacc : G.Attained c acc) (s : Session) (hs : G.SoundMemo s.xstats) :
    ComputeSound G c ((latestOver G f ps acc).run s) := by
  induction ps generalizing acc s with
  | nil =>
    rw [latestOver_nil_run]
    exact ⟨hs, fun v s' h => by cases h; exact hacc⟩
  | cons q qs ih =>
    rw [latestOver_cons_run]
    have hq := hx q s hs
    cases hr : (xstatsWith G.reads f q).run s with
    | error e s₁ =>
      rw [hr] at hq
      exact ⟨hq.memo, fun v s' h => by cases h⟩
    | ok v s₁ =>
      rw [hr] at hq
      obtain ⟨d, hd, hv⟩ := hq.value v s₁ rfl
      have hedge' : ∀ q' ∈ qs, ∀ d', G.canonical q' = .ok d' → G.Edge c d' :=
        fun q' hq' => hedge q' (List.mem_cons_of_mem q hq')
      -- the new running latest is either the old one or the dependency's answer
      have hmax : G.Attained c (max acc v) := by
        rcases Nat.le_total v acc with hle | hle
        · rwa [Nat.max_eq_left hle]
        · rw [Nat.max_eq_right hle]
          rcases hv with ⟨⟨t, ht, htv⟩, d', hdd', hd'⟩ | ⟨-, rfl⟩
          · obtain ⟨⟨tc, htc, htcacc⟩, -⟩ := hacc
            refine ⟨⟨tc, htc, Nat.le_trans htcacc hle⟩, d', ?_, hd'⟩
            exact Relation.ReflTransGen.head (hedge q List.mem_cons_self d hd) hdd'
          · exact (Nat.le_zero.mp hle) ▸ hacc
      exact ih hedge' (max acc v) hmax s₁ hq.memo

theorem sound_compute_succ {f : Nat}
    (hl : ∀ c ps, (∀ q ∈ ps, ∀ d, G.canonical q = .ok d → G.Edge c d) → ∀ acc, G.Attained c acc →
      ∀ s, G.SoundMemo s.xstats → ComputeSound G c ((latestOver G f ps acc).run s))
    (c : String) (s : Session) (hs : G.SoundMemo s.xstats) :
    ComputeSound G c ((computeXstatsWith G.reads (f + 1) c).run s) := by
  cases ht : G.mtime c with
  | error e =>
    rw [computeXstatsWith_run_of_mtime_error ht]
    exact ⟨hs, fun v s' h => by cases h⟩
  | ok t =>
    cases hps : G.dependsOn c with
    | error e =>
      rw [computeXstatsWith_run_of_deps_error ht hps]
      exact ⟨hs, fun v s' h => by cases h⟩
    | ok ps =>
      rw [computeXstatsWith_run_loop ht hps]
      refine hl c ps (fun q hq d hd => .of_mem hps hq hd) t ⟨⟨t, ht, Nat.le_refl t⟩, c, .refl, ht⟩ s hs

theorem sound_xstats_succ {f : Nat}
    (hc : ∀ c s, G.SoundMemo s.xstats → ComputeSound G c ((computeXstatsWith G.reads f c).run s))
    (p : String) (s : Session) (hs : G.SoundMemo s.xstats) :
    QuerySound G p s ((xstatsWith G.reads (f + 1) p).run s) := by
  cases hcan : G.canonical p with
  | error e =>
    rw [xstatsWith_run_of_canonical_error hcan]
    exact ⟨hs, fun v s' h => by cases h⟩
  | ok c =>
    cases hm : s.xstats.lookup c with
    | some t =>
      rw [xstatsWith_run_of_lookup hcan hm]
      exact ⟨hs, fun v s' h => by cases h; exact ⟨c, hcan, .inl (hs c t hm)⟩⟩
    | none =>
      by_cases hcP : c ∈ s.inProgress
      · rw [xstatsWith_run_of_inProgress hcan hm hcP]
        exact ⟨hs, fun v s' h => by cases h; exact ⟨c, hcan, .inr ⟨hcP, rfl⟩⟩⟩
      rw [xstatsWith_run_fresh hcan hm hcP]
      have h := hc c { s with inProgress := c :: s.inProgress } hs
      cases hr : (computeXstatsWith G.reads f c).run { s with inProgress := c :: s.inProgress } with
      | ok t s₂ =>
        rw [hr] at h
        have ht := h.value t s₂ rfl
        refine ⟨fun x w hx => ?_, fun v s' hv => ?_⟩
        · by_cases hxc : x = c
          · subst hxc
            simp only [endState_ok, lookup_assocSet, ↓reduceIte, Option.some.injEq] at hx
            exact hx ▸ ht
          · simp only [endState_ok, lookup_assocSet, if_neg hxc] at hx
            exact h.memo x w hx
        · cases hv
          exact ⟨c, hcan, .inl ht⟩
      | error e s₂ =>
        rw [hr] at h
        exact ⟨h.memo, fun v s' hv => by cases hv⟩

/-- Soundness holds of the three functions of the walk, at every fuel. -/
theorem sound_all (f : Nat) :
    (∀ p s, G.SoundMemo s.xstats → QuerySound G p s ((xstatsWith G.reads f p).run s)) ∧
    (∀ c s, G.SoundMemo s.xstats → ComputeSound G c ((computeXstatsWith G.reads f c).run s)) ∧
    (∀ c ps, (∀ q ∈ ps, ∀ d, G.canonical q = .ok d → G.Edge c d) → ∀ acc, G.Attained c acc →
      ∀ s, G.SoundMemo s.xstats → ComputeSound G c ((latestOver G f ps acc).run s)) := by
  induction f with
  | zero =>
    have hx : ∀ p s, G.SoundMemo s.xstats → QuerySound G p s ((xstatsWith G.reads 0 p).run s) :=
      fun p s hs => by
        rw [xstatsWith_zero_run]
        exact ⟨hs, fun v s' h => by cases h⟩
    refine ⟨hx, fun c s hs => ?_, fun c ps hedge acc hacc s hs => sound_latestOver hx ps hedge acc hacc s hs⟩
    rw [computeXstatsWith_zero_run]
    exact ⟨hs, fun v s' h => by cases h⟩
  | succ f ih =>
    have hx := sound_xstats_succ ih.2.1
    exact ⟨hx, sound_compute_succ ih.2.2,
      fun c ps hedge acc hacc s hs => sound_latestOver hx ps hedge acc hacc s hs⟩

/-- Every answer of a query, and every time it leaves remembered, is the time of a file
reachable from its own and no earlier than that file's own time; only a file already in
progress is answered 0. -/
theorem xstats_sound (f : Nat) (p : String) (s : Session) (hs : G.SoundMemo s.xstats) :
    QuerySound G p s ((xstatsWith G.reads f p).run s) :=
  (sound_all f).1 p s hs

end Sound

/-! ## Every file the query reaches is accounted for

A query from an empty in-progress set is exact when the remembered times were: every file
the query first remembers is remembered no later than its answer, and each dependency of
such a file is remembered by the query too, or was remembered before no later than the
answer. Below the top, a dependency may instead be a file still in progress: those are the
cut files, whose times reach the answer through the files above them. -/

/-- `y` is covered at `v` by a run from `s` to `s'`: the run first remembered it, or it
was in progress, or it was remembered before with a time no later than `v`. -/
def Covered (s s' : Session) (v : Nat) (y : String) : Prop :=
  (s.xstats.lookup y = none ∧ (s'.xstats.lookup y).isSome) ∨ y ∈ s.inProgress ∨
    ∃ u, s.xstats.lookup y = some u ∧ u ≤ v

/-- A run from `s` to `s'` spans up to `v`: each file it first remembered is remembered no
later than `v`, and each dependency of such a file is covered at `v`. -/
structure Spans (s s' : Session) (v : Nat) : Prop where
  le : ∀ x w, s.xstats.lookup x = none → s'.xstats.lookup x = some w → w ≤ v
  covers : ∀ x w, s.xstats.lookup x = none → s'.xstats.lookup x = some w →
    ∀ y, G.Edge x y → Covered s s' v y

section Spans

variable {G} {s s₁ s' : Session} {v v' : Nat} {y : String}

theorem Covered.mono (hv : v ≤ v') (h : Covered s s' v y) : Covered s s' v' y := by
  rcases h with h | h | ⟨u, hu, huv⟩
  · exact .inl h
  · exact .inr (.inl h)
  · exact .inr (.inr ⟨u, hu, Nat.le_trans huv hv⟩)

/-- A later state still covers what an earlier one did. -/
theorem Covered.extend {s'' : Session} (h' : Frames s' s'') (h : Covered s s' v y) :
    Covered s s'' v y := by
  rcases h with ⟨hnone, hsome⟩ | h | h
  · obtain ⟨w, hw⟩ := Option.isSome_iff_exists.mp hsome
    exact .inl ⟨hnone, by simp [h'.keeps y w hw]⟩
  · exact .inr (.inl h)
  · exact .inr (.inr h)

/-- What a run covers from a middle state, the whole run covers from its start. -/
theorem Covered.restart (h₁ : Frames s s₁) (h₂ : Frames s₁ s') (h : Covered s₁ s' v y) :
    Covered s s' v y := by
  rcases h with ⟨hnone, hsome⟩ | h | ⟨u, hu, huv⟩
  · refine .inl ⟨?_, hsome⟩
    cases hs : s.xstats.lookup y with
    | none => rfl
    | some u => simp [h₁.keeps y u hs] at hnone
  · exact .inr (.inl (h₁.inProgress ▸ h))
  · cases hs : s.xstats.lookup y with
    | none => exact .inl ⟨hs, by simp [h₂.keeps y u hu]⟩
    | some u' =>
      have : u' = u := by simpa [h₁.keeps y u' hs] using hu
      exact .inr (.inr ⟨u', hs, this ▸ huv⟩)

theorem Spans.refl (s : Session) (v : Nat) : Spans G s s v where
  le x w hnone hw := by simp [hnone] at hw
  covers x w hnone hw := by simp [hnone] at hw

theorem Spans.trans {s₂ : Session} (h₁ : Frames s s₁) (h₂ : Frames s₁ s₂) (hv : v ≤ v')
    (hs₁ : Spans G s s₁ v) (hs₂ : Spans G s₁ s₂ v') : Spans G s s₂ v' where
  le x w hnone hw := by
    cases hx : s₁.xstats.lookup x with
    | none => exact hs₂.le x w hx hw
    | some w₁ =>
      have hw₁ : w₁ = w := by simpa [h₂.keeps x w₁ hx] using hw
      subst hw₁
      exact Nat.le_trans (hs₁.le x w₁ hnone hx) hv
  covers x w hnone hw y hxy := by
    cases hx : s₁.xstats.lookup x with
    | none => exact (hs₂.covers x w hx hw y hxy).restart h₁ h₂
    | some w₁ => exact ((hs₁.covers x w₁ hnone hx y hxy).mono hv).extend h₂

/-- A run with `c` put in progress, ended by taking `c` out again and remembering `t` for
it: what the inner run covered, the whole query covers. -/
theorem Covered.remember {c : String} {t : Nat} (hm : s.xstats.lookup c = none)
    {s₂ : Session} (h : Covered { s with inProgress := c :: s.inProgress } s₂ t y) :
    Covered s { s₂ with inProgress := s₂.inProgress.filter (· != c),
                        xstats := assocSet s₂.xstats c t } t y := by
  rcases h with ⟨hnone, hsome⟩ | h | h
  · refine .inl ⟨hnone, ?_⟩
    by_cases hyc : y = c <;> simp [lookup_assocSet, hyc, hsome]
  · rcases List.mem_cons.mp h with rfl | h
    · exact .inl ⟨hm, by simp [lookup_assocSet]⟩
    · exact .inr (.inl h)
  · exact .inr (.inr h)

end Spans

section Cover

/-- What the cover invariant says of a successful query for `p` from `s`: where `p` leads
is covered at the answer, and the run spans up to the answer. -/
def QuerySpans (p : String) (s : Session) (r : EStateM.Result Error Session Nat) : Prop :=
  ∀ v s', r = .ok v s' → ∃ c, G.canonical p = .ok c ∧ Covered s s' v c ∧ Spans G s s' v

/-- What the cover invariant says of a successful computation for `c` from `s`: the run
spans up to the answer, and covers each of `c`'s dependencies at it. -/
def ComputeSpans (c : String) (s : Session) (r : EStateM.Result Error Session Nat) : Prop :=
  ∀ v s', r = .ok v s' → Spans G s s' v ∧ ∀ y, G.Edge c y → Covered s s' v y

/-- What the cover invariant says of a successful loop over the paths `ps` from `s`,
started at `acc`. -/
def LoopSpans (ps : List String) (acc : Nat) (s : Session)
    (r : EStateM.Result Error Session Nat) : Prop :=
  ∀ v s', r = .ok v s' →
    Spans G s s' v ∧ acc ≤ v ∧ ∀ q ∈ ps, ∀ d, G.canonical q = .ok d → Covered s s' v d

variable {G}

theorem spans_latestOver {f : Nat}
    (hx : ∀ p s, QuerySpans G p s ((xstatsWith G.reads f p).run s))
    (ps : List String) (acc : Nat) (s : Session) :
    LoopSpans G ps acc s ((latestOver G f ps acc).run s) := by
  induction ps generalizing acc s with
  | nil =>
    intro v s' h
    rw [latestOver_nil_run] at h
    cases h
    exact ⟨.refl s acc, Nat.le_refl acc, fun q hq => absurd hq List.not_mem_nil⟩
  | cons q qs ih =>
    intro r s' h
    rw [latestOver_cons_run] at h
    cases hq : (xstatsWith G.reads f q).run s with
    | error e s₁ => rw [hq] at h; cases h
    | ok v s₁ =>
      rw [hq] at h
      obtain ⟨d, hd, hcov, hspan⟩ := hx q s v s₁ hq
      obtain ⟨hspan', hle, hrest⟩ := ih (max acc v) s₁ r s' h
      have h₁ : Frames s s₁ := by simpa [hq] using xstats_frames (G := G) f q s
      have h₂ : Frames s₁ s' := by simpa [h] using (frames_all (G := G) f).2.2 qs (max acc v) s₁
      have hvr : v ≤ r := Nat.le_trans (Nat.le_max_right acc v) hle
      refine ⟨hspan.trans h₁ h₂ hvr hspan', Nat.le_trans (Nat.le_max_left acc v) hle, ?_⟩
      intro q' hq' d' hd'
      rcases List.mem_cons.mp hq' with rfl | hq'
      · have : d' = d := by simpa [hd] using hd'.symm
        exact this ▸ (hcov.mono hvr).extend h₂
      · exact (hrest q' hq' d' hd').restart h₁ h₂

theorem spans_compute_succ {f : Nat}
    (hl : ∀ ps acc s, LoopSpans G ps acc s ((latestOver G f ps acc).run s)) (c : String)
    (s : Session) : ComputeSpans G c s ((computeXstatsWith G.reads (f + 1) c).run s) := by
  intro v s' h
  cases ht : G.mtime c with
  | error e => rw [computeXstatsWith_run_of_mtime_error ht] at h; cases h
  | ok t =>
    cases hps : G.dependsOn c with
    | error e => rw [computeXstatsWith_run_of_deps_error ht hps] at h; cases h
    | ok ps =>
      rw [computeXstatsWith_run_loop ht hps] at h
      obtain ⟨hspan, -, hcov⟩ := hl ps t s v s' h
      refine ⟨hspan, fun y ⟨ps', hps', q, hq, hqy⟩ => ?_⟩
      obtain rfl : ps' = ps := by simpa [hps] using hps'.symm
      exact hcov q hq y hqy

theorem spans_xstats_succ {f : Nat}
    (hc : ∀ c s, ComputeSpans G c s ((computeXstatsWith G.reads f c).run s)) (p : String)
    (s : Session) : QuerySpans G p s ((xstatsWith G.reads (f + 1) p).run s) := by
  intro v s' h
  cases hcan : G.canonical p with
  | error e => rw [xstatsWith_run_of_canonical_error hcan] at h; cases h
  | ok c =>
    refine ⟨c, rfl, ?_⟩
    cases hm : s.xstats.lookup c with
    | some t =>
      rw [xstatsWith_run_of_lookup hcan hm] at h
      cases h
      exact ⟨.inr (.inr ⟨v, hm, Nat.le_refl v⟩), .refl s v⟩
    | none =>
      by_cases hcP : c ∈ s.inProgress
      · rw [xstatsWith_run_of_inProgress hcan hm hcP] at h
        cases h
        exact ⟨.inr (.inl hcP), .refl s 0⟩
      rw [xstatsWith_run_fresh hcan hm hcP] at h
      cases hr : (computeXstatsWith G.reads f c).run { s with inProgress := c :: s.inProgress } with
      | error e s₂ => rw [hr] at h; cases h
      | ok t s₂ =>
        rw [hr] at h
        cases h
        obtain ⟨hspan, hcov⟩ := hc c _ v s₂ hr
        refine ⟨.inl ⟨hm, by simp [lookup_assocSet]⟩, fun x w hnone hw => ?_, fun x w hnone hw y hxy => ?_⟩
        · by_cases hxc : x = c
          · subst hxc
            simp [lookup_assocSet] at hw
            exact hw ▸ Nat.le_refl _
          · simp only [lookup_assocSet, if_neg hxc] at hw
            exact hspan.le x w hnone hw
        · by_cases hxc : x = c
          · subst hxc
            exact (hcov y hxy).remember hm
          · simp only [lookup_assocSet, if_neg hxc] at hw
            exact (hspan.covers x w hnone hw y hxy).remember hm

/-- The cover invariant holds of the three functions of the walk, at every fuel. -/
theorem spans_all (f : Nat) :
    (∀ p s, QuerySpans G p s ((xstatsWith G.reads f p).run s)) ∧
    (∀ c s, ComputeSpans G c s ((computeXstatsWith G.reads f c).run s)) ∧
    (∀ ps acc s, LoopSpans G ps acc s ((latestOver G f ps acc).run s)) := by
  induction f with
  | zero =>
    have hx : ∀ p s, QuerySpans G p s ((xstatsWith G.reads 0 p).run s) := fun p s v s' h => by
      rw [xstatsWith_zero_run] at h
      cases h
    refine ⟨hx, fun c s v s' h => ?_, spans_latestOver hx⟩
    rw [computeXstatsWith_zero_run] at h
    cases h
  | succ f ih =>
    have hx := spans_xstats_succ ih.2.1
    exact ⟨hx, spans_compute_succ ih.2.2, spans_latestOver hx⟩

/-- At the top of a query, a covered file was either first remembered by the query, no
later than its answer, or remembered before, no later than its answer. -/
theorem Covered.of_top {s s' : Session} {v : Nat} {y : String} (hP : s.inProgress = [])
    (hspan : Spans G s s' v) (h : Covered s s' v y) :
    (∃ w, s.xstats.lookup y = none ∧ s'.xstats.lookup y = some w ∧ w ≤ v) ∨
      ∃ u, s.xstats.lookup y = some u ∧ u ≤ v := by
  rcases h with ⟨hnone, hsome⟩ | h | h
  · obtain ⟨w, hw⟩ := Option.isSome_iff_exists.mp hsome
    exact .inl ⟨w, hnone, hw, hspan.le y w hnone hw⟩
  · simp [hP] at h
  · exact .inr h

/-- While every remembered time is exact, a query from an empty in-progress set answers the
latest time over everything the file reaches, cycles included: files cut off below are
accounted for by the files above them, which all lie under the answer. -/
theorem xstats_latest_of_exactMemo (f : Nat) (p : String) (s : Session)
    (hP : s.inProgress = []) (hM : G.ExactMemo s.xstats) {v : Nat} {s' : Session}
    (hr : (xstatsWith G.reads f p).run s = .ok v s') :
    ∃ c, G.canonical p = .ok c ∧ G.Latest c v := by
  obtain ⟨c, hc, hcov, hspan⟩ := (spans_all f).1 p s v s' hr
  have hsound := xstats_sound f p s hM.sound
  rw [hr] at hsound
  obtain ⟨c', hc', hatt⟩ := hsound.value v s' rfl
  have hcc : c = c' := by simpa [hc] using hc'
  subst hcc
  have hatt : G.Attained c v := hatt.resolve_right (by simp [hP])
  -- every file reachable from `c` was first remembered by the query under `v`, or is
  -- reachable from a file remembered before under `v`
  have key : ∀ d, G.Reaches c d →
      (∃ w, s.xstats.lookup d = none ∧ s'.xstats.lookup d = some w ∧ w ≤ v) ∨
        ∃ z u, s.xstats.lookup z = some u ∧ u ≤ v ∧ G.Reaches z d := by
    intro d hd
    induction hd with
    | refl =>
      rcases hcov.of_top hP hspan with h | ⟨u, hu, huv⟩
      · exact .inl h
      · exact .inr ⟨c, u, hu, huv, .refl⟩
    | tail _ hde ih =>
      rcases ih with ⟨w, hnone, hw, -⟩ | ⟨z, u, hz, huv, hzd⟩
      · rcases (hspan.covers _ w hnone hw _ hde).of_top hP hspan with h | ⟨u, hu, huv⟩
        · exact .inl h
        · exact .inr ⟨_, u, hu, huv, .refl⟩
      · exact .inr ⟨z, u, hz, huv, hzd.tail hde⟩
  refine ⟨c, hc, fun d hd => ?_, hatt.2⟩
  rcases key d hd with ⟨w, -, hw, hwv⟩ | ⟨z, u, hz, huv, hzd⟩
  · obtain ⟨⟨t, ht, htw⟩, -⟩ := hsound.memo d w hw
    exact ⟨t, ht, Nat.le_trans htw hwv⟩
  · obtain ⟨t, ht, htu⟩ := (hM z u hz).1 d hzd
    exact ⟨t, ht, Nat.le_trans htu huv⟩

end Cover

/-! ## Without cycles, remembered times stay exact -/

section Acyclic

/-- What exactness says of a query for `p` from `s` ending in `r`: remembered times stay
exact, and an answer is the latest over what `p` leads to. -/
structure QueryExact (p : String) (r : EStateM.Result Error Session Nat) : Prop where
  memo : G.ExactMemo (endState r).xstats
  value : ∀ v s', r = .ok v s' → ∃ c, G.canonical p = .ok c ∧ G.Latest c v

/-- What exactness says of a computation for `c` ending in `r`. -/
structure ComputeExact (c : String) (r : EStateM.Result Error Session Nat) : Prop where
  memo : G.ExactMemo (endState r).xstats
  value : ∀ v s', r = .ok v s' → G.Latest c v

/-- What exactness says of the loop over the paths `ps`, started at `acc`: its answer is at
least `acc` and every latest time the paths lead to, and is one of them or `acc`. -/
structure LoopExact (ps : List String) (acc : Nat) (r : EStateM.Result Error Session Nat) :
    Prop where
  memo : G.ExactMemo (endState r).xstats
  value : ∀ v s', r = .ok v s' → acc ≤ v ∧
    (∀ q ∈ ps, ∀ d, G.canonical q = .ok d → ∃ u, G.Latest d u ∧ u ≤ v) ∧
    (v = acc ∨ ∃ q ∈ ps, ∃ d, G.canonical q = .ok d ∧ G.Latest d v)

variable {G}

theorem exact_latestOver {f : Nat}
    (hx : ∀ p s, G.ExactMemo s.xstats →
      (∀ c, G.canonical p = .ok c → ∀ x ∈ s.inProgress, Relation.TransGen G.Edge x c) →
      QueryExact G p ((xstatsWith G.reads f p).run s))
    {c : String} (ps : List String) (hedge : ∀ q ∈ ps, ∀ d, G.canonical q = .ok d → G.Edge c d)
    (acc : Nat) (s : Session) (hM : G.ExactMemo s.xstats)
    (hP : ∀ x ∈ s.inProgress, G.Reaches x c) :
    LoopExact G ps acc ((latestOver G f ps acc).run s) := by
  induction ps generalizing acc s with
  | nil =>
    rw [latestOver_nil_run]
    exact ⟨hM, fun v s' h => by
      cases h
      exact ⟨Nat.le_refl acc, fun q hq => absurd hq List.not_mem_nil, .inl rfl⟩⟩
  | cons q qs ih =>
    rw [latestOver_cons_run]
    -- every file in progress reaches each dependency of `c` through `c`
    have hq := hx q s hM fun d hd x hx => Relation.TransGen.tail' (hP x hx) (hedge q List.mem_cons_self d hd)
    cases hr : (xstatsWith G.reads f q).run s with
    | error e s₁ =>
      rw [hr] at hq
      exact ⟨hq.memo, fun v s' h => by cases h⟩
    | ok v s₁ =>
      rw [hr] at hq
      obtain ⟨d, hd, hlat⟩ := hq.value v s₁ rfl
      have h₁ : Frames s s₁ := by simpa [hr] using xstats_frames (G := G) f q s
      have hP₁ : ∀ x ∈ s₁.inProgress, G.Reaches x c := by rw [h₁.inProgress]; exact hP
      have hrest := ih (fun q' hq' => hedge q' (List.mem_cons_of_mem q hq')) (max acc v) s₁
        hq.memo hP₁
      refine ⟨hrest.memo, fun r s' h => ?_⟩
      obtain ⟨hle, hall, hone⟩ := hrest.value r s' h
      refine ⟨Nat.le_trans (Nat.le_max_left acc v) hle, fun q' hq' d' hd' => ?_, ?_⟩
      · rcases List.mem_cons.mp hq' with rfl | hq'
        · have hdd : d' = d := by simpa [hd] using hd'.symm
          subst hdd
          exact ⟨v, hlat, Nat.le_trans (Nat.le_max_right acc v) hle⟩
        · exact hall q' hq' d' hd'
      · rcases hone with hr' | ⟨q', hq', d', hd', hlat'⟩
        · rcases Nat.le_total v acc with hva | hav
          · exact .inl (hr'.trans (Nat.max_eq_left hva))
          · exact .inr ⟨q, List.mem_cons_self, d, hd, by rw [hr', Nat.max_eq_right hav]; exact hlat⟩
        · exact .inr ⟨q', List.mem_cons_of_mem q hq', d', hd', hlat'⟩

theorem exact_compute_succ {f : Nat}
    (hl : ∀ c ps, (∀ q ∈ ps, ∀ d, G.canonical q = .ok d → G.Edge c d) → ∀ acc s,
      G.ExactMemo s.xstats → (∀ x ∈ s.inProgress, G.Reaches x c) →
      LoopExact G ps acc ((latestOver G f ps acc).run s))
    (c : String) (s : Session) (hM : G.ExactMemo s.xstats)
    (hP : ∀ x ∈ s.inProgress, G.Reaches x c) :
    ComputeExact G c ((computeXstatsWith G.reads (f + 1) c).run s) := by
  cases ht : G.mtime c with
  | error e =>
    rw [computeXstatsWith_run_of_mtime_error ht]
    exact ⟨hM, fun v s' h => by cases h⟩
  | ok t =>
    cases hps : G.dependsOn c with
    | error e =>
      rw [computeXstatsWith_run_of_deps_error ht hps]
      exact ⟨hM, fun v s' h => by cases h⟩
    | ok ps =>
      rw [computeXstatsWith_run_loop ht hps]
      have hloop := hl c ps (fun q hq d hd => .of_mem hps hq hd) t s hM hP
      refine ⟨hloop.memo, fun v s' h => ?_⟩
      obtain ⟨htv, hall, hone⟩ := hloop.value v s' h
      refine ⟨fun d hd => ?_, ?_⟩
      · -- a file reachable from `c` is `c` or reachable from one of its dependencies
        rcases hd.cases_head with rfl | ⟨e, ⟨ps', hps', q, hq, hqe⟩, hed⟩
        · exact ⟨t, ht, htv⟩
        · obtain rfl : ps' = ps := by simpa [hps] using hps'.symm
          obtain ⟨u, hlat, huv⟩ := hall q hq e hqe
          obtain ⟨t', ht', ht'u⟩ := hlat.1 d hed
          exact ⟨t', ht', Nat.le_trans ht'u huv⟩
      · rcases hone with rfl | ⟨q, hq, d, hd, hlat⟩
        · exact ⟨c, .refl, ht⟩
        · obtain ⟨d', hdd', hd'⟩ := hlat.2
          exact ⟨d', Relation.ReflTransGen.head (DepGraph.Edge.of_mem hps hq hd) hdd', hd'⟩

theorem exact_xstats_succ {f : Nat} (hG : G.Acyclic)
    (hc : ∀ c s, G.ExactMemo s.xstats → (∀ x ∈ s.inProgress, G.Reaches x c) →
      ComputeExact G c ((computeXstatsWith G.reads f c).run s))
    (p : String) (s : Session) (hM : G.ExactMemo s.xstats)
    (hP : ∀ c, G.canonical p = .ok c → ∀ x ∈ s.inProgress, Relation.TransGen G.Edge x c) :
    QueryExact G p ((xstatsWith G.reads (f + 1) p).run s) := by
  cases hcan : G.canonical p with
  | error e =>
    rw [xstatsWith_run_of_canonical_error hcan]
    exact ⟨hM, fun v s' h => by cases h⟩
  | ok c =>
    cases hm : s.xstats.lookup c with
    | some t =>
      rw [xstatsWith_run_of_lookup hcan hm]
      exact ⟨hM, fun v s' h => by cases h; exact ⟨c, hcan, hM c t hm⟩⟩
    | none =>
      -- a file in progress reaches `c`, so `c` itself in progress would close a cycle
      have hcP : c ∉ s.inProgress := fun h => hG c (hP c hcan c h)
      rw [xstatsWith_run_fresh hcan hm hcP]
      have h := hc c { s with inProgress := c :: s.inProgress } hM fun x hx => by
        rcases List.mem_cons.mp hx with rfl | hx
        · exact .refl
        · exact (hP c hcan x hx).to_reflTransGen
      cases hr : (computeXstatsWith G.reads f c).run { s with inProgress := c :: s.inProgress } with
      | ok t s₂ =>
        rw [hr] at h
        have ht := h.value t s₂ rfl
        refine ⟨fun x w hx => ?_, fun v s' hv => ?_⟩
        · by_cases hxc : x = c
          · subst hxc
            simp only [endState_ok, lookup_assocSet, ↓reduceIte, Option.some.injEq] at hx
            exact hx ▸ ht
          · simp only [endState_ok, lookup_assocSet, if_neg hxc] at hx
            exact h.memo x w hx
        · cases hv
          exact ⟨c, hcan, ht⟩
      | error e s₂ =>
        rw [hr] at h
        exact ⟨h.memo, fun v s' hv => by cases hv⟩

/-- On a graph without cycles, exactness holds of the three functions of the walk. -/
theorem exact_all (hG : G.Acyclic) (f : Nat) :
    (∀ p s, G.ExactMemo s.xstats →
      (∀ c, G.canonical p = .ok c → ∀ x ∈ s.inProgress, Relation.TransGen G.Edge x c) →
      QueryExact G p ((xstatsWith G.reads f p).run s)) ∧
    (∀ c s, G.ExactMemo s.xstats → (∀ x ∈ s.inProgress, G.Reaches x c) →
      ComputeExact G c ((computeXstatsWith G.reads f c).run s)) ∧
    (∀ c ps, (∀ q ∈ ps, ∀ d, G.canonical q = .ok d → G.Edge c d) → ∀ acc s,
      G.ExactMemo s.xstats → (∀ x ∈ s.inProgress, G.Reaches x c) →
      LoopExact G ps acc ((latestOver G f ps acc).run s)) := by
  induction f with
  | zero =>
    have hx : ∀ p s, G.ExactMemo s.xstats →
        (∀ c, G.canonical p = .ok c → ∀ x ∈ s.inProgress, Relation.TransGen G.Edge x c) →
        QueryExact G p ((xstatsWith G.reads 0 p).run s) := fun p s hM _ => by
      rw [xstatsWith_zero_run]
      exact ⟨hM, fun v s' h => by cases h⟩
    refine ⟨hx, fun c s hM _ => ?_, fun c ps hedge acc s hM hP => exact_latestOver hx ps hedge acc s hM hP⟩
    rw [computeXstatsWith_zero_run]
    exact ⟨hM, fun v s' h => by cases h⟩
  | succ f ih =>
    have hx := exact_xstats_succ hG ih.2.1
    exact ⟨hx, exact_compute_succ ih.2.2,
      fun c ps hedge acc s hM hP => exact_latestOver hx ps hedge acc s hM hP⟩

/-- On a graph without cycles, a query from an empty in-progress set keeps every remembered
time exact and answers the latest time over what its file reaches. -/
theorem xstats_exactMemo_of_acyclic (hG : G.Acyclic) (f : Nat) (p : String) (s : Session)
    (hP : s.inProgress = []) (hM : G.ExactMemo s.xstats) :
    QueryExact G p ((xstatsWith G.reads f p).run s) :=
  (exact_all hG f).1 p s hM fun c _ x hx => by simp [hP] at hx

end Acyclic

/-! ## How a query fails -/

section Failure

/-- `FailPath G f p P K`: a query for `p` with fuel `f`, started while the files `P` are in
progress, can fail, with `K` the files whose computation it started and saw fail, outermost
first. Each file of `K` depends on the next; the failure itself is running out of fuel, a
path that leads nowhere, or a file whose time or dependencies cannot be read. -/
inductive FailPath (G : DepGraph) : Nat → String → List String → List String → Prop
  | outOfFuel {p P} : FailPath G 0 p P []
  | unresolved {f p P e} : G.canonical p = .error e → FailPath G (f + 1) p P []
  | computeOutOfFuel {p c P} : G.canonical p = .ok c → c ∉ P → FailPath G 1 p P [c]
  | unreadable {f p c P} : G.canonical p = .ok c → c ∉ P →
      ((∃ e, G.mtime c = .error e) ∨ ∃ e, G.dependsOn c = .error e) →
      FailPath G (f + 2) p P [c]
  | dependency {f p c q P K ps} : G.canonical p = .ok c → c ∉ P → G.dependsOn c = .ok ps →
      q ∈ ps → FailPath G f q (c :: P) K → FailPath G (f + 2) p P (c :: K)

/-- A failed query from `s` ending in `r` failed along a `FailPath`, none of whose files is
remembered at the end. -/
def QueryFails (f : Nat) (p : String) (s : Session) (r : EStateM.Result Error Session Nat) :
    Prop :=
  ∀ e s', r = .error e s' →
    ∃ K, FailPath G f p s.inProgress K ∧ ∀ x ∈ K, s'.xstats.lookup x = none

/-- A failed computation for `c`, run with `c` on top of the in-progress set, makes the query
that started it fail along `c` and the files `K` below it. -/
def ComputeFails (f : Nat) (c : String) (s : Session) (r : EStateM.Result Error Session Nat) :
    Prop :=
  ∀ e s', r = .error e s' → ∃ K,
    (∀ p P, G.canonical p = .ok c → c ∉ P → s.inProgress = c :: P →
      FailPath G (f + 1) p P (c :: K)) ∧ ∀ x ∈ K, s'.xstats.lookup x = none

/-- A failed loop over `ps` failed in the query for one of them. -/
def LoopFails (f : Nat) (ps : List String) (s : Session) (r : EStateM.Result Error Session Nat) :
    Prop :=
  ∀ e s', r = .error e s' → ∃ q ∈ ps, ∃ K,
    FailPath G f q s.inProgress K ∧ ∀ x ∈ K, s'.xstats.lookup x = none

variable {G}

theorem fails_latestOver {f : Nat} (hx : ∀ p s, QueryFails G f p s ((xstatsWith G.reads f p).run s))
    (ps : List String) (acc : Nat) (s : Session) :
    LoopFails G f ps s ((latestOver G f ps acc).run s) := by
  induction ps generalizing acc s with
  | nil =>
    intro e s' h
    rw [latestOver_nil_run] at h
    cases h
  | cons q qs ih =>
    intro e s' h
    rw [latestOver_cons_run] at h
    have hq := hx q s
    have hf := xstats_frames (G := G) f q s
    cases hr : (xstatsWith G.reads f q).run s with
    | error e₁ s₁ =>
      rw [hr] at h hq
      cases h
      obtain ⟨K, hK, hnone⟩ := hq e s' rfl
      exact ⟨q, List.mem_cons_self, K, hK, hnone⟩
    | ok v s₁ =>
      rw [hr] at h hf
      simp only [endState_ok] at hf
      -- the query for `q` succeeded and put the in-progress set back, so the rest starts alike
      obtain ⟨q', hq', K, hK, hnone⟩ := ih (max acc v) s₁ e s' h
      rw [hf.inProgress] at hK
      exact ⟨q', List.mem_cons_of_mem q hq', K, hK, hnone⟩

theorem fails_compute_succ {f : Nat}
    (hl : ∀ ps acc s, LoopFails G f ps s ((latestOver G f ps acc).run s))
    (c : String) (s : Session) :
    ComputeFails G (f + 1) c s ((computeXstatsWith G.reads (f + 1) c).run s) := by
  intro e s' h
  cases ht : G.mtime c with
  | error e₁ =>
    rw [computeXstatsWith_run_of_mtime_error ht] at h
    cases h
    exact ⟨[], fun p P hc hcP _ => .unreadable hc hcP (.inl ⟨_, ht⟩), by simp⟩
  | ok t =>
    cases hps : G.dependsOn c with
    | error e₁ =>
      rw [computeXstatsWith_run_of_deps_error ht hps] at h
      cases h
      exact ⟨[], fun p P hc hcP _ => .unreadable hc hcP (.inr ⟨_, hps⟩), by simp⟩
    | ok ps =>
      rw [computeXstatsWith_run_loop ht hps] at h
      obtain ⟨q, hq, K, hK, hnone⟩ := hl ps t s e s' h
      refine ⟨K, fun p P hc hcP hs => ?_, hnone⟩
      rw [hs] at hK
      exact .dependency hc hcP hps hq hK

theorem fails_xstats_succ {f : Nat}
    (hc : ∀ c s, ComputeFails G f c s ((computeXstatsWith G.reads f c).run s))
    (p : String) (s : Session) :
    QueryFails G (f + 1) p s ((xstatsWith G.reads (f + 1) p).run s) := by
  intro e s' h
  cases hcan : G.canonical p with
  | error e₁ =>
    exact ⟨[], .unresolved hcan, by simp⟩
  | ok c =>
    cases hm : s.xstats.lookup c with
    | some t =>
      rw [xstatsWith_run_of_lookup hcan hm] at h
      cases h
    | none =>
      by_cases hcP : c ∈ s.inProgress
      · rw [xstatsWith_run_of_inProgress hcan hm hcP] at h
        cases h
      rw [xstatsWith_run_fresh hcan hm hcP] at h
      have hC := hc c { s with inProgress := c :: s.inProgress }
      have hF := (frames_all (G := G) f).2.1 c { s with inProgress := c :: s.inProgress }
      cases hr : (computeXstatsWith G.reads f c).run { s with inProgress := c :: s.inProgress } with
      | ok t s₂ =>
        rw [hr] at h
        cases h
      | error e₂ s₂ =>
        rw [hr] at h hF
        cases h
        obtain ⟨K, hK, hnone⟩ := hC _ _ hr
        refine ⟨c :: K, hK p s.inProgress hcan hcP rfl, fun x hx => ?_⟩
        rcases List.mem_cons.mp hx with rfl | hx
        · -- `c` was in progress throughout its own computation, so nothing was remembered for it
          simpa [hm] using hF.skips x List.mem_cons_self
        · exact hnone x hx

/-- Every failure of the three functions of the walk is explained by a `FailPath`. -/
theorem fails_all (f : Nat) :
    (∀ p s, QueryFails G f p s ((xstatsWith G.reads f p).run s)) ∧
    (∀ c s, ComputeFails G f c s ((computeXstatsWith G.reads f c).run s)) ∧
    (∀ ps acc s, LoopFails G f ps s ((latestOver G f ps acc).run s)) := by
  induction f with
  | zero =>
    have hx : ∀ p s, QueryFails G 0 p s ((xstatsWith G.reads 0 p).run s) := fun p s e s' _ =>
      ⟨[], .outOfFuel, by simp⟩
    refine ⟨hx, fun c s e s' h => ?_, fails_latestOver hx⟩
    rw [computeXstatsWith_zero_run] at h
    cases h
    exact ⟨[], fun p P hc hcP _ => .computeOutOfFuel hc hcP, by simp⟩
  | succ f ih =>
    have hx := fails_xstats_succ ih.2.1
    exact ⟨hx, fails_compute_succ ih.2.2, fails_latestOver hx⟩

/-- A failed query puts the in-progress set back as it found it, and fails along a
`FailPath` from its file, none of whose files is remembered afterwards. -/
theorem xstats_failure {f : Nat} {p : String} {s s' : Session} {e : Error}
    (h : (xstatsWith G.reads f p).run s = .error e s') :
    s'.inProgress = s.inProgress ∧
      ∃ K, FailPath G f p s.inProgress K ∧ ∀ x ∈ K, s'.xstats.lookup x = none := by
  have hF := xstats_frames (G := G) f p s
  rw [h] at hF
  exact ⟨hF.inProgress, (fails_all f).1 p s e s' h⟩

/-- A readable, finite part of the graph gives no failure path once the fuel exceeds twice the
number of its files not yet in progress. -/
theorem FailPath.false_of_readable {L : List String} {f : Nat} {p : String} {P K : List String}
    (h : FailPath G f p P K) (hP : P.Nodup) (hPL : P ⊆ L)
    (hR : ∃ c, G.canonical p = .ok c ∧ G.Readable L c) (hf : 2 * (L.length - P.length) < f) :
    False := by
  induction h with
  | outOfFuel => omega
  | unresolved hc =>
    obtain ⟨c, hc', _⟩ := hR
    simp [hc] at hc'
  | @computeOutOfFuel p c P hc hcP =>
    obtain ⟨c', hc', hRc⟩ := hR
    have hcc : c = c' := by simpa [hc] using hc'
    subst hcc
    -- `c` is one of `L` and not yet in progress, so `P` leaves room in `L`
    have hlen := List.Nodup.length_le_of_subset (List.nodup_cons.mpr ⟨hcP, hP⟩)
      (List.cons_subset.mpr ⟨hRc.mem c .refl, hPL⟩)
    simp only [List.length_cons] at hlen
    omega
  | @unreadable f p c P hc hcP hbad =>
    obtain ⟨c', hc', hRc⟩ := hR
    have hcc : c = c' := by simpa [hc] using hc'
    subst hcc
    obtain ⟨t, ht⟩ := hRc.mtime c .refl
    obtain ⟨ps, hps, _⟩ := hRc.deps c .refl
    rcases hbad with ⟨e, he⟩ | ⟨e, he⟩
    · simp [ht] at he
    · simp [hps] at he
  | @dependency f p c q P K ps hc hcP hps hq _ ih =>
    obtain ⟨c', hc', hRc⟩ := hR
    have hcc : c = c' := by simpa [hc] using hc'
    subst hcc
    have hlen := List.Nodup.length_le_of_subset (List.nodup_cons.mpr ⟨hcP, hP⟩)
      (List.cons_subset.mpr ⟨hRc.mem c .refl, hPL⟩)
    simp only [List.length_cons] at hlen
    obtain ⟨ps', hps', hcan⟩ := hRc.deps c .refl
    obtain rfl : ps' = ps := by simpa [hps] using hps'.symm
    obtain ⟨d, hd⟩ := hcan q hq
    refine ih (List.nodup_cons.mpr ⟨hcP, hP⟩) (List.cons_subset.mpr ⟨hRc.mem c .refl, hPL⟩)
      ⟨d, hd, hRc.of_reaches (.single (.of_mem hps hq hd))⟩ ?_
    simp only [List.length_cons]
    omega

/-- A query for a path leading to a file whose reachable part is readable and among the
files `L` succeeds, from an empty in-progress set, once the fuel exceeds twice the length
of `L`. -/
theorem xstats_ok_of_readable {L : List String} {f : Nat} {p c : String} (s : Session)
    (hc : G.canonical p = .ok c) (hR : G.Readable L c) (hP : s.inProgress = [])
    (hf : 2 * L.length < f) : ∃ v s', (xstatsWith G.reads f p).run s = .ok v s' := by
  cases hr : (xstatsWith G.reads f p).run s with
  | ok v s' => exact ⟨v, s', rfl⟩
  | error e s' =>
    obtain ⟨-, K, hK, -⟩ := xstats_failure hr
    rw [hP] at hK
    exact (hK.false_of_readable List.nodup_nil (List.nil_subset L) ⟨c, hc, hR⟩
      (by simpa using hf)).elim

end Failure

/-! ## Sequences of queries -/

section Sequence

/-- The latest times a sequence of queries should answer: for each path, the latest time over
what its file reaches. -/
def AnswersLatest (ps : List String) (vs : List Nat) : Prop :=
  List.Forall₂ (fun p v => ∃ c, G.canonical p = .ok c ∧ G.Latest c v) ps vs

variable {G}

/-- On a graph without cycles, a sequence of queries over readable files, started with
nothing in progress and only exact times remembered, succeeds and answers each query with
the latest time over what its file reaches, whatever was asked before it. -/
theorem xstats_queries_latest (hG : G.Acyclic) {L : List String} {f : Nat}
    (hf : 2 * L.length < f) (ps : List String)
    (hR : ∀ p ∈ ps, ∃ c, G.canonical p = .ok c ∧ G.Readable L c) (s : Session)
    (hP : s.inProgress = []) (hM : G.ExactMemo s.xstats) :
    ∃ vs s', (ps.mapM (xstatsWith G.reads f)).run s = .ok vs s' ∧ AnswersLatest G ps vs := by
  induction ps generalizing s with
  | nil => exact ⟨[], s, rfl, .nil⟩
  | cons p ps ih =>
    obtain ⟨c, hc, hRc⟩ := hR p List.mem_cons_self
    obtain ⟨v, s₁, h₁⟩ := xstats_ok_of_readable s hc hRc hP hf
    have hE := xstats_exactMemo_of_acyclic hG f p s hP hM
    have hF := xstats_frames (G := G) f p s
    rw [h₁] at hE hF
    simp only [endState_ok] at hE hF
    -- the first query leaves nothing in progress and only exact times, as the rest needs
    obtain ⟨vs, s', h', hall⟩ := ih (fun q hq => hR q (List.mem_cons_of_mem p hq)) s₁
      (hF.inProgress.trans hP) hE.memo
    refine ⟨v :: vs, s', ?_, .cons (hE.value v s₁ rfl) hall⟩
    simp only [List.mapM_cons, run_bind, h₁, h']
    rfl

end Sequence

/-- What the walk computes, over a graph that stays fixed: with nothing in progress and only
exact times remembered, as after the caches are cleared, a query over readable files succeeds
once the fuel exceeds twice their number and answers the latest time over what its file
reaches, on every graph; on a graph without cycles every query of a sequence does; and a
failed query puts the in-progress set back and remembers nothing for the files whose
computation failed. -/
theorem xstats_latest_and_failure_frame (G : DepGraph) (f : Nat) :
    (∀ L p c s, 2 * L.length < f → G.canonical p = .ok c → G.Readable L c →
      s.inProgress = [] → G.ExactMemo s.xstats →
      ∃ v s', (xstatsWith G.reads f p).run s = .ok v s' ∧ G.Latest c v) ∧
    (G.Acyclic → ∀ L ps s, 2 * L.length < f →
      (∀ p ∈ ps, ∃ c, G.canonical p = .ok c ∧ G.Readable L c) →
      s.inProgress = [] → G.ExactMemo s.xstats →
      ∃ vs s', (ps.mapM (xstatsWith G.reads f)).run s = .ok vs s' ∧ AnswersLatest G ps vs) ∧
    (∀ p s e s', (xstatsWith G.reads f p).run s = .error e s' →
      s'.inProgress = s.inProgress ∧
        ∃ K, FailPath G f p s.inProgress K ∧ ∀ x ∈ K, s'.xstats.lookup x = none) := by
  refine ⟨fun L p c s hf hc hR hP hM => ?_,
    fun hG _ ps s hf hR hP hM => xstats_queries_latest hG hf ps hR s hP hM,
    fun _ _ _ _ h => xstats_failure h⟩
  obtain ⟨v, s', h⟩ := xstats_ok_of_readable s hc hR hP hf
  obtain ⟨c', hc', hlat⟩ := xstats_latest_of_exactMemo f p s hP hM h
  have hcc : c = c' := by simpa [hc] using hc'
  subst hcc
  exact ⟨v, s', h, hlat⟩

end Run

/-! ## Two small graphs -/

namespace DepGraph

/-- `a` depends on `b`, which depends on nothing; `a` was changed at 1 and `b` at 2. -/
def chain : DepGraph where
  canonical p := .ok p
  mtime c := .ok (if c = "a" then 1 else 2)
  dependsOn c := .ok (if c = "a" then ["b"] else [])

/-- `a` and `b` depend on each other; `a` was changed at 1 and `b` at 2. -/
def twoCycle : DepGraph where
  canonical p := .ok p
  mtime c := .ok (if c = "a" then 1 else 2)
  dependsOn c := .ok (if c = "a" then ["b"] else ["a"])

theorem chain_edge {c d : String} (h : chain.Edge c d) : c = "a" ∧ d = "b" := by
  obtain ⟨ps, hps, q, hq, hqd⟩ := h
  simp only [chain, Except.ok.injEq] at hps hqd
  subst hqd
  by_cases hc : c = "a"
  · rw [if_pos hc] at hps
    subst hps
    exact ⟨hc, by simpa using hq⟩
  · rw [if_neg hc] at hps
    subst hps
    simp at hq

theorem chain_acyclic : chain.Acyclic := by
  intro c h
  -- the first edge leaves `a` for `b`, and no edge leaves `b`
  obtain ⟨d, hcd, hdc⟩ := Relation.TransGen.head'_iff.mp h
  obtain ⟨rfl, rfl⟩ := chain_edge hcd
  rcases hdc.cases_head with h | ⟨e, hde, _⟩
  · exact absurd h (by decide)
  · exact absurd (chain_edge hde).1 (by decide)

theorem chain_readable {p : String} (hp : p ∈ ["a", "b"]) : chain.Readable ["a", "b"] p where
  mem d hd := by
    induction hd with
    | refl => exact hp
    | tail _ he _ => simp [(chain_edge he).2]
  mtime d _ := ⟨_, rfl⟩
  deps d _ := ⟨_, rfl, fun q _ => ⟨q, rfl⟩⟩

end DepGraph

namespace Run

/-- Asked for `b` and then for `a`, on the chain both answers are the latest times. -/
theorem chain_queries_latest :
    ∃ vs s', (["b", "a"].mapM (xstatsWith DepGraph.chain.reads 5)).run {} = .ok vs s' ∧
      AnswersLatest DepGraph.chain ["b", "a"] vs :=
  (xstats_latest_and_failure_frame DepGraph.chain 5).2.1 DepGraph.chain_acyclic ["a", "b"]
    ["b", "a"] {} (by decide)
    (fun p hp => ⟨p, rfl, DepGraph.chain_readable (by simp at hp ⊢; exact hp.symm)⟩) rfl
    (fun c v h => by simp at h)

/-- On the cycle, asked for `b` and then for `a`, the walk answers 2 and then 1: it computed
`a` while `b` was in progress, counted 0 for `b`, and remembered the result, which misses
`b`'s time 2 although `a` reaches `b`. -/
theorem xstats_remembers_cut_value :
    ∃ s', (["b", "a"].mapM (xstatsWith DepGraph.twoCycle.reads 5)).run {} = .ok [2, 1] s' ∧
      ¬ DepGraph.twoCycle.Latest "a" 1 := by
  refine ⟨_, rfl, fun h => ?_⟩
  obtain ⟨t, ht, hle⟩ := h.1 "b" (.single ⟨["b"], rfl, "b", List.mem_cons_self, rfl⟩)
  simp only [DepGraph.twoCycle, Except.ok.injEq] at ht
  subst ht
  exact absurd hle (by decide)

end Run

end Espalier
