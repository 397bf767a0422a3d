import Espalier.Proofs.Engine.FailedImport
import Espalier.Proofs.Macro.Monotone

/-!
# The dialect passes handle each import once

A module's dialects are applied in two passes. The source pass (`transformSource`) works on
the raw text: each round takes the first dialect-import line not handled yet, has the source
hooks of the dialects it names rewrite the text, and scans the new text again from the top.
The tree pass (`transformAst`) works on the parsed module: each round takes the first
top-level dialect-import, replaces it in place by a plain import of the module it names, and
has the tree hooks of its dialects rewrite the module.

Each pass is read as a trace, `SourceRun` and `AstRun`: the rounds of a run, in order, and how
it ends. Every run has one (`sourceRun_sourceRounds`, `astRun_astRounds`). Hooks run code of
the session, so what they do is a hypothesis, said with an invariant `P` of sessions
(`Keeps`, `Instantiates`): source hooks bring in no dialect-import line that the original
text lacks, tree hooks add no top-level dialect-import.

Main statement, `dialectPasses_handle_each_import_once`: the source pass hands each distinct
dialect-import line of the original text to a round at most once, so it makes at most as many
rounds as there are such lines, and it stops because every dialect-import line of its text has
been handled; the tree pass makes at most as many rounds as the module has top-level
dialect-imports, rewrites each one it handles in place at its own location, and leaves none.

The last section builds a session in which the hypotheses hold with hooks that run code:
module `d` holds a dialect `D` whose hooks give back what they are given, and nothing else can
be imported (`dialectSession`). There both passes complete, and a line imported twice is
handled once.
-/

namespace Espalier

/-- The number of top-level dialect-imports of a module. -/
def Module.dialectImportCount (m : Module) : Nat :=
  m.body.countP (Stmt.isMagicImport dialectsMagic)

/-- Replacing the first top-level dialect-import by a plain import removes one. -/
theorem Module.dialectImportCount_set {m : Module} {i : Nat}
    (h : m.body.findIdx? (Stmt.isMagicImport dialectsMagic) = some i) (name : String)
    (loc : Option Loc) :
    (Module.mk (m.body.set i (.mk (.importModule name none) loc))).dialectImportCount + 1 =
      m.dialectImportCount := by
  obtain ⟨hi, hp, -⟩ := List.findIdx?_eq_some_iff_getElem.1 h
  have hpos : 0 < m.dialectImportCount := List.countP_pos_iff.2 ⟨_, List.getElem_mem hi, hp⟩
  unfold Module.dialectImportCount at hpos ⊢
  rw [List.countP_set hi, if_pos hp]
  simp only [Stmt.isMagicImport, Bool.false_eq_true, if_false]
  omega

theorem Module.dialectImportCount_eq_zero {m : Module}
    (h : m.body.findIdx? (Stmt.isMagicImport dialectsMagic) = none) : m.dialectImportCount = 0 := by
  rw [List.findIdx?_eq_none_iff] at h
  exact List.countP_eq_zero.2 fun s hs => by simp [h s hs]

namespace Run

/-! ## Steps that keep an invariant -/

/-- From a state of `P`, every run of `g` that gives a result ends in a state of `P`, with the
result related to the argument by `R`. -/
def Keeps {α : Type} (P : Session → Prop) (R : α → α → Prop) (g : α → Run α) : Prop :=
  ∀ x s y s', P s → (g x).run s = .ok y s' → P s' ∧ R x y

/-- Instantiating any import from a state of `P` ends in a state of `P`, with dialects that
`good` holds of. -/
def Instantiates (P : Session → Prop) (f : Nat) (filename : String) (selfName : Option String)
    (good : DialectSpec Value → Prop) : Prop :=
  ∀ stmt s ds s', P s → (instantiate f stmt filename selfName).run s = .ok ds s' →
    P s' ∧ ∀ d ∈ ds, good d

/-- Hooks applied one after another keep what each of them keeps. -/
theorem Keeps.foldlM {α β : Type} {P : Session → Prop} {R : α → α → Prop}
    {hook : β → α → Run α} (hrefl : ∀ x, R x x) (htrans : ∀ x y z, R x y → R y z → R x z)
    (ds : List β) (hds : ∀ d ∈ ds, Keeps P R (hook d)) :
    Keeps P R (fun x => ds.foldlM (fun x d => hook d x) x) := by
  induction ds with
  | nil =>
    intro x s y s' hs h
    simp only [List.foldlM_nil, EStateM.run_pure, EStateM.Result.ok.injEq] at h
    obtain ⟨rfl, rfl⟩ := h
    exact ⟨hs, hrefl x⟩
  | cons d ds ih =>
    intro x s y s' hs h
    dsimp only at h
    rw [List.foldlM_cons] at h
    obtain ⟨x₁, s₁, h₁, h₂⟩ := Expander.run_bind_ok h
    obtain ⟨hs₁, hx₁⟩ := hds d List.mem_cons_self x s x₁ s₁ hs h₁
    obtain ⟨hs', hy⟩ := ih (fun d' hd' => hds d' (List.mem_cons_of_mem d hd')) x₁ s₁ y s' hs₁ h₂
    exact ⟨hs', htrans x x₁ y hx₁ hy⟩

/-- A step that leaves the session as it found it whenever it gives a result. -/
def Stable {α : Type} (x : Run α) : Prop := ∀ s a s', x.run s = .ok a s' → s' = s

namespace Stable

variable {α β : Type}

theorem pure (a : α) : Stable (Pure.pure a : Run α) := by
  intro s b s' h
  cases h
  rfl

theorem throw (e : Error) : Stable (MonadExcept.throw e : Run α) := by
  intro s b s' h
  cases h

theorem get : Stable (MonadState.get : Run Session) := by
  intro s b s' h
  cases h
  rfl

theorem bind {x : Run α} {k : α → Run β} (hx : Stable x) (hk : ∀ a, Stable (k a)) :
    Stable (x >>= k) := by
  intro s b s' h
  obtain ⟨a, s₁, h₁, h₂⟩ := Expander.run_bind_ok h
  rw [hk a s₁ b s' h₂, hx s a s₁ h₁]

theorem forIn {γ : Type} (xs : List γ) (init : β) {body : γ → β → Run (ForInStep β)}
    (hbody : ∀ x b, Stable (body x b)) : Stable (ForIn.forIn xs init body) := by
  induction xs generalizing init with
  | nil => exact pure init
  | cons x xs ih =>
    rw [List.forIn_cons]
    refine bind (hbody x init) fun step => ?_
    cases step with
    | done b => exact pure b
    | yield b => exact ih b

end Stable

-- Both functions only read the session: their do-blocks are binds, branches and a loop over
-- the search roots, and every leaf is a `pure`, a `throw` or a read.
theorem resolvePackage_stable (filename : String) (loc : Option Loc) :
    Stable (resolvePackage filename loc) := by
  unfold resolvePackage
  refine Stable.bind Stable.get fun s => ?_
  dsimp only
  repeat
    first
    | exact Stable.pure _
    | exact Stable.throw _
    | apply Stable.bind
    | apply Stable.forIn
    | split
    | intro

theorem resolveImport_stable (stmt : Stmt) (filename : String) (selfName : Option String)
    (allowAs : Bool) : Stable (resolveImport stmt filename selfName allowAs) := by
  unfold resolveImport
  dsimp only
  repeat
    first
    | exact Stable.pure _
    | exact Stable.throw _
    | exact resolvePackage_stable _ _
    | apply Stable.bind
    | split
    | intro

/-! ## The source pass -/

/-- Every dialect-import line of `text` is one of `M`. -/
def LinesWithin (M : List String) (text : String) : Prop := ∀ x ∈ dialectLines text, x ∈ M

/-- The runs of the source pass with `n` rounds left, from `text` with the lines `seen`
handled: the lines handed to `round`, in order, and the outcome. -/
inductive SourceRun (round : String → String → Run String) :
    Nat → String → List String → Session → List String → EStateM.Result Error Session String →
      Prop
  /-- No round is left: the text is given as it is. -/
  | spent {text seen s} : SourceRun round 0 text seen s [] (.ok text s)
  /-- Every dialect-import line of the text has been handled. -/
  | settled {n text seen s} (h : (dialectLines text).find? (!seen.contains ·) = none) :
      SourceRun round (n + 1) text seen s [] (.ok text s)
  /-- The round of the first line not handled fails, and so does the pass. -/
  | failed {n text seen s line e s'} (h : (dialectLines text).find? (!seen.contains ·) = some line)
      (hround : (round line text).run s = .error e s') :
      SourceRun round (n + 1) text seen s [line] (.error e s')
  /-- The round of the first line not handled gives a new text, and the pass goes on with it. -/
  | next {n text seen s line text' s' lines r}
      (h : (dialectLines text).find? (!seen.contains ·) = some line)
      (hround : (round line text).run s = .ok text' s')
      (rest : SourceRun round n text' (line :: seen) s' lines r) :
      SourceRun round (n + 1) text seen s (line :: lines) r

/-- Every run of the source pass has a trace. -/
theorem sourceRun_sourceRounds (round : String → String → Run String) :
    ∀ (n : Nat) (text : String) (seen : List String) (s : Session),
      ∃ lines, SourceRun round n text seen s lines ((sourceRounds round n text seen).run s)
  | 0, _, _, _ => ⟨[], .spent⟩
  | n + 1, text, seen, s => by
    cases hfind : (dialectLines text).find? (!seen.contains ·) with
    | none =>
      refine ⟨[], ?_⟩
      simp only [sourceRounds, hfind]
      exact .settled hfind
    | some line =>
      cases hr : (round line text).run s with
      | error e s' =>
        refine ⟨[line], ?_⟩
        simp only [sourceRounds, hfind, EStateM.run_bind, hr]
        exact .failed hfind hr
      | ok text' s' =>
        obtain ⟨lines, hrest⟩ := sourceRun_sourceRounds round n text' (line :: seen) s'
        refine ⟨line :: lines, ?_⟩
        simp only [sourceRounds, hfind, EStateM.run_bind, hr]
        exact .next hfind hr hrest

/-- The line a round is given is a dialect-import line of the text, not handled before. -/
theorem nextLine_fresh {text line : String} {seen : List String}
    (h : (dialectLines text).find? (!seen.contains ·) = some line) :
    line ∈ dialectLines text ∧ line ∉ seen := by
  refine ⟨List.mem_of_find?_eq_some h, ?_⟩
  simpa using List.find?_some h

section SourceTrace

variable {round : String → String → Run String} {P : Session → Prop} {M : List String}
  {n : Nat} {text : String} {seen : List String} {s : Session} {lines : List String}
  {r : EStateM.Result Error Session String}

/-- When every round keeps the dialect-import lines of the text among `M`, the lines handed to
the rounds are distinct lines of `M` that were not handled before. -/
theorem SourceRun.lines_fresh
    (hround : ∀ line, Keeps P (fun x y => LinesWithin M x → LinesWithin M y) (round line))
    (h : SourceRun round n text seen s lines r) :
    P s → LinesWithin M text → lines.Nodup ∧ ∀ x ∈ lines, x ∈ M ∧ x ∉ seen := by
  induction h with
  | spent | settled => simp
  | failed hfind _ =>
    intro _ hM
    obtain ⟨hmem, hnew⟩ := nextLine_fresh hfind
    simpa using ⟨hM _ hmem, hnew⟩
  | next hfind hr _ ih =>
    intro hP hM
    obtain ⟨hmem, hnew⟩ := nextLine_fresh hfind
    obtain ⟨hP', hM'⟩ := hround _ _ _ _ _ hP hr
    obtain ⟨hnodup, hlines⟩ := ih hP' (hM' hM)
    refine ⟨List.nodup_cons.2 ⟨fun hl => (hlines _ hl).2 List.mem_cons_self, hnodup⟩, ?_⟩
    intro x hx
    rcases List.mem_cons.1 hx with rfl | hx
    · exact ⟨hM _ hmem, hnew⟩
    · exact ⟨(hlines x hx).1, fun hs => (hlines x hx).2 (List.mem_cons_of_mem _ hs)⟩

/-- A run that gives a text either handled every dialect-import line of it, before or along
the trace, or used up its rounds. -/
theorem SourceRun.handled_of_ok (h : SourceRun round n text seen s lines r) :
    ∀ t s', r = .ok t s' → (∀ x ∈ dialectLines t, x ∈ seen ∨ x ∈ lines) ∨ lines.length = n := by
  induction h with
  | spent => exact fun _ _ _ => .inr rfl
  | settled hfind =>
    rintro t s' ⟨⟩
    refine .inl fun x hx => .inl ?_
    simpa using List.find?_eq_none.1 hfind x hx
  | failed => rintro _ _ ⟨⟩
  | next _ _ _ ih =>
    intro t s' hr
    rcases ih t s' hr with hall | hlen
    · refine .inl fun x hx => ?_
      rcases hall x hx with hs | hl
      · rcases List.mem_cons.1 hs with rfl | hs
        · exact .inr List.mem_cons_self
        · exact .inl hs
      · exact .inr (List.mem_cons_of_mem _ hl)
    · exact .inr (by simp [hlen])

end SourceTrace

/-- A round of the source pass keeps what the hooks of the dialects it instantiates keep; a
line that imports dialects of the module's next phase leaves the text alone. -/
theorem dialectLineRound_keeps {P : Session → Prop} {R : String → String → Prop}
    {inst : Stmt → Run (List (DialectSpec Value))} {hook : DialectSpec Value → String → Run String}
    (hrefl : ∀ x, R x x) (htrans : ∀ x y z, R x y → R y z → R x z)
    (hinst : ∀ stmt s ds s', P s → (inst stmt).run s = .ok ds s' →
      P s' ∧ ∀ d ∈ ds, Keeps P R (hook d))
    (filename line : String) : Keeps P R (dialectLineRound inst hook filename line) := by
  intro text s text' s' hP h
  unfold dialectLineRound at h
  obtain ⟨stmt, s₁, hparse, hrest⟩ := Expander.run_bind_ok h
  have hs₁ : s₁ = s := by
    rw [run_liftExcept] at hparse
    split at hparse <;> cases hparse
    rfl
  subst hs₁
  by_cases hself : stmt.isSelfImport
  · rw [if_pos hself] at hrest
    cases hrest
    exact ⟨hP, hrefl _⟩
  · rw [if_neg hself] at hrest
    obtain ⟨ds, s₂, hds, hhooks⟩ := Expander.run_bind_ok hrest
    obtain ⟨hP₂, hgood⟩ := hinst stmt s₁ ds s₂ hP hds
    exact Keeps.foldlM hrefl htrans ds hgood text s₂ text' s' hP₂ hhooks

/-- The source pass when the source hooks of every instantiated dialect bring no
dialect-import line outside the original text `t₀` into a text: each distinct dialect-import
line of `t₀` is handed to a round at most once, no other line is, and a pass that gives a
text has handled every dialect-import line of it. -/
theorem transformSource_handles_each_line_once {P : Session → Prop} {f : Nat}
    {filename : String} {selfName : Option String} {t₀ : String} {s₀ : Session} (hP : P s₀)
    (hinst : Instantiates P f filename selfName fun d =>
      Keeps P (fun x y => LinesWithin (dialectLines t₀) x → LinesWithin (dialectLines t₀) y)
        (applySourceHook f d · filename)) :
    let M := dialectLines t₀
    ∃ lines, SourceRun (dialectLineRound (fun stmt => instantiate f stmt filename selfName)
        (fun d text => applySourceHook f d text filename) filename) loopBound t₀ [] s₀ lines
        ((transformSource (f + 1) t₀ filename selfName).run s₀) ∧
      lines.Nodup ∧ (∀ x ∈ lines, x ∈ M) ∧ lines.length ≤ M.dedup.length ∧
      (M.dedup.length < loopBound → ∀ t s',
        (transformSource (f + 1) t₀ filename selfName).run s₀ = .ok t s' →
        ∀ x ∈ dialectLines t, x ∈ lines) := by
  intro M
  have hround := dialectLineRound_keeps (fun _ h => h) (fun _ _ _ h₁ h₂ h => h₂ (h₁ h)) hinst
    filename
  obtain ⟨lines, htrace⟩ := sourceRun_sourceRounds (dialectLineRound
    (fun stmt => instantiate f stmt filename selfName)
    (fun d text => applySourceHook f d text filename) filename) loopBound t₀ [] s₀
  obtain ⟨hnodup, hfresh⟩ := htrace.lines_fresh hround hP fun _ hx => hx
  -- distinct lines of `M` are no more than the distinct lines of `M`
  have hlen : lines.length ≤ M.dedup.length :=
    (hnodup.subperm fun x hx => List.mem_dedup.2 (hfresh x hx).1).length_le
  refine ⟨lines, htrace, hnodup, fun x hx => (hfresh x hx).1, hlen, ?_⟩
  intro hlt t s' hok
  rcases htrace.handled_of_ok t s' hok with hall | hspent
  · intro x hx
    simpa using hall x hx
  · omega

/-! ## The tree pass -/

/-- The runs of the tree pass with `n` rounds left, from module `m` with the dialects `applied`
so far: the dialect-imports handled, in order, and the outcome. A round that completes hands
its hooks the module with the import replaced in place by a plain import of the module it
resolves to, at the import's location. -/
inductive AstRun (resolve : Stmt → Run ImportTarget) (inst : Stmt → Run (List (DialectSpec Value)))
    (hook : DialectSpec Value → Module → Run Module) :
    Nat → Module → List (DialectSpec Value) → Session → List Stmt →
      EStateM.Result Error Session (Module × List (DialectSpec Value)) → Prop
  /-- No round is left: the module is given as it is. -/
  | spent {m applied s} : AstRun resolve inst hook 0 m applied s [] (.ok (m, applied) s)
  /-- No top-level dialect-import is left. -/
  | settled {n m applied s} (h : m.body.findIdx? (Stmt.isMagicImport dialectsMagic) = none) :
      AstRun resolve inst hook (n + 1) m applied s [] (.ok (m, applied) s)
  /-- The round of the first dialect-import fails, and so does the pass. -/
  | failed {n m applied s i e s'} (h : m.body.findIdx? (Stmt.isMagicImport dialectsMagic) = some i)
      (hround : (dialectImportRound resolve inst hook i m).run s = .error e s') :
      AstRun resolve inst hook (n + 1) m applied s [m.body.getD i default] (.error e s')
  /-- The first dialect-import is resolved and its dialects instantiated; it is replaced in
  place, the hooks rewrite the module, and the pass goes on with it. -/
  | next {n m applied s i target s₁ ds s₂ m' s' imports r}
      (h : m.body.findIdx? (Stmt.isMagicImport dialectsMagic) = some i)
      (hresolve : (resolve (m.body.getD i default)).run s = .ok target s₁)
      (hinst : (inst (m.body.getD i default)).run s₁ = .ok ds s₂)
      (hhooks : (ds.foldlM (fun m d => hook d m)
        ⟨m.body.set i (.mk (.importModule target.module none) (m.body.getD i default).loc)⟩).run
          s₂ = .ok m' s')
      (rest : AstRun resolve inst hook n m' (applied ++ ds) s' imports r) :
      AstRun resolve inst hook (n + 1) m applied s (m.body.getD i default :: imports) r

section AstTrace

variable {resolve : Stmt → Run ImportTarget} {inst : Stmt → Run (List (DialectSpec Value))}
  {hook : DialectSpec Value → Module → Run Module}

/-- What a round of the tree pass that completes has done. -/
theorem dialectImportRound_run_ok {i : Nat} {m m' : Module} {ds : List (DialectSpec Value)}
    {s s' : Session} (h : (dialectImportRound resolve inst hook i m).run s = .ok (m', ds) s') :
    ∃ target s₁ s₂, (resolve (m.body.getD i default)).run s = .ok target s₁ ∧
      (inst (m.body.getD i default)).run s₁ = .ok ds s₂ ∧
      (ds.foldlM (fun m d => hook d m)
        ⟨m.body.set i (.mk (.importModule target.module none) (m.body.getD i default).loc)⟩).run
          s₂ = .ok m' s' := by
  unfold dialectImportRound at h
  obtain ⟨target, s₁, h₁, h⟩ := Expander.run_bind_ok h
  obtain ⟨ds', s₂, h₂, h⟩ := Expander.run_bind_ok h
  obtain ⟨m'', s₃, h₃, h⟩ := Expander.run_bind_ok h
  simp only [EStateM.run_pure, EStateM.Result.ok.injEq, Prod.mk.injEq] at h
  obtain ⟨⟨rfl, rfl⟩, rfl⟩ := h
  exact ⟨target, s₁, s₂, h₁, h₂, h₃⟩

/-- Every run of the tree pass has a trace. -/
theorem astRun_astRounds (resolve : Stmt → Run ImportTarget)
    (inst : Stmt → Run (List (DialectSpec Value))) (hook : DialectSpec Value → Module → Run Module) :
    ∀ (n : Nat) (m : Module) (applied : List (DialectSpec Value)) (s : Session),
      ∃ imports, AstRun resolve inst hook n m applied s imports
        ((astRounds (dialectImportRound resolve inst hook) n m applied).run s)
  | 0, _, _, _ => ⟨[], .spent⟩
  | n + 1, m, applied, s => by
    cases hfind : m.body.findIdx? (Stmt.isMagicImport dialectsMagic) with
    | none =>
      refine ⟨[], ?_⟩
      simp only [astRounds, hfind]
      exact .settled hfind
    | some i =>
      cases hr : (dialectImportRound resolve inst hook i m).run s with
      | error e s' =>
        refine ⟨[m.body.getD i default], ?_⟩
        simp only [astRounds, hfind, EStateM.run_bind, hr]
        exact .failed hfind hr
      | ok res s' =>
        obtain ⟨m', ds⟩ := res
        obtain ⟨target, s₁, s₂, hres, hds, hhooks⟩ := dialectImportRound_run_ok hr
        obtain ⟨imports, hrest⟩ := astRun_astRounds resolve inst hook n m' (applied ++ ds) s'
        refine ⟨m.body.getD i default :: imports, ?_⟩
        simp only [astRounds, hfind, EStateM.run_bind, hr]
        exact .next hfind hres hds hhooks hrest

/-- When resolving keeps `P` and the hooks of every instantiated dialect keep `P` and add no
top-level dialect-import, each round removes one: a trace handles at most as many imports as
the module has, and with more rounds than that it ends with none left. -/
theorem AstRun.imports_le_count {P : Session → Prop}
    (hresolve : ∀ stmt s t s', P s → (resolve stmt).run s = .ok t s' → P s')
    (hinst : ∀ stmt s ds s', P s → (inst stmt).run s = .ok ds s' → P s' ∧
      ∀ d ∈ ds, Keeps P (fun m m' => m'.dialectImportCount ≤ m.dialectImportCount) (hook d))
    {n : Nat} {m : Module} {applied : List (DialectSpec Value)} {s : Session} {imports : List Stmt}
    {r : EStateM.Result Error Session (Module × List (DialectSpec Value))}
    (h : AstRun resolve inst hook n m applied s imports r) :
    P s → imports.length ≤ m.dialectImportCount ∧
      (m.dialectImportCount < n → ∀ m' a s', r = .ok (m', a) s' → m'.dialectImportCount = 0) := by
  induction h with
  | spent => simp
  | settled hfind =>
    refine fun _ => ⟨by simp, ?_⟩
    rintro - m' a s' ⟨⟩
    exact Module.dialectImportCount_eq_zero hfind
  | failed hfind _ =>
    have hset := Module.dialectImportCount_set hfind "" none
    refine fun _ => ⟨by simp; omega, ?_⟩
    rintro - _ _ _ ⟨⟩
  | @next n m applied s i target s₁ ds s₂ m' s' imports r hfind hres hds hhooks _ ih =>
    intro hP
    obtain ⟨hP₂, hgood⟩ := hinst _ _ _ _ (hresolve _ _ _ _ hP hres) hds
    have hkeeps : Keeps P (fun m m' => m'.dialectImportCount ≤ m.dialectImportCount)
        (fun m => ds.foldlM (fun m d => hook d m) m) :=
      Keeps.foldlM (fun m => Nat.le_refl m.dialectImportCount) (fun _ _ _ h₁ h₂ => h₂.trans h₁) ds
        hgood
    obtain ⟨hP', hle⟩ := hkeeps _ _ _ _ hP₂ hhooks
    have hset := Module.dialectImportCount_set hfind target.module (m.body.getD i default).loc
    obtain ⟨hlen, hend⟩ := ih hP'
    exact ⟨by simp only [List.length_cons]; omega, fun hlt => hend (by omega)⟩

end AstTrace

/-- The tree pass when the tree hooks of every instantiated dialect add no top-level
dialect-import: it handles at most as many imports as the module has, each rewritten in place
as the trace says, and a pass that gives a module leaves no top-level dialect-import in it. -/
theorem transformAst_handles_each_import_once {P : Session → Prop} {f : Nat} {filename : String}
    {selfName : Option String} {m₀ : Module} {s₀ : Session} (hP : P s₀)
    (hinst : Instantiates P f filename selfName fun d =>
      Keeps P (fun m m' => m'.dialectImportCount ≤ m.dialectImportCount)
        (applyTreeHook f d d.ast · filename)) :
    ∃ imports, AstRun (fun stmt => resolveImport stmt filename selfName false)
        (fun stmt => instantiate f stmt filename selfName)
        (fun d m => applyTreeHook f d d.ast m filename) (m₀.body.length + loopBound) m₀ [] s₀
        imports ((transformAst (f + 1) m₀ filename selfName).run s₀) ∧
      imports.length ≤ m₀.dialectImportCount ∧
      ∀ m applied s', (transformAst (f + 1) m₀ filename selfName).run s₀ = .ok (m, applied) s' →
        m.dialectImportCount = 0 := by
  have hresolve : ∀ stmt s t s', P s →
      (resolveImport stmt filename selfName false).run s = .ok t s' → P s' := by
    intro stmt s t s' hs h
    rwa [resolveImport_stable stmt filename selfName false s t s' h]
  obtain ⟨imports, htrace⟩ := astRun_astRounds (fun stmt => resolveImport stmt filename selfName false)
    (fun stmt => instantiate f stmt filename selfName)
    (fun d m => applyTreeHook f d d.ast m filename) (m₀.body.length + loopBound) m₀ [] s₀
  obtain ⟨hlen, hend⟩ := htrace.imports_le_count hresolve hinst hP
  -- the budget covers every import: there are no more imports than statements
  have hcount : m₀.dialectImportCount < m₀.body.length + loopBound := by
    have : m₀.dialectImportCount ≤ m₀.body.length := List.countP_le_length
    have : 0 < loopBound := by decide
    omega
  exact ⟨imports, htrace, hlen, fun m applied s' hok => hend hcount m applied s' hok⟩

/-! ## Both passes -/

theorem dialectPasses_handle_each_import_once {P : Session → Prop} {f : Nat} {filename : String}
    {selfName : Option String} {t₀ : String} {m₀ : Module} {s₀ : Session} (hP : P s₀)
    (hsource : Instantiates P f filename selfName fun d =>
      Keeps P (fun x y => LinesWithin (dialectLines t₀) x → LinesWithin (dialectLines t₀) y)
        (applySourceHook f d · filename))
    (htree : Instantiates P f filename selfName fun d =>
      Keeps P (fun m m' => m'.dialectImportCount ≤ m.dialectImportCount)
        (applyTreeHook f d d.ast · filename)) :
    let M := dialectLines t₀
    (∃ lines, SourceRun (dialectLineRound (fun stmt => instantiate f stmt filename selfName)
        (fun d text => applySourceHook f d text filename) filename) loopBound t₀ [] s₀ lines
        ((transformSource (f + 1) t₀ filename selfName).run s₀) ∧
      lines.Nodup ∧ (∀ x ∈ lines, x ∈ M) ∧ lines.length ≤ M.dedup.length ∧
      (M.dedup.length < loopBound → ∀ t s',
        (transformSource (f + 1) t₀ filename selfName).run s₀ = .ok t s' →
        ∀ x ∈ dialectLines t, x ∈ lines)) ∧
    (∃ imports, AstRun (fun stmt => resolveImport stmt filename selfName false)
        (fun stmt => instantiate f stmt filename selfName)
        (fun d m => applyTreeHook f d d.ast m filename) (m₀.body.length + loopBound) m₀ [] s₀
        imports ((transformAst (f + 1) m₀ filename selfName).run s₀) ∧
      imports.length ≤ m₀.dialectImportCount ∧
      ∀ m applied s', (transformAst (f + 1) m₀ filename selfName).run s₀ = .ok (m, applied) s' →
        m.dialectImportCount = 0) :=
  ⟨transformSource_handles_each_line_once hP hsource, transformAst_handles_each_import_once hP htree⟩

/-! ## Hooks that give back what they are given -/

/-- `def source(text): return text`, a source hook that gives its text back. -/
def identitySourceHook : Closure Value :=
  { id := 0, name := "source", params := ["text"],
    body := [.mk (.ret (some (.mk (.name "text") none))) none], globals := 0, env := [] }

/-- `def ast(tree): return tree`, a tree hook that gives its module back. -/
def identityTreeHook : Closure Value :=
  { id := 1, name := "ast", params := ["tree"],
    body := [.mk (.ret (some (.mk (.name "tree") none))) none], globals := 0, env := [] }

/-- Dialect `D`, whose hooks give back what they are given. -/
def identityDialect : DialectSpec Value :=
  { name := "D", source := some identitySourceHook, ast := some identityTreeHook }

/-- Module `d`, which holds dialect `D`. -/
def dialectModule : ModuleObject :=
  let m := ModuleObject.fresh "d" none "d"
  { m with vars := m.vars ++ [("D", .dialect identityDialect)] }

/-- A session in which module `d` and the engine's own modules are registered, and no search
root is configured: nothing else can be imported, so no code runs but the hooks. -/
def dialectSession : Session where
  config := { searchRoots := [] }
  store :=
    { modules := #[dialectModule, (engineModule? "trellis").getD default,
        (engineModule? "trellis.ast").getD default, (engineModule? "trellis.debug").getD default]
      functions := 2 }
  registry := [("d", 0), ("trellis", 1), ("trellis.ast", 2), ("trellis.debug", 3)]

theorem applySourceHook_identity (text : String) :
    (applySourceHook 8 identityDialect text "m.trl").run dialectSession = .ok text dialectSession := by
  rfl

theorem callFunction_identityTreeHook (v : Value) :
    (callFunction 7 identityTreeHook [v]).run dialectSession = .ok v dialectSession := by
  rfl

/-- A tree value reads back as its tree. -/
theorem toTree?_run_tree (t : Tree) (s : Session) : (toTree? (.tree t)).run s = .ok (some t) s := by
  -- the store's fuel is positive, so a tree value is read at once
  simp only [toTree?, store, EStateM.run_bind, EStateM.run_get]
  rfl

theorem applyTreeHook_identity (m : Module) :
    (applyTreeHook 8 identityDialect identityDialect.ast m "m.trl").run dialectSession =
      .ok m dialectSession := by
  simp only [identityDialect, applyTreeHook, EStateM.run_bind, mapError, EStateM.run_tryCatch,
    callFunction_identityTreeHook, toTree?_run_tree]
  rfl

/-- The engine's own modules are registered in the session. -/
theorem dialectSession_engine {n : String} {m : ModuleObject} (h : engineModule? n = some m) :
    (dialectSession.registry.lookup n).isSome := by
  by_cases h₁ : n = "trellis"
  · subst h₁; decide
  by_cases h₂ : n = "trellis.ast"
  · subst h₂; decide
  by_cases h₃ : n = "trellis.debug"
  · subst h₃; decide
  simp [engineModule?, h₁, h₂, h₃] at h

/-- With no search root, no file and no directory is found. -/
theorem findModule_run_closed (n : String) :
    (findModule n).run dialectSession = .ok none dialectSession := by
  unfold findModule
  simp only [EStateM.run_bind, EStateM.run_get]
  split <;> rfl

theorem findNamespaceDir_run_closed (n : String) :
    (findNamespaceDir n).run dialectSession = .ok none dialectSession := by
  rfl

/-- A module the session does not have cannot be imported afresh. -/
theorem importFresh_run_closed {f : Nat} {n : String} (hn : dialectSession.registry.lookup n = none) :
    ∃ e, (importFresh f n).run dialectSession = .error e dialectSession := by
  have heng : engineModule? n = none := by
    cases h : engineModule? n with
    | none => rfl
    | some m => simpa [hn] using dialectSession_engine h
  unfold importFresh
  simp only [heng, EStateM.run_bind, findModule_run_closed, findNamespaceDir_run_closed]
  exact ⟨_, rfl⟩

/-- An import from the session answers with a registered module and changes nothing. -/
theorem importModule_run_closed (f : Nat) : ∀ (n : String) {r : Nat} {s' : Session},
    (importModule f n false).run dialectSession = .ok r s' →
      s' = dialectSession ∧ dialectSession.registry.lookup n = some r := by
  induction f with
  | zero => intro n r s' h; cases h
  | succ f ih =>
    intro n r s' h
    cases hreg : dialectSession.registry.lookup n with
    | some r' =>
      rw [importModule_run_of_registered hreg] at h
      cases h
      exact ⟨rfl, rfl⟩
    | none =>
      -- an unregistered module is not found afresh, whether or not its parent imports
      exfalso
      obtain ⟨e, he⟩ := importFresh_run_closed (f := f) hreg
      rw [importModule_succ] at h
      cases hsplit : splitLast? n with
      | none => simp [registered?, hsplit, hreg, he] at h
      | some pc =>
        cases hp : (importModule f pc.1 false).run dialectSession with
        | error e' t => simp [registered?, hsplit, hreg, hp] at h
        | ok p t =>
          obtain ⟨rfl, -⟩ := ih pc.1 hp
          simp [registered?, hsplit, hreg, hp, he] at h

/-- Setting a variable keeps the table's other entries and adds the new one. -/
theorem mem_setVar {vars : List (String × Value)} {k : String} {v : Value} {p : String × Value}
    (h : p ∈ setVar vars k v) : p ∈ vars ∨ p = (k, v) := by
  unfold setVar at h
  split at h
  · obtain ⟨⟨k', v'⟩, hq, rfl⟩ := List.mem_map.1 h
    dsimp only
    split
    · exact .inr rfl
    · exact .inl hq
  · rcases List.mem_append.1 h with h | h
    · exact .inl h
    · exact .inr (List.mem_singleton.1 h)

/-- The engine's own modules hold no dialect: their variables are their name, their package,
built-in functions and engine macros. -/
theorem engineModule_no_dialect {n : String} {m : ModuleObject} (h : engineModule? n = some m)
    {p : String × Value} (hp : p ∈ m.vars) (d : DialectSpec Value) : p.2 ≠ .dialect d := by
  have hset : ∀ {vars : List (String × Value)} {k : String} {v : Value},
      (∀ q ∈ vars, q.2 ≠ .dialect d) → v ≠ .dialect d → ∀ q ∈ setVar vars k v, q.2 ≠ .dialect d := by
    intro vars k v hvars hv q hq
    rcases mem_setVar hq with hq | rfl
    · exact hvars q hq
    · exact hv
  have hfold : ∀ (bs : List Builtin) (vars : List (String × Value)),
      (∀ q ∈ vars, q.2 ≠ .dialect d) →
      ∀ q ∈ bs.foldl (fun vs b => setVar vs b.name (.builtin b)) vars, q.2 ≠ .dialect d := by
    intro bs
    induction bs with
    | nil => exact fun _ h => h
    | cons b bs ih => exact fun vars hv => ih _ (hset hv (by simp))
  have hfresh : ∀ pkg, ∀ q ∈ (ModuleObject.fresh n none pkg).vars, q.2 ≠ .dialect d := by
    simp [ModuleObject.fresh]
  unfold engineModule? at h
  obtain ⟨bs, -, rfl⟩ := Option.map_eq_some_iff.1 h
  dsimp only at hp
  split at hp
  · exact hset (hset (hfold bs _ (hfresh _)) (by simp)) (by simp) p hp
  · exact hfold bs _ (hfresh _) p hp

theorem getD_engineModule_no_dialect {n : String} (hn : (engineModule? n).isSome = true)
    {p : String × Value} (hp : p ∈ ((engineModule? n).getD default).vars) (d : DialectSpec Value) :
    p.2 ≠ .dialect d := by
  obtain ⟨m, hm⟩ := Option.isSome_iff_exists.1 hn
  rw [hm] at hp
  exact engineModule_no_dialect hm hp d

/-- The only dialect the session's registered modules hold is `D`. -/
theorem dialectSession_dialect {n : String} {r : Nat} (hr : dialectSession.registry.lookup n = some r)
    {k : String} {d : DialectSpec Value}
    (h : getVar? (dialectSession.store.module r).vars k = some (.dialect d)) : d = identityDialect := by
  obtain ⟨p, hp, hpd⟩ : ∃ p ∈ (dialectSession.store.module r).vars, p.2 = .dialect d := by
    simp only [getVar?, Option.map_eq_some_iff] at h
    obtain ⟨p, hfind, hp⟩ := h
    exact ⟨p, List.mem_of_find?_eq_some hfind, hp⟩
  -- the registered modules are `d` and the engine's own three
  have hr' : r = 0 ∨ r = 1 ∨ r = 2 ∨ r = 3 := by
    obtain ⟨l₁, l₂, hl, -⟩ := List.lookup_eq_some_iff.1 hr
    have hmem : (n, r) ∈ dialectSession.registry :=
      hl ▸ List.mem_append_right l₁ List.mem_cons_self
    simp only [dialectSession, List.mem_cons, Prod.mk.injEq, List.not_mem_nil, or_false] at hmem
    omega
  rcases hr' with rfl | rfl | rfl | rfl
  · -- module `d`: its name, its package and `D`
    simp [dialectSession, Store.module, dialectModule, ModuleObject.fresh] at hp
    rcases hp with rfl | rfl | rfl
    · cases hpd
    · cases hpd
    · cases hpd
      rfl
  · exact absurd hpd (getD_engineModule_no_dialect (n := "trellis") (by decide) hp d)
  · exact absurd hpd (getD_engineModule_no_dialect (n := "trellis.ast") (by decide) hp d)
  · exact absurd hpd (getD_engineModule_no_dialect (n := "trellis.debug") (by decide) hp d)

/-- Locating a computation changes only its errors. -/
theorem locating_run_ok {α : Type} {x : Run α} {file : String} {loc : Option Loc} {s s' : Session}
    {a : α} (h : (locating x file loc).run s = .ok a s') : x.run s = .ok a s' := by
  unfold locating at h
  rw [EStateM.run_tryCatch] at h
  cases hx : x.run s with
  | ok b t => simpa [hx] using h
  | error e t =>
    simp only [hx] at h
    cases h

/-- A loop whose steps only read the session, each adding one dialect that `Q` holds of, ends
where it started, with dialects all of which `Q` holds of. -/
theorem forIn_collects {β : Type} {xs : List β} {Q : DialectSpec Value → Prop} {s : Session}
    {body : β → List (DialectSpec Value) → Run (ForInStep (List (DialectSpec Value)))}
    (hbody : ∀ a out step s', (body a out).run s = .ok step s' →
      s' = s ∧ ∃ d, Q d ∧ step = .yield (out ++ [d])) :
    ∀ (init out : List (DialectSpec Value)) (s' : Session), (∀ d ∈ init, Q d) →
      (ForIn.forIn xs init body).run s = .ok out s' → s' = s ∧ ∀ d ∈ out, Q d := by
  induction xs with
  | nil =>
    intro init out s' hinit h
    cases h
    exact ⟨rfl, hinit⟩
  | cons a xs ih =>
    intro init out s' hinit h
    rw [List.forIn_cons] at h
    obtain ⟨step, s₁, h₁, h⟩ := Expander.run_bind_ok h
    obtain ⟨rfl, d, hd, rfl⟩ := hbody a init step s₁ h₁
    refine ih (init ++ [d]) out s' (fun d' hd' => ?_) h
    rcases List.mem_append.1 hd' with hd' | hd'
    · exact hinit d' hd'
    · rw [List.mem_singleton.1 hd']
      exact hd

/-- Instantiating any import from the session changes nothing and gives only `D`. -/
theorem instantiate_run_closed {f : Nat} {stmt : Stmt} {ds : List (DialectSpec Value)}
    {s' : Session} (h : (instantiate f stmt "m.trl" none).run dialectSession = .ok ds s') :
    s' = dialectSession ∧ ∀ d ∈ ds, d = identityDialect := by
  cases f with
  | zero => cases h
  | succ f =>
    rw [instantiate] at h
    obtain ⟨target, s₁, h₁, h⟩ := Expander.run_bind_ok h
    obtain rfl := resolveImport_stable stmt "m.trl" none false _ _ _ h₁
    obtain ⟨r, s₂, h₂, h⟩ := Expander.run_bind_ok h
    obtain ⟨rfl, hr⟩ := importModule_run_closed f target.module (locating_run_ok h₂)
    obtain ⟨out, s₃, h₃, h⟩ := Expander.run_bind_ok h
    cases h
    refine forIn_collects (fun a out step s' hstep => ?_) [] ds s' (by simp) h₃
    -- each step reads one variable of the imported module
    obtain ⟨v, s₄, h₄, hstep⟩ := Expander.run_bind_ok hstep
    have hread : (moduleVar? r a.name).run dialectSession =
        .ok (getVar? (dialectSession.store.module r).vars a.name) dialectSession := rfl
    rw [hread] at h₄
    cases h₄
    split at hstep
    · rename_i d hd
      cases hstep
      exact ⟨rfl, d, dialectSession_dialect hr hd, rfl⟩
    · cases hstep
    · cases hstep

/-- Dialect `D`'s source hook keeps every invariant of the session and relation of texts: it
gives its text back, in the session it was called in. -/
theorem identitySource_keeps {R : String → String → Prop} (hR : ∀ x, R x x) :
    Keeps (· = dialectSession) R (applySourceHook 8 identityDialect · "m.trl") := by
  rintro x s y s' rfl h
  rw [applySourceHook_identity] at h
  cases h
  exact ⟨rfl, hR x⟩

/-- So does its tree hook, which gives its module back. -/
theorem identityTree_keeps {R : Module → Module → Prop} (hR : ∀ m, R m m) :
    Keeps (· = dialectSession) R (applyTreeHook 8 identityDialect identityDialect.ast · "m.trl") := by
  rintro m s m' s' rfl h
  rw [applyTreeHook_identity] at h
  cases h
  exact ⟨rfl, hR m⟩

/-- Every import instantiated from the session meets what `D` meets. -/
theorem instantiates_identity {good : DialectSpec Value → Prop} (hgood : good identityDialect) :
    Instantiates (· = dialectSession) 8 "m.trl" none good := by
  rintro stmt s ds s' rfl h
  obtain ⟨rfl, hds⟩ := instantiate_run_closed h
  exact ⟨rfl, fun d hd => hds d hd ▸ hgood⟩

/-- The dialect-import line of the texts below. -/
def dialectLine : String := "from d import dialects, D"

/-- What the line parses to. -/
def dialectImport : Stmt :=
  .mk (.importFrom (some "d") 0 [⟨"dialects", none⟩, ⟨"D", none⟩]) (some ⟨1, 0⟩)

set_option maxRecDepth 8000 in
theorem dialectLine_parse : Syntax.parseStatement dialectLine "m.trl" = .ok dialectImport := by
  cbv

theorem dialectLines_twice :
    dialectLines (dialectLine ++ "\n" ++ dialectLine ++ "\n") = [dialectLine, dialectLine] := by
  cbv

/-- One round of the source pass on the line: `D` is instantiated and its hook gives the text
back. -/
theorem dialectLineRound_identity (text : String) :
    (dialectLineRound (fun stmt => instantiate 8 stmt "m.trl" none)
      (fun d text => applySourceHook 8 d text "m.trl") "m.trl" dialectLine text).run
        dialectSession = .ok text dialectSession := by
  have hinst : (instantiate 8 dialectImport "m.trl" none).run dialectSession =
      .ok [identityDialect] dialectSession := rfl
  unfold dialectLineRound
  simp only [EStateM.run_bind, run_liftExcept, dialectLine_parse]
  rw [if_neg (by decide)]
  simp only [EStateM.run_bind, hinst, List.foldlM_cons, List.foldlM_nil, applySourceHook_identity]
  rfl

/-- The source pass on a text that imports `D` twice: the first round handles the line, and
the second finds it handled. -/
theorem transformSource_identity :
    (transformSource 9 (dialectLine ++ "\n" ++ dialectLine ++ "\n") "m.trl" none).run
      dialectSession = .ok (dialectLine ++ "\n" ++ dialectLine ++ "\n") dialectSession := by
  rw [transformSource, show loopBound = 4294967294 + 1 + 1 from rfl, sourceRounds.eq_2,
    dialectLines_twice]
  simp only [List.find?, List.contains_nil, Bool.not_false]
  rw [EStateM.run_bind, dialectLineRound_identity]
  dsimp only
  rw [sourceRounds.eq_2, dialectLines_twice]
  simp

/-- The tree pass on the module of the line: the import becomes `import d` at its place, and
`D`'s tree hook gives the module back. -/
theorem transformAst_identity :
    (transformAst 9 ⟨[dialectImport]⟩ "m.trl" none).run dialectSession =
      .ok (⟨[.mk (.importModule "d" none) dialectImport.loc]⟩, [identityDialect]) dialectSession := by
  rfl

/-- The hypotheses of the main statement met by a dialect with running hooks: from
`dialectSession`, on a text that imports `D` twice and on the module of the line,
every instantiated dialect is `D` and its hooks give back what they are given. Both passes then
complete: the source pass hands the repeated line to one round only, and the tree pass rewrites
the import in place to `import d`. -/
theorem dialectPasses_identity_hooks :
    let t₀ := dialectLine ++ "\n" ++ dialectLine ++ "\n"
    let m₀ : Module := ⟨[dialectImport]⟩
    let M := dialectLines t₀
    Instantiates (· = dialectSession) 8 "m.trl" none (fun d => Keeps (· = dialectSession)
      (fun x y => LinesWithin M x → LinesWithin M y) (applySourceHook 8 d · "m.trl")) ∧
    Instantiates (· = dialectSession) 8 "m.trl" none (fun d => Keeps (· = dialectSession)
      (fun m m' => m'.dialectImportCount ≤ m.dialectImportCount) (applyTreeHook 8 d d.ast · "m.trl")) ∧
    ((∃ lines, SourceRun (dialectLineRound (fun stmt => instantiate 8 stmt "m.trl" none)
        (fun d text => applySourceHook 8 d text "m.trl") "m.trl") loopBound t₀ [] dialectSession lines
        ((transformSource (8 + 1) t₀ "m.trl" none).run dialectSession) ∧
      lines.Nodup ∧ (∀ x ∈ lines, x ∈ M) ∧ lines.length ≤ M.dedup.length ∧
      (M.dedup.length < loopBound → ∀ t s',
        (transformSource (8 + 1) t₀ "m.trl" none).run dialectSession = .ok t s' →
        ∀ x ∈ dialectLines t, x ∈ lines)) ∧
    (∃ imports, AstRun (fun stmt => resolveImport stmt "m.trl" none false)
        (fun stmt => instantiate 8 stmt "m.trl" none)
        (fun d m => applyTreeHook 8 d d.ast m "m.trl") (m₀.body.length + loopBound) m₀ []
        dialectSession imports ((transformAst (8 + 1) m₀ "m.trl" none).run dialectSession) ∧
      imports.length ≤ m₀.dialectImportCount ∧
      ∀ m applied s', (transformAst (8 + 1) m₀ "m.trl" none).run dialectSession = .ok (m, applied) s' →
        m.dialectImportCount = 0)) ∧
    M.dedup.length = 1 ∧
    (transformSource (8 + 1) t₀ "m.trl" none).run dialectSession = .ok t₀ dialectSession ∧
    (transformAst (8 + 1) m₀ "m.trl" none).run dialectSession =
      .ok (⟨[.mk (.importModule "d" none) dialectImport.loc]⟩, [identityDialect]) dialectSession := by
  intro t₀ m₀ M
  have hsource : Instantiates (· = dialectSession) 8 "m.trl" none (fun d => Keeps (· = dialectSession)
      (fun x y => LinesWithin M x → LinesWithin M y) (applySourceHook 8 d · "m.trl")) :=
    instantiates_identity (identitySource_keeps fun _ h => h)
  have htree : Instantiates (· = dialectSession) 8 "m.trl" none (fun d => Keeps (· = dialectSession)
      (fun m m' => m'.dialectImportCount ≤ m.dialectImportCount) (applyTreeHook 8 d d.ast · "m.trl")) :=
    instantiates_identity (identityTree_keeps fun m => Nat.le_refl _)
  refine ⟨hsource, htree, dialectPasses_handle_each_import_once (P := (· = dialectSession)) rfl hsource htree, ?_,
    transformSource_identity, transformAst_identity⟩
  show (dialectLines t₀).dedup.length = 1
  rw [dialectLines_twice]
  decide

end Run

end Espalier
