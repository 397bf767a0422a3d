import Espalier.Proofs.Engine.Tracks

/-!
# The host's operations

What a host does with a session (create a module, run or expand a source, import, evaluate,
look at a module or a value, query the importer, write a file, drop the caches, ask for a fresh
name) is made of the engine's functions and of writes that `Tracks` allows. `Tracked x` says
that `x` keeps to every preorder that allows the engine's writes; this file proves it for every
operation of the host's interface, so a statement proved for one such preorder holds along any
sequence of them.
-/

namespace Espalier

open Run

/-- A computation keeps to every preorder on sessions that allows the engine's writes. -/
def Tracked {α : Type} (x : Run α) : Prop :=
  ∀ (R : Session → Session → Prop) [IsPreorder Session R], Tracks R → Respects R x

namespace Tracked

variable {α β : Type}

theorem respects {x : Run α} (hx : Tracked x) {R : Session → Session → Prop}
    [IsPreorder Session R] (hR : Tracks R) : Respects R x :=
  hx R hR

theorem pure (a : α) : Tracked (Pure.pure a : Run α) := fun _ _ _ => Respects.pure a

theorem bind {x : Run α} {k : α → Run β} (hx : Tracked x) (hk : ∀ a, Tracked (k a)) :
    Tracked (x >>= k) := fun R _ hR => (hx R hR).bind fun a => hk a R hR

theorem engine {R : Session → Session → Prop} [IsPreorder Session R] (hR : Tracks R) :
    EngineRespects R engineFuel :=
  hR.engine engineFuel

end Tracked

/-! ## The interface -/

theorem Tracked.gensym (base : String) : Tracked (Run.gensym base) := fun _ _ hR =>
  hR.gensym base

/-- Creating a module either fails its name check, leaving the session as it was, or starts with
one fresh-name call and goes on with a tracked computation. -/
theorem Run.createModule_run_cases (dotted filename : Option String) :
    ∃ k : String → Run Nat, (∀ uuid, Tracked (k uuid)) ∧ ∀ s,
      ((dotted.all fun n => (dottedParts n).all isIdentifier) = true →
        (Run.createModule dotted filename).run s = (Run.gensym "" >>= k).run s) ∧
      ((dotted.all fun n => (dottedParts n).all isIdentifier) = false →
        ∃ e, (Run.createModule dotted filename).run s = .error e s) := by
  refine ⟨?k, ?hk, fun s => ?run⟩
  case run =>
    unfold Run.createModule
    (try lift_lets); intro jp
    -- the join point after the name check is the fresh-name call and what follows it
    have hjp : ∀ s, (jp ()).run s = (Run.gensym "" >>= ?k).run s := by
      intro s
      simp only [jp]
      exact rfl
    cases dotted with
    | none => exact ⟨fun _ => hjp s, fun h => absurd h (by decide)⟩
    | some n =>
      simp only [Option.all_some]
      constructor
      · intro hok
        rw [if_pos hok]
      · intro hbad
        rw [if_neg (by simp [hbad])]
        exact ⟨_, rfl⟩
  case hk =>
    intro uuid R _ hR
    simp only [Run.registered?, Run.newModule, Run.registerChild, Run.register,
      Run.attachToParent, Run.setModuleVar, Run.store, Run.modifyStore, Run.module]
    repeat
      first
      | with_reducible apply Respects.bind
      | intro _
      | with_reducible exact Respects.pure _
      | with_reducible exact Respects.throw _
      | with_reducible exact Respects.get
      | with_reducible apply Respects.ite
      | (with_reducible apply Respects.modify; intro s; apply hR.frame <;> rfl)
      | split
      | dsimp only

theorem Tracked.createModule (dotted filename : Option String) :
    Tracked (Run.createModule dotted filename) := by
  obtain ⟨k, hk, hrun⟩ := Run.createModule_run_cases dotted filename
  intro R _ hR
  refine ⟨fun s => ?_⟩
  cases hname : dotted.all fun n => (dottedParts n).all isIdentifier with
  | true =>
    rw [(hrun s).1 hname]
    exact (((Tracked.gensym "").bind hk) R hR).after s
  | false =>
    obtain ⟨e, h⟩ := (hrun s).2 hname
    rw [h]
    exact refl_of R s

theorem Tracked.runIn (source : Source) (target : Target) : Tracked (Run.runIn source target) := by
  intro R _ hR
  have hcreate : Respects R (Run.createModule none none) := Tracked.createModule none none R hR
  have hcompile := (hR.engine engineFuel).compileSource
  have hexec := (hR.engine engineFuel).execCode
  simp only [Run.runIn, Run.registered?, Run.module, Run.store]
  repeat
    first
    | with_reducible apply Respects.bind
    | intro _
    | with_reducible exact Respects.pure _
    | with_reducible exact Respects.throw _
    | with_reducible exact Respects.get
    | with_reducible apply_assumption -exfalso -symm
    | split
    | dsimp only

theorem Tracked.expand (source : Source) (filename : String) (selfName : Option String) :
    Tracked (Run.expand source filename selfName) := fun _ _ hR =>
  (Tracked.engine hR).expandSource source filename selfName

theorem Tracked.compile (source : Source) (filename : String) (selfName : Option String) :
    Tracked (Run.compile source filename selfName) := fun _ _ hR =>
  (Tracked.engine hR).compileSource source filename selfName

theorem Tracked.importNamed (name : String) (reload : Bool) :
    Tracked (Run.importNamed name reload) := fun _ _ hR =>
  (Tracked.engine hR).importModule name reload

theorem Tracked.evalIn (r : Nat) (e : Expr) : Tracked (Run.evalIn r e) := fun _ _ hR =>
  (Respects.bind Respects.get fun _ => Respects.pure _).bind fun _ =>
    (Tracked.engine hR).eval _ none e

theorem Tracked.viewModule (r : Nat) : Tracked (Run.viewModule r) := by
  intro R _ hR
  simp only [Run.viewModule, Run.module, Run.repr, Run.store]
  repeat
    first
    | with_reducible apply Respects.bind
    | intro _
    | with_reducible exact Respects.pure _
    | with_reducible exact Respects.get
    | with_reducible apply Respects.forIn
    | split
    | dsimp only

theorem Tracked.viewValue (v : Value) : Tracked (Run.viewValue v) := by
  intro R _ hR
  simp only [Run.viewValue, Run.repr, Run.display, Run.store]
  repeat
    first
    | with_reducible apply Respects.bind
    | intro _
    | with_reducible exact Respects.pure _
    | with_reducible exact Respects.get

theorem Tracked.invalidateCaches : Tracked Run.invalidateCaches := fun _ _ hR =>
  Respects.modify hR.forget

theorem Tracked.isCodeCached (path : String) : Tracked (Run.isCodeCached path) := fun _ _ _ =>
  Respects.get.bind fun _ => Respects.pure _

theorem Tracked.xstatsOf (path : String) : Tracked (Run.xstatsOf path) := fun _ _ hR =>
  hR.pathXstats engineFuel path

theorem Tracked.registryNames : Tracked Run.registryNames := fun _ _ _ =>
  Respects.get.bind fun _ => Respects.pure _

theorem Tracked.registered? (name : String) : Tracked (Run.registered? name) := fun _ _ _ =>
  Respects.get.bind fun _ => Respects.pure _

theorem Tracked.module (r : Nat) : Tracked (Run.module r) := fun _ _ _ =>
  (Respects.get.bind fun _ => Respects.pure _).bind fun _ => Respects.pure _

theorem Tracked.findModule (name : String) : Tracked (Run.findModule name) := fun _ _ _ =>
  Respects.findModule name

theorem Tracked.dependencies (path : String) : Tracked (Run.dependencies path) := fun _ _ hR =>
  hR.dependencies path

theorem Tracked.depsRecord (path : String) : Tracked (Run.depsRecord path) := fun _ _ hR =>
  hR.depsRecord path

/-- Writing a file by hand touches neither the counter nor the code cache. -/
theorem Tracked.writeFile (path : String) (c : Content) :
    Tracked (modify fun s : Session => { s with files := s.files.writePinned path c }) :=
  fun _ _ hR => Respects.modify fun _ => hR.frame _ _ rfl rfl

end Espalier
