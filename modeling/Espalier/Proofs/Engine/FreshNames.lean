import Espalier.Proofs.Engine.Host

/-!
# Fresh names are never handed out twice

`gensym base` raises the session's counter by one and names the new value `k`: `gs<k>`, or
`<base>_gs<k>`. Two things make these names unique over a session's life:

* a name gives its number back: its trailing run of digits is `k` written in decimal, since
  the character before it is always `s` (`trailingDigits_freshName`);
* the counter never goes down: every operation of the engine and of the host's interface
  keeps `CounterGrows` (`Tracked.counter_le`), and each call raises it.

`FreshNames s names t` is a stretch of a session from `s` to `t`: fresh-name calls in order,
with any tracked computation between them, `names` being what the calls returned. Main
statement: `freshNames_nodup`, the names of every such stretch are pairwise distinct. The calls
that `createModule` and the `gensym` builtin make are calls of the same kind
(`FreshNames.createModule`, `FreshNames.gensymBuiltin`), so their names count among them. The
counter is a natural number here; the program's 64-bit counter agrees with it as long as a
session makes fewer than `2^64` calls, so no bound on the number of calls appears.
-/

namespace Espalier

open Run

/-- The name a fresh-name call with base `base` gives when it raises the counter to `k`. -/
def freshName (base : String) (k : Nat) : String :=
  if base.isEmpty then "gs" ++ toString k else base ++ "_gs" ++ toString k

theorem gensym_run (base : String) (s : Session) :
    (Run.gensym base).run s =
      .ok (freshName base (s.gensyms + 1)) { s with gensyms := s.gensyms + 1 } :=
  rfl

/-! ## A name gives its number back -/

/-- The digits a text ends with. -/
def trailingDigits (t : String) : List Char :=
  (t.toList.reverse.takeWhile Char.isDigit).reverse

theorem trailingDigits_append_s (p : String) (k : Nat) :
    trailingDigits (p ++ "s" ++ toString k) = Nat.toDigits 10 k := by
  have hdigits : ∀ c ∈ (Nat.toDigits 10 k).reverse, c.isDigit = true := fun c hc =>
    Nat.isDigit_of_mem_toDigits (by omega) (by omega) (List.mem_reverse.mp hc)
  have hlist : (p ++ "s" ++ toString k).toList.reverse =
      (Nat.toDigits 10 k).reverse ++ ('s' :: p.toList.reverse) := by
    simp [String.toList_append, Nat.toString_eq_repr, Nat.toList_repr]
  -- the digits are all taken, and the `s` before them stops the run
  have htake : ((Nat.toDigits 10 k).reverse ++ ('s' :: p.toList.reverse)).takeWhile
      Char.isDigit = (Nat.toDigits 10 k).reverse := by
    rw [List.takeWhile_append, List.takeWhile_eq_self_iff.mpr hdigits, if_pos rfl,
      List.takeWhile_cons_of_neg (by decide), List.append_nil]
  rw [trailingDigits, hlist, htake, List.reverse_reverse]

theorem freshName_eq_append_s (base : String) (k : Nat) :
    ∃ p, freshName base k = p ++ "s" ++ toString k := by
  unfold freshName
  split
  · exact ⟨"g", rfl⟩
  · exact ⟨base ++ "_g", by simp [String.append_assoc]⟩

theorem trailingDigits_freshName (base : String) (k : Nat) :
    trailingDigits (freshName base k) = Nat.toDigits 10 k := by
  obtain ⟨p, hp⟩ := freshName_eq_append_s base k
  rw [hp, trailingDigits_append_s]

/-- Names from different counter values differ, whatever their bases. -/
theorem freshName_number_eq {base base' : String} {k k' : Nat}
    (h : freshName base k = freshName base' k') : k = k' := by
  have hdigits : Nat.toDigits 10 k = Nat.toDigits 10 k' := by
    rw [← trailingDigits_freshName base k, ← trailingDigits_freshName base' k', h]
  apply Nat.repr_injective
  apply String.toList_injective
  rw [Nat.toList_repr, Nat.toList_repr, hdigits]

/-! ## The counter only grows -/

/-- A later session's counter is at least an earlier one's. -/
def CounterGrows (s t : Session) : Prop := s.gensyms ≤ t.gensyms

instance : IsPreorder Session CounterGrows where
  refl s := Nat.le_refl s.gensyms
  trans _ _ _ h₁ h₂ := Nat.le_trans h₁ h₂

theorem tracks_counterGrows : Tracks CounterGrows where
  frame _ _ h _ := Nat.le_of_eq h.symm
  fresh s := Nat.le_succ s.gensyms
  store _ _ _ _ := Nat.le_refl _
  forget _ := Nat.le_refl _

variable {α : Type}

theorem Tracked.counter_le {x : Run α} (hx : Tracked x) (s : Session) :
    s.gensyms ≤ (stateAfter (x.run s)).gensyms :=
  (hx.respects tracks_counterGrows).after s

/-! ## Stretches of a session -/

/-- A stretch of a session from `s` to `t`: fresh-name calls in order, with any tracked
computation between them; `names` are what the calls returned. -/
inductive FreshNames : Session → List String → Session → Prop
  | done (s : Session) : FreshNames s [] s
  | call (base : String) {s s' t : Session} {g : String} {names : List String}
      (h : (Run.gensym base).run s = .ok g s') (rest : FreshNames s' names t) :
      FreshNames s (g :: names) t
  | work {β : Type} (x : Run β) (hx : Tracked x) {s t : Session} {names : List String}
      (rest : FreshNames (stateAfter (x.run s)) names t) : FreshNames s names t

namespace FreshNames

theorem append {s t u : Session} {names names' : List String} (h : FreshNames s names t)
    (h' : FreshNames t names' u) : FreshNames s (names ++ names') u := by
  induction h with
  | done => exact h'
  | call base hrun _ ih => exact .call base hrun (ih h')
  | work x hx _ ih => exact .work x hx (ih h')

/-- Every name of a stretch is numbered above the counter it starts from, and the counter at
its end is at least every number given out. -/
theorem numbered_above {s t : Session} {names : List String} (h : FreshNames s names t) :
    s.gensyms ≤ t.gensyms ∧
      ∀ g ∈ names, ∃ base k, g = freshName base k ∧ s.gensyms < k ∧ k ≤ t.gensyms := by
  induction h with
  | done s => exact ⟨Nat.le_refl _, fun g hg => absurd hg List.not_mem_nil⟩
  | @call base s s' t g names hrun _ ih =>
    rw [gensym_run] at hrun
    obtain ⟨rfl, rfl⟩ := EStateM.Result.ok.inj hrun
    refine ⟨by simp at ih; omega, fun g' hg' => ?_⟩
    rcases List.mem_cons.mp hg' with rfl | hmem
    · exact ⟨base, s.gensyms + 1, rfl, Nat.lt_succ_self _, ih.1⟩
    · obtain ⟨b, k, hk, hlo, hhi⟩ := ih.2 g' hmem
      exact ⟨b, k, hk, by simp at hlo; omega, hhi⟩
  | @work β x hx s t names _ ih =>
    have hx' := hx.counter_le s
    refine ⟨Nat.le_trans hx' ih.1, fun g hg => ?_⟩
    obtain ⟨b, k, hk, hlo, hhi⟩ := ih.2 g hg
    exact ⟨b, k, hk, Nat.lt_of_le_of_lt hx' hlo, hhi⟩

/-- A fresh-name call and tracked work after it: a stretch that hands out the call's name. -/
theorem gensym_bind {β : Type} (base : String) {k : String → Run β} (hk : ∀ g, Tracked (k g))
    (s : Session) :
    FreshNames s [freshName base (s.gensyms + 1)] (stateAfter ((Run.gensym base >>= k).run s)) := by
  rw [EStateM.run_bind, gensym_run]
  exact .call base (gensym_run base s) (.work _ (hk _) (.done _))

/-- Creating a module whose name passes the check hands out one fresh name, `gs<k>`, whether
the rest of the creation succeeds or not. -/
theorem createModule (dotted filename : Option String) (s : Session)
    (hname : (dotted.all fun n => (dottedParts n).all isIdentifier) = true) :
    FreshNames s [freshName "" (s.gensyms + 1)]
      (stateAfter ((Run.createModule dotted filename).run s)) := by
  obtain ⟨k, hk, hrun⟩ := Run.createModule_run_cases dotted filename
  rw [(hrun s).1 hname]
  exact gensym_bind "" hk s

/-- A call of the `gensym` builtin that returns hands out the name it returns. -/
theorem gensymBuiltin {args : List Value} {s t : Session} {v : Value}
    (h : (Run.callBuiltin .gensym args).run s = .ok v t) : ∃ g, v = .str g ∧ FreshNames s [g] t := by
  simp only [Run.callBuiltin] at h
  split at h
  next =>
    -- no argument: the empty base
    simp only [EStateM.run_bind, gensym_run, EStateM.run_pure, EStateM.Result.ok.injEq] at h
    obtain ⟨rfl, rfl⟩ := h
    exact ⟨_, rfl, .call "" (gensym_run "" s) (.done _)⟩
  next base =>
    -- one argument, the base, which must be a string
    cases base
    case str b =>
      simp only [EStateM.run_bind, Run.strArg, EStateM.run_pure, gensym_run,
        EStateM.Result.ok.injEq] at h
      obtain ⟨rfl, rfl⟩ := h
      exact ⟨_, rfl, .call b (gensym_run b s) (.done _)⟩
    all_goals
      simp only [EStateM.run_bind, Run.strArg] at h
      cases h
  next => cases h

end FreshNames

/-- The names a session hands out are pairwise distinct, over any stretch of fresh-name calls
and tracked computations, whatever the bases. -/
theorem freshNames_nodup {s t : Session} {names : List String} (h : FreshNames s names t) :
    names.Nodup := by
  induction h with
  | done => exact List.nodup_nil
  | @call base s s' t g names hrun rest ih =>
    refine List.nodup_cons.mpr ⟨fun hg => ?_, ih⟩
    -- the first name has number `s.gensyms + 1`; every later one is numbered above it
    rw [gensym_run] at hrun
    obtain ⟨rfl, rfl⟩ := EStateM.Result.ok.inj hrun
    obtain ⟨b, k, hk, hlo, -⟩ := rest.numbered_above.2 _ hg
    have := freshName_number_eq hk
    simp at hlo
    omega
  | work _ _ _ ih => exact ih

/-- A module created without a name, then the builtin called with base `a`, then a direct call
with base `a`: three names handed out, pairwise distinct. -/
theorem freshNames_module_builtin_call :
    ∃ names t, FreshNames (default : Session) names t ∧ names.length = 3 ∧ names.Nodup := by
  have hmodule := FreshNames.createModule none none default rfl
  have hbuiltin : (Run.callBuiltin .gensym [.str "a"]).run
      (stateAfter ((Run.createModule none none).run default)) = .ok _ _ := rfl
  obtain ⟨g, -, hcall⟩ := FreshNames.gensymBuiltin hbuiltin
  have h := hmodule.append (hcall.append (.call "a" (gensym_run "a" _) (.done _)))
  exact ⟨_, _, h, rfl, freshNames_nodup h⟩

end Espalier
