import Mathlib
import Espalier.Peg.Match

/-!
# Runs of the matcher

`matchExpr` threads a tracker of failed attempts through a match and cuts the descent off at
a fuel bound, answering `none` when the fuel runs out. Neither changes the answer of a match
that has fuel enough: the tracker is only ever written, and past what a match needs, more
fuel changes nothing. So a run is described by

* `Yields g ctx e cur k res`: matching `e` at `cur` answers `res`, from every tracker, at
  every fuel from `k` on.

The lemmas below give `Yields` for each kind of expression from the same fact about its
parts, one lemma per way an expression can succeed or fail, so that the rules of a grammar
can be run on a given text without unfolding the matcher. A fuel bound is always a lower
bound: a failure that only comes from running out of fuel (which would make a lookahead
succeed) never satisfies `Yields`.

Positions move by `Cursor.past`: past a text, its characters counted once in the character
index and once per UTF-8 byte in the byte offset.
-/

namespace Espalier.Peg

/-! ## State computations with a fixed value -/

/-- The value of a state computation, whatever state it starts from. -/
def Gives {σ α : Type} (x : StateM σ α) (a : α) : Prop := ∀ s, (x.run s).1 = a

namespace Gives

variable {σ α β : Type}

theorem pure (a : α) : Gives (Pure.pure a : StateM σ α) a := fun _ => rfl

theorem bind {x : StateM σ α} {f : α → StateM σ β} {a : α} {b : β} (hx : Gives x a)
    (hf : Gives (f a) b) : Gives (x >>= f) b := by
  intro s
  show ((f (x.run s).1).run (x.run s).2).1 = b
  rw [hx s]
  exact hf _

/-- Reading the state does not matter when every continuation gives the same value. -/
theorem get_bind {f : σ → StateM σ β} {b : β} (hf : ∀ t, Gives (f t) b) :
    Gives (get >>= f) b := fun s => hf s s

/-- Writing the state does not change the value. -/
theorem modify_bind (m : σ → σ) {f : PUnit → StateM σ β} {b : β} (hf : Gives (f ⟨⟩) b) :
    Gives (modify m >>= f) b := fun _ => hf _

end Gives

/-! ## Positions -/

/-- The number of UTF-8 bytes of a text, summed as the matcher sums them. -/
def utf8Len (w : List Char) : Nat := w.foldr (fun ch n => ch.utf8Size + n) 0

@[simp] theorem utf8Len_nil : utf8Len [] = 0 := rfl

@[simp] theorem utf8Len_cons (c : Char) (w : List Char) :
    utf8Len (c :: w) = c.utf8Size + utf8Len w := rfl

@[simp] theorem utf8Len_append (w w' : List Char) : utf8Len (w ++ w') = utf8Len w + utf8Len w' := by
  induction w with
  | nil => simp
  | cons c w ih => simp [ih, Nat.add_assoc]

namespace Cursor

/-- The position just past the text `w`. -/
def past (c : Cursor) (w : List Char) : Cursor :=
  { rest := c.rest.drop w.length, pos := c.pos + utf8Len w, idx := c.idx + w.length }

@[simp] theorem past_rest (c : Cursor) (w : List Char) : (c.past w).rest = c.rest.drop w.length :=
  rfl

@[simp] theorem past_pos (c : Cursor) (w : List Char) : (c.past w).pos = c.pos + utf8Len w := rfl

@[simp] theorem past_idx (c : Cursor) (w : List Char) : (c.past w).idx = c.idx + w.length := rfl

@[simp] theorem past_nil (c : Cursor) : c.past [] = c := by
  cases c
  simp [past]

theorem past_past (c : Cursor) (w w' : List Char) : (c.past w).past w' = c.past (w ++ w') := by
  simp only [past, List.drop_drop, utf8Len_append, List.length_append, Nat.add_assoc]

/-- Past a text that the input starts with, what is left is the rest. -/
theorem past_rest_of_eq {c : Cursor} {w rest : List Char} (h : c.rest = w ++ rest) :
    (c.past w).rest = rest := by
  simp [h]

theorem eat_of_prefix {c : Cursor} {w rest : List Char} (h : c.rest = w ++ rest) :
    c.eat w = some (c.past w) := by
  have hp : w.isPrefixOf c.rest = true := by
    rw [h, List.isPrefixOf_iff_prefix]
    exact List.prefix_append w rest
  simp only [eat, hp, ↓reduceIte, past, utf8Len]

theorem eat_of_not_prefix {c : Cursor} {w : List Char} (h : ¬ w <+: c.rest) : c.eat w = none := by
  have hp : w.isPrefixOf c.rest = false := by
    rw [Bool.eq_false_iff]
    exact fun h' => h (List.isPrefixOf_iff_prefix.mp h')
  simp only [eat, hp, Bool.false_eq_true, ↓reduceIte]

theorem advance_of_cons {c : Cursor} {ch : Char} {rest : List Char} (h : c.rest = ch :: rest) :
    c.advance = some (c.past [ch]) := by
  simp only [advance, h, past, List.length_cons, List.length_nil, Nat.zero_add, List.drop_one,
    List.tail_cons, utf8Len_cons, utf8Len_nil, Nat.add_zero]

/-- The text between two positions on one input, as a matched node records it. -/
theorem take_past {c : Cursor} {w rest : List Char} (h : c.rest = w ++ rest) :
    c.rest.take ((c.past w).idx - c.idx) = w := by
  simp [h]

end Cursor

/-! ## Contexts -/

/-- The context in which a rule's body is matched. -/
def Ctx.enter {R : Type} (g : Grammar R) (ctx : Ctx) (r : R) : Ctx :=
  if g.atomic r then { ctx with atomic := true } else ctx

/-- The nodes that a matched rule leaves in a context: itself outside lookaheads and atomic
rules, nothing inside them. -/
def Ctx.emit {R : Type} (ctx : Ctx) (p : Pair R) : List (Pair R) :=
  if ctx.look = .none ∧ !ctx.atomic then [p] else []

/-- The context of a lookahead's body. -/
def Ctx.flip (ctx : Ctx) : Ctx :=
  { ctx with look := if ctx.look = .negative then Look.positive else Look.negative }

@[simp] theorem Ctx.emit_default {R : Type} (p : Pair R) : Ctx.emit {} p = [p] := rfl

@[simp] theorem Ctx.emit_of_atomic {R : Type} {ctx : Ctx} (h : ctx.atomic = true) (p : Pair R) :
    ctx.emit p = [] := by
  simp [Ctx.emit, h]

@[simp] theorem Ctx.enter_atomic {R : Type} {g : Grammar R} {ctx : Ctx} {r : R} (h : g.atomic r = true) :
    ctx.enter g r = { ctx with atomic := true } := by
  simp [Ctx.enter, h]

@[simp] theorem Ctx.enter_normal {R : Type} {g : Grammar R} {ctx : Ctx} {r : R} (h : g.atomic r = false) :
    ctx.enter g r = ctx := by
  simp [Ctx.enter, h]

@[simp] theorem Ctx.flip_atomic (ctx : Ctx) : ctx.flip.atomic = ctx.atomic := rfl

/-! ## Runs -/

section Runs

variable {R : Type} (g : Grammar R)

/-- Matching `e` at `cur` in `ctx` answers `res` at every fuel from `k` on. -/
def Yields (ctx : Ctx) (e : PExpr R) (cur : Cursor) (k : Nat) (res : Matched R) : Prop :=
  ∀ n, k ≤ n → Gives (matchExpr g n ctx e cur) res

/-- Skipping blanks at `cur` in `ctx` stops at `cur'` at every fuel from `k` on. -/
def Skips (ctx : Ctx) (cur : Cursor) (k : Nat) (cur' : Cursor) : Prop :=
  ∀ n, k ≤ n → Gives (skipBlanks g n ctx cur) cur'

/-- Zero or more repetitions of `a` at `cur` answer `res` at every fuel from `k` on. -/
def StarYields (ctx : Ctx) (a : PExpr R) (cur : Cursor) (k : Nat)
    (res : Cursor × List (Pair R)) : Prop :=
  ∀ n, k ≤ n → Gives (matchStar g n ctx a cur) res

/-- One repetition of a starred expression in a normal context: blanks, then the body. -/
def repetition (n : Nat) (ctx : Ctx) (a : PExpr R) (c : Cursor) :
    StateM (Tracker R) (Matched R) := do
  let c' ← skipBlanks g n ctx c
  matchExpr g n ctx a c'

/-! ### One step of the matcher

The matcher's own equations, case by case, each true by unfolding its definition once. -/

theorem matchExpr_lit (n : Nat) (ctx : Ctx) (s : List Char) (cur : Cursor) :
    matchExpr g (n + 1) ctx (.lit s) cur = Pure.pure ((cur.eat s).map (·, [])) := rfl

theorem matchExpr_range (n : Nat) (ctx : Ctx) (lo hi : Char) (cur : Cursor) :
    matchExpr g (n + 1) ctx (.range lo hi) cur =
      match cur.rest with
      | ch :: _ => Pure.pure (if lo ≤ ch ∧ ch ≤ hi then (cur.advance).map (·, []) else none)
      | [] => Pure.pure none := rfl

theorem matchExpr_any (n : Nat) (ctx : Ctx) (cur : Cursor) :
    matchExpr g (n + 1) ctx .any cur = Pure.pure ((cur.advance).map (·, [])) := rfl

theorem matchExpr_soi (n : Nat) (ctx : Ctx) (cur : Cursor) :
    matchExpr g (n + 1) ctx .soi cur = Pure.pure (if cur.pos = 0 then some (cur, []) else none) :=
  rfl

theorem matchExpr_eoi (n : Nat) (ctx : Ctx) (cur : Cursor) :
    matchExpr g (n + 1) ctx .eoi cur =
      Pure.pure (if cur.rest.isEmpty then some (cur, []) else none) := rfl

theorem repeatMatch_succ (body : Cursor → StateM (Tracker R) (Matched R)) (between : Cursor → Cursor)
    (j : Nat) (cur : Cursor) (acc : List (Pair R)) :
    repeatMatch body between (j + 1) cur acc =
      (body (between cur) >>= fun r =>
        match r with
        | none => Pure.pure (cur, acc)
        | some (cur', ps) =>
            if cur'.idx = cur.idx then Pure.pure (cur', acc ++ ps)
            else repeatMatch body between j cur' (acc ++ ps)) := rfl

theorem skipBlanks_succ (n : Nat) (ctx : Ctx) (cur : Cursor) :
    skipBlanks g (n + 1) ctx cur =
      if ctx.atomic then Pure.pure cur
      else
        repeatMatch (fun c => matchExpr g n { ctx with atomic := true } g.blank c) id
          (cur.rest.length + 1) cur [] >>= fun r => Pure.pure r.1 := rfl

variable {g}

theorem Yields.mono {ctx : Ctx} {e : PExpr R} {cur : Cursor} {k k' : Nat} {res : Matched R}
    (h : Yields g ctx e cur k res) (hk : k ≤ k') : Yields g ctx e cur k' res :=
  fun n hn => h n (Nat.le_trans hk hn)

theorem Skips.mono {ctx : Ctx} {cur cur' : Cursor} {k k' : Nat} (h : Skips g ctx cur k cur')
    (hk : k ≤ k') : Skips g ctx cur k' cur' :=
  fun n hn => h n (Nat.le_trans hk hn)

theorem StarYields.mono {ctx : Ctx} {a : PExpr R} {cur : Cursor} {k k' : Nat}
    {res : Cursor × List (Pair R)} (h : StarYields g ctx a cur k res) (hk : k ≤ k') :
    StarYields g ctx a cur k' res :=
  fun n hn => h n (Nat.le_trans hk hn)

/-- Every fuel from `k + 1` on is the successor of one from `k` on. -/
private theorem exists_pred_of_succ_le {k n : Nat} (h : k + 1 ≤ n) : ∃ m, n = m + 1 ∧ k ≤ m :=
  ⟨n - 1, by omega, by omega⟩

/-! ### Text -/

theorem yields_lit_ok {ctx : Ctx} {s rest : List Char} {cur : Cursor} (h : cur.rest = s ++ rest) :
    Yields g ctx (.lit s) cur 1 (some (cur.past s, [])) := by
  intro n hn
  obtain ⟨m, rfl, -⟩ := exists_pred_of_succ_le hn
  rw [matchExpr_lit, Cursor.eat_of_prefix h]
  exact Gives.pure _

theorem yields_lit_fail {ctx : Ctx} {s : List Char} {cur : Cursor} (h : ¬ s <+: cur.rest) :
    Yields g ctx (.lit s) cur 1 none := by
  intro n hn
  obtain ⟨m, rfl, -⟩ := exists_pred_of_succ_le hn
  rw [matchExpr_lit, Cursor.eat_of_not_prefix h]
  exact Gives.pure _

theorem yields_range_ok {ctx : Ctx} {lo hi ch : Char} {rest : List Char} {cur : Cursor}
    (h : cur.rest = ch :: rest) (hlo : lo ≤ ch) (hhi : ch ≤ hi) :
    Yields g ctx (.range lo hi) cur 1 (some (cur.past [ch], [])) := by
  intro n hn
  obtain ⟨m, rfl, -⟩ := exists_pred_of_succ_le hn
  rw [matchExpr_range]
  simp only [h, hlo, hhi, and_self, ↓reduceIte, Cursor.advance_of_cons h, Option.map_some]
  exact Gives.pure _

theorem yields_range_fail {ctx : Ctx} {lo hi : Char} {cur : Cursor}
    (h : ∀ ch rest, cur.rest = ch :: rest → ¬ (lo ≤ ch ∧ ch ≤ hi)) :
    Yields g ctx (.range lo hi) cur 1 none := by
  intro n hn
  obtain ⟨m, rfl, -⟩ := exists_pred_of_succ_le hn
  rw [matchExpr_range]
  cases hc : cur.rest with
  | nil => exact Gives.pure _
  | cons ch rest =>
    simp only [h ch rest hc, ↓reduceIte]
    exact Gives.pure _

theorem yields_any_ok {ctx : Ctx} {ch : Char} {rest : List Char} {cur : Cursor}
    (h : cur.rest = ch :: rest) : Yields g ctx .any cur 1 (some (cur.past [ch], [])) := by
  intro n hn
  obtain ⟨m, rfl, -⟩ := exists_pred_of_succ_le hn
  rw [matchExpr_any, Cursor.advance_of_cons h]
  exact Gives.pure _

theorem yields_soi_ok {ctx : Ctx} {cur : Cursor} (h : cur.pos = 0) :
    Yields g ctx .soi cur 1 (some (cur, [])) := by
  intro n hn
  obtain ⟨m, rfl, -⟩ := exists_pred_of_succ_le hn
  rw [matchExpr_soi]
  simp only [h, ↓reduceIte]
  exact Gives.pure _

theorem yields_eoi_ok {ctx : Ctx} {cur : Cursor} (h : cur.rest = []) :
    Yields g ctx .eoi cur 1 (some (cur, [])) := by
  intro n hn
  obtain ⟨m, rfl, -⟩ := exists_pred_of_succ_le hn
  rw [matchExpr_eoi]
  simp only [h, List.isEmpty_nil, ↓reduceIte]
  exact Gives.pure _

theorem yields_eoi_fail {ctx : Ctx} {cur : Cursor} (h : cur.rest ≠ []) :
    Yields g ctx .eoi cur 1 none := by
  intro n hn
  obtain ⟨m, rfl, -⟩ := exists_pred_of_succ_le hn
  rw [matchExpr_eoi]
  simp only [List.isEmpty_iff, h, ↓reduceIte]
  exact Gives.pure _

/-! ### Sequences and choices -/

theorem yields_seq_ok {ctx : Ctx} {a b : PExpr R} {cur c1 c2 c3 : Cursor} {p1 p2 : List (Pair R)}
    {k : Nat} (ha : Yields g ctx a cur k (some (c1, p1))) (hs : Skips g ctx c1 k c2)
    (hb : Yields g ctx b c2 k (some (c3, p2))) :
    Yields g ctx (.seq a b) cur (k + 1) (some (c3, p1 ++ p2)) := by
  intro n hn
  obtain ⟨m, rfl, hm⟩ := exists_pred_of_succ_le hn
  exact (ha m hm).bind ((hs m hm).bind ((hb m hm).bind (Gives.pure _)))

theorem yields_seq_fail_left {ctx : Ctx} {a b : PExpr R} {cur : Cursor} {k : Nat}
    (ha : Yields g ctx a cur k none) : Yields g ctx (.seq a b) cur (k + 1) none := by
  intro n hn
  obtain ⟨m, rfl, hm⟩ := exists_pred_of_succ_le hn
  exact (ha m hm).bind (Gives.pure _)

theorem yields_seq_fail_right {ctx : Ctx} {a b : PExpr R} {cur c1 c2 : Cursor}
    {p1 : List (Pair R)} {k : Nat} (ha : Yields g ctx a cur k (some (c1, p1)))
    (hs : Skips g ctx c1 k c2) (hb : Yields g ctx b c2 k none) :
    Yields g ctx (.seq a b) cur (k + 1) none := by
  intro n hn
  obtain ⟨m, rfl, hm⟩ := exists_pred_of_succ_le hn
  exact (ha m hm).bind ((hs m hm).bind ((hb m hm).bind (Gives.pure _)))

theorem yields_alt_left {ctx : Ctx} {a b : PExpr R} {cur : Cursor} {k : Nat}
    {r : Cursor × List (Pair R)} (ha : Yields g ctx a cur k (some r)) :
    Yields g ctx (.alt a b) cur (k + 1) (some r) := by
  intro n hn
  obtain ⟨m, rfl, hm⟩ := exists_pred_of_succ_le hn
  exact (ha m hm).bind (Gives.pure _)

theorem yields_alt_right {ctx : Ctx} {a b : PExpr R} {cur : Cursor} {k : Nat} {res : Matched R}
    (ha : Yields g ctx a cur k none) (hb : Yields g ctx b cur k res) :
    Yields g ctx (.alt a b) cur (k + 1) res := by
  intro n hn
  obtain ⟨m, rfl, hm⟩ := exists_pred_of_succ_le hn
  exact (ha m hm).bind (hb m hm)

theorem yields_opt_some {ctx : Ctx} {a : PExpr R} {cur : Cursor} {k : Nat}
    {r : Cursor × List (Pair R)} (ha : Yields g ctx a cur k (some r)) :
    Yields g ctx (.opt a) cur (k + 1) (some r) := by
  intro n hn
  obtain ⟨m, rfl, hm⟩ := exists_pred_of_succ_le hn
  exact (ha m hm).bind (Gives.pure _)

theorem yields_opt_none {ctx : Ctx} {a : PExpr R} {cur : Cursor} {k : Nat}
    (ha : Yields g ctx a cur k none) : Yields g ctx (.opt a) cur (k + 1) (some (cur, [])) := by
  intro n hn
  obtain ⟨m, rfl, hm⟩ := exists_pred_of_succ_le hn
  exact (ha m hm).bind (Gives.pure _)

/-! ### Lookahead -/

theorem yields_notAhead_ok {ctx : Ctx} {a : PExpr R} {cur : Cursor} {k : Nat}
    (ha : Yields g ctx.flip a cur k none) : Yields g ctx (.notAhead a) cur (k + 1) (some (cur, [])) := by
  intro n hn
  obtain ⟨m, rfl, hm⟩ := exists_pred_of_succ_le hn
  exact (ha m hm).bind (Gives.pure _)

theorem yields_notAhead_fail {ctx : Ctx} {a : PExpr R} {cur : Cursor} {k : Nat}
    {r : Cursor × List (Pair R)} (ha : Yields g ctx.flip a cur k (some r)) :
    Yields g ctx (.notAhead a) cur (k + 1) none := by
  intro n hn
  obtain ⟨m, rfl, hm⟩ := exists_pred_of_succ_le hn
  exact (ha m hm).bind (Gives.pure _)

theorem alts_cons_of_ne_nil (a : PExpr R) {as : List (PExpr R)} (h : as ≠ []) :
    PExpr.alts (a :: as) = .alt a (PExpr.alts as) := by
  cases as with
  | nil => exact absurd rfl h
  | cons b bs => rfl

/-- A choice among expressions that all fail fails. -/
theorem yields_alts_fail {ctx : Ctx} {cur : Cursor} {k : Nat} {as : List (PExpr R)}
    (h : ∀ a ∈ as, Yields g ctx a cur k none) :
    Yields g ctx (PExpr.alts as) cur (k + as.length + 2) none := by
  induction as with
  | nil =>
    -- the empty choice is a lookahead that the empty text defeats
    have hl : Yields g ctx.flip (.lit []) cur 1 (some (cur.past [], [])) :=
      yields_lit_ok (List.nil_append cur.rest).symm
    exact (yields_notAhead_fail hl).mono (by omega)
  | cons a as ih =>
    have ha := h a List.mem_cons_self
    cases as with
    | nil => exact ha.mono (by omega)
    | cons b bs =>
      have hrest := ih (fun x hx => h x (List.mem_cons_of_mem _ hx))
      have hbig : Yields g ctx a cur (k + (b :: bs).length + 2) none := ha.mono (by omega)
      rw [alts_cons_of_ne_nil a (List.cons_ne_nil b bs)]
      exact (yields_alt_right hbig hrest).mono (by simp only [List.length_cons]; omega)

/-- A choice answers with the first of its expressions that matches. -/
theorem yields_alts_ok {ctx : Ctx} {cur : Cursor} {k : Nat} {a : PExpr R}
    {r : Cursor × List (Pair R)} {post pre : List (PExpr R)}
    (hpre : ∀ b ∈ pre, Yields g ctx b cur k none) (ha : Yields g ctx a cur k (some r)) :
    Yields g ctx (PExpr.alts (pre ++ a :: post)) cur (k + pre.length + 1) (some r) := by
  induction pre with
  | nil =>
    cases post with
    | nil => exact ha.mono (by simp)
    | cons c cs =>
      rw [List.nil_append, alts_cons_of_ne_nil a (List.cons_ne_nil c cs)]
      exact yields_alt_left ha
  | cons b pre ih =>
    have hb := hpre b List.mem_cons_self
    have hrest := ih (fun x hx => hpre x (List.mem_cons_of_mem _ hx))
    rw [List.cons_append, alts_cons_of_ne_nil b (by simp)]
    have hb' : Yields g ctx b cur (k + pre.length + 1) none := hb.mono (by omega)
    exact (yields_alt_right hb' hrest).mono (by simp only [List.length_cons]; omega)

/-! ### Rules -/

/-- A rule whose body matches leaves its node where the context keeps nodes. -/
theorem yields_call_ok {ctx : Ctx} {r : R} {cur cur' : Cursor} {kids : List (Pair R)} {k : Nat}
    (h : Yields g (ctx.enter g r) (g.body r) cur k (some (cur', kids))) :
    Yields g ctx (.call r) cur (k + 1)
      (some (cur', ctx.emit ⟨r, cur.pos, cur'.pos, cur.rest.take (cur'.idx - cur.idx), kids⟩)) := by
  intro n hn
  obtain ⟨m, rfl, hm⟩ := exists_pred_of_succ_le hn
  refine Gives.get_bind fun t => ?_
  refine (h m hm).bind ?_
  dsimp only
  -- the node is kept or not by the context, whether or not the tracker records the rule
  have hemit : ∀ p : Pair R, Gives (if ctx.look = .none ∧ (!ctx.atomic) = true then
      Pure.pure (some (cur', [p])) else Pure.pure (some (cur', [])) : StateM (Tracker R) (Matched R))
      (some (cur', ctx.emit p)) := by
    intro p
    unfold Ctx.emit
    split <;> exact Gives.pure _
  split
  · exact Gives.modify_bind _ (hemit _)
  · exact hemit _

/-- The same, with the rule's text given: the node spans the text the body consumed. -/
theorem yields_call_past {ctx : Ctx} {r : R} {cur : Cursor} {w rest : List Char}
    {kids : List (Pair R)} {k : Nat} (hcur : cur.rest = w ++ rest)
    (h : Yields g (ctx.enter g r) (g.body r) cur k (some (cur.past w, kids))) :
    Yields g ctx (.call r) cur (k + 1)
      (some (cur.past w, ctx.emit ⟨r, cur.pos, cur.pos + utf8Len w, w, kids⟩)) := by
  have h' := yields_call_ok h
  rwa [Cursor.take_past hcur, Cursor.past_pos] at h'

theorem yields_call_fail {ctx : Ctx} {r : R} {cur : Cursor} {k : Nat}
    (h : Yields g (ctx.enter g r) (g.body r) cur k none) : Yields g ctx (.call r) cur (k + 1) none := by
  intro n hn
  obtain ⟨m, rfl, hm⟩ := exists_pred_of_succ_le hn
  refine Gives.get_bind fun t => ?_
  refine (h m hm).bind ?_
  dsimp only
  split
  · exact Gives.modify_bind _ (Gives.pure _)
  · exact Gives.pure _

/-! ### Repetitions -/

/-- A repeated body that keeps matching and consuming, then fails, as the loop of the
matcher runs it with `j` turns left. -/
def Repeats (body : Cursor → StateM (Tracker R) (Matched R)) (cur : Cursor) (acc : List (Pair R))
    (j : Nat) (res : Cursor × List (Pair R)) : Prop :=
  ∀ i, j ≤ i → Gives (repeatMatch body (fun c => c) i cur acc) res

theorem repeats_stop {body : Cursor → StateM (Tracker R) (Matched R)} {cur : Cursor}
    {acc : List (Pair R)} (h : Gives (body cur) none) : Repeats body cur acc 1 (cur, acc) := by
  intro i hi
  obtain ⟨i, rfl, -⟩ := exists_pred_of_succ_le hi
  rw [repeatMatch_succ]
  exact h.bind (Gives.pure _)

theorem repeats_step {body : Cursor → StateM (Tracker R) (Matched R)} {cur cur' : Cursor}
    {acc ps : List (Pair R)} {j : Nat} {res : Cursor × List (Pair R)}
    (h : Gives (body cur) (some (cur', ps))) (hne : cur'.idx ≠ cur.idx)
    (hrest : Repeats body cur' (acc ++ ps) j res) : Repeats body cur acc (j + 1) res := by
  intro i hi
  obtain ⟨i, rfl, hj⟩ := exists_pred_of_succ_le hi
  rw [repeatMatch_succ]
  refine h.bind ?_
  simp only [hne, ↓reduceIte]
  exact hrest i hj

theorem Repeats.mono {body : Cursor → StateM (Tracker R) (Matched R)} {cur : Cursor}
    {acc : List (Pair R)} {j j' : Nat} {res : Cursor × List (Pair R)} (h : Repeats body cur acc j res)
    (hj : j ≤ j') : Repeats body cur acc j' res :=
  fun i hi => h i (Nat.le_trans hj hi)

/-- Matches one after the other from `cur`: each step consumes a text that is not empty and
leaves its nodes. -/
def StepsFrom (body : Cursor → StateM (Tracker R) (Matched R)) :
    Cursor → List (List Char × List (Pair R)) → Prop
  | _, [] => True
  | cur, (w, ps) :: more =>
      w ≠ [] ∧ Gives (body cur) (some (cur.past w, ps)) ∧ StepsFrom body (cur.past w) more

/-- A loop that runs through its steps and then fails stops after the last step, with the
nodes of all steps. -/
theorem repeats_steps {body : Cursor → StateM (Tracker R) (Matched R)}
    {steps : List (List Char × List (Pair R))} {cur : Cursor} {acc : List (Pair R)}
    (h : StepsFrom body cur steps) (hstop : Gives (body (cur.past (steps.flatMap Prod.fst))) none) :
    Repeats body cur acc (steps.length + 1)
      (cur.past (steps.flatMap Prod.fst), acc ++ steps.flatMap Prod.snd) := by
  induction steps generalizing cur acc with
  | nil => simpa using repeats_stop hstop
  | cons step more ih =>
    obtain ⟨w, ps⟩ := step
    obtain ⟨hw, hbody, hmore⟩ := h
    have hne : (cur.past w).idx ≠ cur.idx := by
      have : w.length ≠ 0 := by simpa using hw
      simp only [Cursor.past_idx]
      omega
    have hstop' : Gives (body ((cur.past w).past (more.flatMap Prod.fst))) none := by
      simpa [Cursor.past_past] using hstop
    have hrest : Repeats body (cur.past w) (acc ++ ps) (more.length + 1) _ := ih hmore hstop'
    simpa [Cursor.past_past, List.append_assoc] using repeats_step hbody hne hrest

theorem length_le_of_steps {body : Cursor → StateM (Tracker R) (Matched R)}
    {steps : List (List Char × List (Pair R))} {cur : Cursor} (h : StepsFrom body cur steps) :
    steps.length ≤ (steps.flatMap Prod.fst).length := by
  induction steps generalizing cur with
  | nil => simp
  | cons step more ih =>
    obtain ⟨w, ps⟩ := step
    obtain ⟨hw, -, hmore⟩ := h
    have : w.length ≠ 0 := by simpa using hw
    have := ih hmore
    simp only [List.length_cons, List.flatMap_cons, List.length_append]
    omega

/-- One turn of a repetition: blanks as `Skips` says, then the body. -/
theorem gives_repetition {ctx : Ctx} {a : PExpr R} {c c' : Cursor} {k : Nat} {res : Matched R}
    (hs : Skips g ctx c k c') (ha : Yields g ctx a c' k res) :
    ∀ n, k ≤ n → Gives (repetition g n ctx a c) res :=
  fun n hn => (hs n hn).bind (ha n hn)

theorem starYields_none {ctx : Ctx} {a : PExpr R} {cur : Cursor} {k : Nat}
    (ha : Yields g ctx a cur k none) : StarYields g ctx a cur (k + 1) (cur, []) := by
  intro n hn
  obtain ⟨m, rfl, hm⟩ := exists_pred_of_succ_le hn
  exact (ha m hm).bind (Gives.pure _)

/-- A repetition whose first turn matches and whose later turns, blanks first, run as
`Repeats` says, within the matcher's bound of one turn per character left. -/
theorem starYields_some {ctx : Ctx} {a : PExpr R} {cur c1 c2 : Cursor} {p1 p2 : List (Pair R)}
    {k : Nat} (ha : Yields g ctx a cur k (some (c1, p1)))
    (hrest : ∀ n, k ≤ n → Repeats (repetition g n ctx a) c1 [] (c1.rest.length + 1) (c2, p2)) :
    StarYields g ctx a cur (k + 1) (c2, p1 ++ p2) := by
  intro n hn
  obtain ⟨m, rfl, hm⟩ := exists_pred_of_succ_le hn
  exact (ha m hm).bind (((hrest m hm) _ le_rfl).bind (Gives.pure _))

/-- A repetition whose first turn consumes `w` and whose later turns run through `steps`
before failing. -/
theorem starYields_steps {ctx : Ctx} {a : PExpr R} {cur : Cursor} {k : Nat} {w rest : List Char}
    {p1 : List (Pair R)} {steps : List (List Char × List (Pair R))}
    (ha : Yields g ctx a cur k (some (cur.past w, p1)))
    (hsteps : ∀ n, k ≤ n → StepsFrom (repetition g n ctx a) (cur.past w) steps)
    (hstop : ∀ n, k ≤ n →
      Gives (repetition g n ctx a ((cur.past w).past (steps.flatMap Prod.fst))) none)
    (hrest : (cur.past w).rest = steps.flatMap Prod.fst ++ rest) :
    StarYields g ctx a cur (k + 1)
      ((cur.past w).past (steps.flatMap Prod.fst), p1 ++ steps.flatMap Prod.snd) := by
  refine starYields_some ha fun n hn => ?_
  have hlen := length_le_of_steps (hsteps n hn)
  have hturns : steps.length + 1 ≤ (cur.past w).rest.length + 1 := by
    rw [hrest, List.length_append]
    omega
  have hrep : Repeats (repetition g n ctx a) (cur.past w) [] (steps.length + 1) _ :=
    repeats_steps (hsteps n hn) (hstop n hn)
  simpa using hrep.mono hturns

theorem yields_star {ctx : Ctx} {a : PExpr R} {cur : Cursor} {k : Nat}
    {res : Cursor × List (Pair R)} (h : StarYields g ctx a cur k res) :
    Yields g ctx (.star a) cur (k + 1) (some res) := by
  intro n hn
  obtain ⟨m, rfl, hm⟩ := exists_pred_of_succ_le hn
  exact (h m hm).bind (Gives.pure _)

theorem yields_plus_ok {ctx : Ctx} {a : PExpr R} {cur c1 c2 : Cursor} {p1 : List (Pair R)} {k : Nat}
    {res : Cursor × List (Pair R)} (ha : Yields g ctx a cur k (some (c1, p1)))
    (hs : Skips g ctx c1 k c2) (hstar : StarYields g ctx a c2 k res) :
    Yields g ctx (.plus a) cur (k + 1) (some (res.1, p1 ++ res.2)) := by
  intro n hn
  obtain ⟨m, rfl, hm⟩ := exists_pred_of_succ_le hn
  exact (ha m hm).bind ((hs m hm).bind ((hstar m hm).bind (Gives.pure _)))

theorem yields_plus_fail {ctx : Ctx} {a : PExpr R} {cur : Cursor} {k : Nat}
    (ha : Yields g ctx a cur k none) : Yields g ctx (.plus a) cur (k + 1) none := by
  intro n hn
  obtain ⟨m, rfl, hm⟩ := exists_pred_of_succ_le hn
  exact (ha m hm).bind (Gives.pure _)

/-! ### Blanks -/

theorem skips_atomic {ctx : Ctx} (h : ctx.atomic = true) (cur : Cursor) : Skips g ctx cur 1 cur := by
  intro n hn
  obtain ⟨m, rfl, -⟩ := exists_pred_of_succ_le hn
  rw [skipBlanks_succ]
  simp only [h, ↓reduceIte]
  exact Gives.pure _

/-- In a normal context, blanks are skipped by repeating the grammar's blank expression. -/
theorem skips_normal {ctx : Ctx} (h : ctx.atomic = false) {cur cur' : Cursor} {k : Nat}
    {ps : List (Pair R)}
    (hrep : ∀ n, k ≤ n → Repeats (fun c => matchExpr g n { ctx with atomic := true } g.blank c) cur []
      (cur.rest.length + 1) (cur', ps)) :
    Skips g ctx cur (k + 1) cur' := by
  intro n hn
  obtain ⟨m, rfl, hm⟩ := exists_pred_of_succ_le hn
  rw [skipBlanks_succ]
  simp only [h, Bool.false_eq_true, ↓reduceIte]
  exact ((hrep m hm) _ le_rfl).bind (Gives.pure _)

/-- In an atomic context, a repetition of a one-character expression runs over the longest
prefix of characters that it matches. -/
theorem starYields_chars {ctx : Ctx} (hat : ctx.atomic = true) {a : PExpr R} {p : Char → Bool}
    {k : Nat}
    (hok : ∀ cur c r, cur.rest = c :: r → p c = true → Yields g ctx a cur k (some (cur.past [c], [])))
    (hfail : ∀ cur, (∀ c r, cur.rest = c :: r → p c = false) → Yields g ctx a cur k none)
    {cur : Cursor} {u rest : List Char} (hcur : cur.rest = u ++ rest) (hu : ∀ c ∈ u, p c = true)
    (hrest : ∀ c r, rest = c :: r → p c = false) :
    StarYields g ctx a cur (k + 2) (cur.past u, []) := by
  have hend : ∀ c : Cursor, c.rest = rest → Yields g ctx a c (k + 1) none :=
    fun c hc => (hfail c (by rw [hc]; exact hrest)).mono (by omega)
  cases u with
  | nil =>
    simpa using (starYields_none (hend cur (by simpa using hcur))).mono (by omega)
  | cons c u =>
    have hc : p c = true := hu c List.mem_cons_self
    have hfirst : Yields g ctx a cur (k + 1) (some (cur.past [c], [])) :=
      (hok cur c (u ++ rest) (by simpa using hcur) hc).mono (by omega)
    -- every later turn consumes one more character of `u`
    have hsteps : ∀ n, k + 1 ≤ n → ∀ (v : List Char) (d : Cursor), d.rest = v ++ rest →
        (∀ x ∈ v, p x = true) →
        StepsFrom (repetition g n ctx a) d (v.map fun x => ([x], [])) ∧
          Gives (repetition g n ctx a (d.past v)) none := by
      intro n hn v
      induction v with
      | nil =>
        intro d hd _
        refine ⟨trivial, ?_⟩
        simpa using gives_repetition ((skips_atomic hat d).mono (by omega)) (hend d (by simpa using hd)) n hn
      | cons x v ih =>
        intro d hd hv
        have hx : p x = true := hv x List.mem_cons_self
        have hone : Yields g ctx a d (k + 1) (some (d.past [x], [])) :=
          (hok d x (v ++ rest) (by simpa using hd) hx).mono (by omega)
        obtain ⟨hmore, hstop⟩ := ih (d.past [x]) (by simp [hd])
          (fun y hy => hv y (List.mem_cons_of_mem _ hy))
        refine ⟨⟨by simp, gives_repetition ((skips_atomic hat d).mono (by omega)) hone n hn, hmore⟩, ?_⟩
        simpa [Cursor.past_past] using hstop
    have hflat : ((u.map fun x => ([x], ([] : List (Pair R)))).flatMap Prod.fst) = u := by
      clear hcur hu hsteps
      induction u with
      | nil => rfl
      | cons y u ih => simp [ih]
    have hnodes : ((u.map fun x => ([x], ([] : List (Pair R)))).flatMap Prod.snd) = [] := by
      simp
    have hafter : (cur.past [c]).rest = u ++ rest := by simp [hcur]
    have hu' : ∀ x ∈ u, p x = true := fun y hy => hu y (List.mem_cons_of_mem _ hy)
    have hstar := starYields_steps hfirst
      (fun n hn => (hsteps n hn u (cur.past [c]) hafter hu').1)
      (fun n hn => by simpa [hflat] using (hsteps n hn u (cur.past [c]) hafter hu').2)
      (by rw [hflat]; exact hafter)
    rw [hflat, hnodes, Cursor.past_past] at hstar
    simpa using hstar

end Runs

end Espalier.Peg
