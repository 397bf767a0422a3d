import Espalier.Proofs.Peg.Yields

/-!
# The shape of a match forest

A successful match builds a forest of nodes, and every node lies where its text lies: the
nodes of a list in order and apart, each inside the span of the match that built it, with its
own children inside it. A node also spans at least as many characters as its rule must
consume, and when the rule is a sequence, the nodes of the sequence's second part start only
after what its first part must consume.

`Laid` states these facts of a forest, `PExpr.minLenWith` and `Grammar.minLen` give the
lower bounds on consumed characters, and `shapesAt` proves by induction on the fuel that
every successful match of the matcher, from every tracker, leaves a forest laid out between
the cursors it started and stopped at.
-/

namespace Espalier.Peg

variable {R : Type}

/-! ## Cursors moving forward -/

namespace Cursor

/-- `c'` is `c` moved past a text that the input of `c` starts with. -/
def Reaches (c c' : Cursor) : Prop := ∃ w, c.rest = w ++ c'.rest ∧ c' = c.past w

theorem Reaches.refl (c : Cursor) : c.Reaches c := ⟨[], rfl, (past_nil c).symm⟩

theorem Reaches.trans {c c' c'' : Cursor} (h : c.Reaches c') (h' : c'.Reaches c'') :
    c.Reaches c'' := by
  obtain ⟨w, hw, rfl⟩ := h
  obtain ⟨w', hw', rfl⟩ := h'
  refine ⟨w ++ w', ?_, past_past c w w'⟩
  rw [hw, hw', List.append_assoc]

theorem length_le_utf8Len (w : List Char) : w.length ≤ utf8Len w := by
  induction w with
  | nil => simp
  | cons c w ih =>
    have := Char.utf8Size_pos c
    simp only [List.length_cons, utf8Len_cons]
    omega

/-- Moving forward by `k` characters moves the byte offset by at least `k`. -/
theorem Reaches.pos_add {c c' : Cursor} (h : c.Reaches c') {k : Nat} (hk : c.idx + k ≤ c'.idx) :
    c.pos + k ≤ c'.pos := by
  obtain ⟨w, -, rfl⟩ := h
  have := length_le_utf8Len w
  simp only [past_idx, past_pos] at hk ⊢
  omega

theorem Reaches.pos_le {c c' : Cursor} (h : c.Reaches c') : c.pos ≤ c'.pos :=
  Nat.le_of_add_right_le (h.pos_add (k := 0) (by obtain ⟨w, -, rfl⟩ := h; simp))

theorem Reaches.idx_le {c c' : Cursor} (h : c.Reaches c') : c.idx ≤ c'.idx := by
  obtain ⟨w, -, rfl⟩ := h
  simp

theorem reaches_eat {c c' : Cursor} {s : List Char} (h : c.eat s = some c') :
    c.Reaches c' ∧ c'.idx = c.idx + s.length := by
  unfold eat at h
  split at h
  · next hp =>
    cases h
    obtain ⟨t, ht⟩ := List.isPrefixOf_iff_prefix.mp hp
    refine ⟨⟨s, ?_, ?_⟩, rfl⟩
    · simp [← ht]
    · simp [past, utf8Len]
  · cases h

theorem reaches_advance {c c' : Cursor} (h : c.advance = some c') :
    c.Reaches c' ∧ c'.idx = c.idx + 1 := by
  unfold advance at h
  split at h
  · next ch r hr =>
    cases h
    exact ⟨⟨[ch], by simp [hr], by simp [past, hr]⟩, rfl⟩
  · cases h

end Cursor

/-! ## What a match must consume, and which nodes it leaves -/

/-- A lower bound on the characters that a match of `e` consumes, given one for each rule. -/
def PExpr.minLenWith (call : R → Nat) : PExpr R → Nat
  | .lit s => s.length
  | .range _ _ | .any => 1
  | .soi | .eoi | .opt _ | .star _ | .notAhead _ => 0
  | .seq a b => a.minLenWith call + b.minLenWith call
  | .alt a b => min (a.minLenWith call) (b.minLenWith call)
  | .plus a => a.minLenWith call
  | .call r => call r

/-- The lower bound for rule `r`, looking at most `k` rule calls deep. -/
def Grammar.minLen (g : Grammar R) : Nat → R → Nat
  | 0, _ => 0
  | k + 1, r => (g.body r).minLenWith (g.minLen k)

/-- The rules whose nodes a match of `e` can leave at its top level. -/
def PExpr.heads : PExpr R → List R
  | .call r => [r]
  | .seq a b | .alt a b => a.heads ++ b.heads
  | .opt a | .star a | .plus a => a.heads
  | _ => []

-- Several proofs below unfold `PExpr.minLenWith` at once; its equation lemmas are generated
-- here, once, instead of by whichever of them gets to it first.
section
attribute [local simp] PExpr.minLenWith
end

/-! ## Laid-out forests -/

/-- How the children of a node split when its rule is a sequence `a` then `b`: first the
nodes `a` leaves, then nodes that start only after what `a` must consume. -/
def Grammar.SeqSplit (g : Grammar R) (p : Pair R) : Prop :=
  ∀ a b, g.body p.rule = .seq a b → ∃ pa pb, p.children = pa ++ pb ∧
    (∀ q ∈ pa, q.rule ∈ a.heads) ∧ ∀ q ∈ pb, ∀ k, p.start + a.minLenWith (g.minLen k) ≤ q.start

/-- What one node owes its rule: it spans at least what the rule must consume, its children
are nodes the rule's body can leave, and they split as the rule's sequence does. -/
structure Grammar.NodeFits (g : Grammar R) (p : Pair R) : Prop where
  le : p.start ≤ p.stop
  length : ∀ k, g.minLen k p.rule ≤ p.stop - p.start
  heads : ∀ q ∈ p.children, q.rule ∈ (g.body p.rule).heads
  split : g.SeqSplit p

/-- A forest laid out between byte offsets `lo` and `hi`: its nodes in order and apart, each
inside the bounds and fitting its rule, with its children laid out inside it. -/
inductive Laid (g : Grammar R) : Nat → Nat → List (Pair R) → Prop
  | nil {lo hi : Nat} : lo ≤ hi → Laid g lo hi []
  | cons {lo hi : Nat} {p : Pair R} {ps : List (Pair R)} :
      lo ≤ p.start → g.NodeFits p → Laid g p.start p.stop p.children →
      Laid g p.stop hi ps → Laid g lo hi (p :: ps)

namespace Laid

variable {g : Grammar R}

theorem le {lo hi : Nat} {ps : List (Pair R)} (h : Laid g lo hi ps) : lo ≤ hi := by
  induction h with
  | nil h => exact h
  | cons h1 hp _ _ _ ihr => have := hp.le; omega

/-- A forest stays laid out inside wider bounds. -/
theorem widen {lo hi lo' hi' : Nat} {ps : List (Pair R)} (h : Laid g lo hi ps) (hlo : lo' ≤ lo)
    (hhi : hi ≤ hi') : Laid g lo' hi' ps := by
  induction h generalizing lo' with
  | nil h => exact .nil (by omega)
  | cons h1 hp hc _ _ ihr => exact .cons (by omega) hp hc (ihr le_rfl hhi)

theorem append {lo mid hi : Nat} {ps qs : List (Pair R)} (h : Laid g lo mid ps)
    (h' : Laid g mid hi qs) : Laid g lo hi (ps ++ qs) := by
  induction h with
  | nil hle => exact h'.widen hle le_rfl
  | cons h1 hp hc _ _ ihr => exact .cons h1 hp hc (ihr h')

/-- What `Laid` says of each node of a forest. -/
theorem of_mem {lo hi : Nat} {ps : List (Pair R)} (h : Laid g lo hi ps) {q : Pair R}
    (hq : q ∈ ps) :
    lo ≤ q.start ∧ q.stop ≤ hi ∧ g.NodeFits q ∧ Laid g q.start q.stop q.children := by
  induction h with
  | nil _ => exact absurd hq List.not_mem_nil
  | cons h1 hp hc hrest _ ihr =>
    rcases List.mem_cons.mp hq with rfl | hq
    · exact ⟨h1, hrest.le, hp, hc⟩
    · obtain ⟨h1', h2', hrest'⟩ := ihr hq
      have := hp.le
      exact ⟨by omega, h2', hrest'⟩

/-- Nodes whose rules must each consume something start strictly one after another. -/
theorem starts_increase {lo hi : Nat} {ps : List (Pair R)} (h : Laid g lo hi ps)
    (hlong : ∀ q ∈ ps, ∃ k, 0 < g.minLen k q.rule) : ps.Pairwise (fun a b => a.start < b.start) := by
  induction h with
  | nil _ => exact List.Pairwise.nil
  | cons _ hp _ hrest _ ihr =>
    refine List.Pairwise.cons (fun q hq => ?_) (ihr fun q hq => hlong q (List.mem_cons_of_mem _ hq))
    obtain ⟨k, hk⟩ := hlong _ List.mem_cons_self
    have hlen := hp.length k
    have hnext := (hrest.of_mem hq).1
    omega

end Laid

/-! ## Results from every tracker -/

/-- Every run of the computation, from any tracker, gives a value satisfying `P`. -/
def Always {σ α : Type} (P : α → Prop) (x : StateM σ α) : Prop := ∀ s, P (x.run s).1

namespace Always

variable {σ α β : Type}

theorem pure {P : α → Prop} {a : α} (h : P a) : Always P (Pure.pure a : StateM σ α) := fun _ => h

theorem bind {P : β → Prop} {Q : α → Prop} {x : StateM σ α} {f : α → StateM σ β}
    (hx : Always Q x) (hf : ∀ a, Q a → Always P (f a)) : Always P (x >>= f) := by
  intro s
  show P ((f (x.run s).1).run (x.run s).2).1
  exact hf _ (hx s) _

/-- A step whose value is not used: reading or writing the tracker. -/
theorem bind_any {P : β → Prop} {x : StateM σ α} {f : α → StateM σ β}
    (hf : ∀ a, Always P (f a)) : Always P (x >>= f) :=
  bind (Q := fun _ => True) (fun _ => True.intro) fun a _ => hf a

theorem mono {P Q : α → Prop} {x : StateM σ α} (h : Always Q x) (hPQ : ∀ a, Q a → P a) :
    Always P x :=
  fun s => hPQ _ (h s)

theorem ite {P : α → Prop} {c : Prop} [Decidable c] {x y : StateM σ α} (hx : Always P x)
    (hy : Always P y) : Always P (if c then x else y) := by
  split
  · exact hx
  · exact hy

end Always

/-! ## Every match is laid out -/

section Shapes

variable (g : Grammar R)

/-- What a match of `e` from `cur` to `cur'` leaving the nodes `ps` looks like: `cur'` lies
further on, the nodes are laid out between the two and are of rules `e` can leave, at least
as many characters are consumed as `e` must consume, and a sequence's nodes split as its
parts'. -/
structure MatchShape (e : PExpr R) (cur cur' : Cursor) (ps : List (Pair R)) : Prop where
  reaches : cur.Reaches cur'
  laid : Laid g cur.pos cur'.pos ps
  heads : ∀ q ∈ ps, q.rule ∈ e.heads
  length : ∀ k, cur.idx + e.minLenWith (g.minLen k) ≤ cur'.idx
  split : ∀ a b, e = .seq a b → ∃ pa pb, ps = pa ++ pb ∧ (∀ q ∈ pa, q.rule ∈ a.heads) ∧
    ∀ q ∈ pb, ∀ k, cur.pos + a.minLenWith (g.minLen k) ≤ q.start

/-- A match result has the shape of a match of `e` from `cur`, when it is one. -/
def MatchOK (e : PExpr R) (cur : Cursor) : Matched R → Prop
  | some (cur', ps) => MatchShape g e cur cur' ps
  | none => True

/-- The shape of repetitions of `a` from `cur`: further on, and laid out, with nodes of the
rules `a` can leave. -/
structure StarShape (a : PExpr R) (cur cur' : Cursor) (ps : List (Pair R)) : Prop where
  reaches : cur.Reaches cur'
  laid : Laid g cur.pos cur'.pos ps
  heads : ∀ q ∈ ps, q.rule ∈ a.heads

/-- The three matcher functions at fuel `n` give results of the right shape. -/
structure ShapesAt (n : Nat) : Prop where
  skip : ∀ ctx cur, Always (fun c' => cur.Reaches c') (skipBlanks g n ctx cur)
  expr : ∀ ctx e cur, Always (MatchOK g e cur) (matchExpr g n ctx e cur)
  star : ∀ ctx a cur, Always (fun r => StarShape g a cur r.1 r.2) (matchStar g n ctx a cur)

variable {g}

/-- A match that consumes nothing and leaves no node. -/
theorem matchShape_empty {e : PExpr R} {cur : Cursor} (hseq : ∀ a b, e ≠ .seq a b)
    (hlen : ∀ k, e.minLenWith (g.minLen k) = 0) : MatchShape g e cur cur [] where
  reaches := .refl cur
  laid := .nil le_rfl
  heads := fun _ h => absurd h List.not_mem_nil
  length := fun k => by rw [hlen k]; exact le_rfl
  split := fun a b h => absurd h (hseq a b)

/-- A repetition loop of the matcher keeps a laid-out forest, when every repetition does. -/
theorem always_repeatMatch {body : Cursor → StateM (Tracker R) (Matched R)}
    {between : Cursor → Cursor} {H : List R} {lo : Nat}
    (hbody : ∀ c : Cursor, Always (fun r => ∀ c' ps, r = some (c', ps) →
      c.Reaches c' ∧ Laid g c.pos c'.pos ps ∧ ∀ q ∈ ps, q.rule ∈ H) (body (between c))) :
    ∀ j cur acc, Laid g lo cur.pos acc → (∀ q ∈ acc, q.rule ∈ H) →
      Always (fun r => cur.Reaches r.1 ∧ Laid g lo r.1.pos r.2 ∧ ∀ q ∈ r.2, q.rule ∈ H)
        (repeatMatch body between j cur acc)
  | 0, cur, acc, hacc, hH => Always.pure ⟨.refl cur, hacc, hH⟩
  | j + 1, cur, acc, hacc, hH => by
    rw [repeatMatch_succ]
    refine Always.bind (hbody cur) fun r hr => ?_
    rcases r with _ | ⟨cur', ps⟩
    · exact Always.pure ⟨.refl cur, hacc, hH⟩
    · obtain ⟨hreach, hlaid, hheads⟩ := hr cur' ps rfl
      have hacc' : Laid g lo cur'.pos (acc ++ ps) := hacc.append hlaid
      have hH' : ∀ q ∈ acc ++ ps, q.rule ∈ H := by
        intro q hq
        rcases List.mem_append.mp hq with hq | hq
        · exact hH q hq
        · exact hheads q hq
      dsimp only
      split
      · exact Always.pure ⟨hreach, hacc', hH'⟩
      · exact (always_repeatMatch hbody j cur' (acc ++ ps) hacc' hH').mono
          fun r hr => ⟨hreach.trans hr.1, hr.2⟩

/-- A match that consumes a text and leaves no node. -/
theorem matchShape_leaf {e : PExpr R} {cur cur' : Cursor} (hseq : ∀ a b, e ≠ .seq a b)
    (hr : cur.Reaches cur') (hlen : ∀ k, cur.idx + e.minLenWith (g.minLen k) ≤ cur'.idx) :
    MatchShape g e cur cur' [] where
  reaches := hr
  laid := .nil hr.pos_le
  heads := fun _ h => absurd h List.not_mem_nil
  length := hlen
  split := fun a b h => absurd h (hseq a b)

theorem shapesAt_zero : ShapesAt g 0 where
  skip := fun _ cur => Always.pure (.refl cur)
  expr := fun _ _ _ => Always.pure True.intro
  star := fun _ _ cur => Always.pure ⟨.refl cur, .nil le_rfl, fun _ h => absurd h List.not_mem_nil⟩

/-- The node a rule's match leaves: it spans the rule's match. -/
theorem matchShape_call {r : R} {cur cur' : Cursor} {kids : List (Pair R)}
    (h : MatchShape g (g.body r) cur cur' kids) (text : List Char) :
    MatchShape g (.call r) cur cur' [⟨r, cur.pos, cur'.pos, text, kids⟩] := by
  have hlen : ∀ k, cur.idx + g.minLen k r ≤ cur'.idx := by
    intro k
    cases k with
    | zero => exact h.reaches.idx_le
    | succ k => exact h.length k
  refine ⟨h.reaches, .cons le_rfl ⟨h.reaches.pos_le, ?_, h.heads, ?_⟩ h.laid (.nil le_rfl), ?_, ?_, ?_⟩
  · intro k
    have := h.reaches.pos_add (hlen k)
    show g.minLen k r ≤ cur'.pos - cur.pos
    omega
  · intro a b hab
    obtain ⟨pa, pb, hsplit, hpa, hpb⟩ := h.split a b hab
    exact ⟨pa, pb, hsplit, hpa, hpb⟩
  · intro q hq
    rw [List.mem_singleton.mp hq]
    exact List.mem_singleton_self r
  · exact hlen
  · intro a b hab
    cases hab

theorem matchShape_seq {a b : PExpr R} {cur c1 c2 c3 : Cursor} {p1 p2 : List (Pair R)}
    (ha : MatchShape g a cur c1 p1) (hs : c1.Reaches c2) (hb : MatchShape g b c2 c3 p2) :
    MatchShape g (.seq a b) cur c3 (p1 ++ p2) where
  reaches := ha.reaches.trans (hs.trans hb.reaches)
  laid := (ha.laid.widen le_rfl hs.pos_le).append hb.laid
  heads := by
    intro q hq
    rcases List.mem_append.mp hq with hq | hq
    · exact List.mem_append_left _ (ha.heads q hq)
    · exact List.mem_append_right _ (hb.heads q hq)
  length := by
    intro k
    have := ha.length k
    have := hs.idx_le
    have := hb.length k
    simp only [PExpr.minLenWith]
    omega
  split := by
    intro a' b' hab
    cases hab
    refine ⟨p1, p2, rfl, ha.heads, fun q hq k => ?_⟩
    -- the second part's nodes start after the first part's match, which is long enough
    have hfirst := ha.reaches.pos_add (ha.length k)
    have := hs.pos_le
    have := (hb.laid.of_mem hq).1
    omega

theorem matchShape_alt_left {a b : PExpr R} {cur cur' : Cursor} {ps : List (Pair R)}
    (ha : MatchShape g a cur cur' ps) : MatchShape g (.alt a b) cur cur' ps where
  reaches := ha.reaches
  laid := ha.laid
  heads := fun q hq => List.mem_append_left _ (ha.heads q hq)
  length := fun k => by
    have := ha.length k
    simp only [PExpr.minLenWith]
    omega
  split := fun _ _ h => by cases h

theorem matchShape_alt_right {a b : PExpr R} {cur cur' : Cursor} {ps : List (Pair R)}
    (hb : MatchShape g b cur cur' ps) : MatchShape g (.alt a b) cur cur' ps where
  reaches := hb.reaches
  laid := hb.laid
  heads := fun q hq => List.mem_append_right _ (hb.heads q hq)
  length := fun k => by
    have := hb.length k
    simp only [PExpr.minLenWith]
    omega
  split := fun _ _ h => by cases h

theorem matchShape_opt {a : PExpr R} {cur cur' : Cursor} {ps : List (Pair R)}
    (ha : MatchShape g a cur cur' ps) : MatchShape g (.opt a) cur cur' ps where
  reaches := ha.reaches
  laid := ha.laid
  heads := ha.heads
  length := fun _ => ha.reaches.idx_le
  split := fun _ _ h => by cases h

theorem matchShape_star {a : PExpr R} {cur cur' : Cursor} {ps : List (Pair R)}
    (ha : StarShape g a cur cur' ps) : MatchShape g (.star a) cur cur' ps where
  reaches := ha.reaches
  laid := ha.laid
  heads := ha.heads
  length := fun _ => ha.reaches.idx_le
  split := fun _ _ h => by cases h

theorem matchShape_plus {a : PExpr R} {cur c1 c2 c3 : Cursor} {p1 p2 : List (Pair R)}
    (ha : MatchShape g a cur c1 p1) (hs : c1.Reaches c2) (hst : StarShape g a c2 c3 p2) :
    MatchShape g (.plus a) cur c3 (p1 ++ p2) where
  reaches := ha.reaches.trans (hs.trans hst.reaches)
  laid := (ha.laid.widen le_rfl hs.pos_le).append hst.laid
  heads := by
    intro q hq
    rcases List.mem_append.mp hq with hq | hq
    · exact ha.heads q hq
    · exact hst.heads q hq
  length := fun k => by
    have := ha.length k
    have := (hs.trans hst.reaches).idx_le
    simp only [PExpr.minLenWith]
    omega
  split := fun _ _ h => by cases h

theorem ShapesAt.skip_succ {n : Nat} (ih : ShapesAt g n) (ctx : Ctx) (cur : Cursor) :
    Always (fun c' => cur.Reaches c') (skipBlanks g (n + 1) ctx cur) := by
  rw [skipBlanks_succ]
  split
  · exact Always.pure (.refl cur)
  · have hbody : ∀ c : Cursor, Always (fun r => ∀ c' ps, r = some (c', ps) →
        c.Reaches c' ∧ Laid g c.pos c'.pos ps ∧ ∀ q ∈ ps, q.rule ∈ g.blank.heads)
        (matchExpr g n { ctx with atomic := true } g.blank (id c)) := fun c =>
      (ih.expr _ g.blank c).mono fun r hr c' ps hrp => by
        subst hrp
        exact ⟨hr.reaches, hr.laid, hr.heads⟩
    exact Always.bind (always_repeatMatch hbody _ cur [] (.nil (le_refl cur.pos))
      (fun _ h => absurd h List.not_mem_nil)) fun r hr => Always.pure hr.1

theorem ShapesAt.star_succ {n : Nat} (ih : ShapesAt g n) (ctx : Ctx) (a : PExpr R)
    (cur : Cursor) : Always (fun r => StarShape g a cur r.1 r.2) (matchStar g (n + 1) ctx a cur) := by
  refine Always.bind (ih.expr ctx a cur) fun r hr => ?_
  rcases r with _ | ⟨c1, p1⟩
  · exact Always.pure ⟨.refl cur, .nil le_rfl, fun _ h => absurd h List.not_mem_nil⟩
  · have h1 : MatchShape g a cur c1 p1 := hr
    -- each further repetition skips blanks, then matches `a` again
    have hbody : ∀ c : Cursor, Always (fun r => ∀ c' ps, r = some (c', ps) →
        c.Reaches c' ∧ Laid g c.pos c'.pos ps ∧ ∀ q ∈ ps, q.rule ∈ a.heads)
        (do let c' ← skipBlanks g n ctx c; matchExpr g n ctx a c') := fun c =>
      Always.bind (ih.skip ctx c) fun c' hc' => (ih.expr ctx a c').mono fun r hr c'' ps hrp => by
        subst hrp
        exact ⟨hc'.trans hr.reaches, hr.laid.widen hc'.pos_le le_rfl, hr.heads⟩
    refine Always.bind (always_repeatMatch hbody _ c1 [] (.nil (le_refl c1.pos))
      (fun _ h => absurd h List.not_mem_nil)) fun r hr2 => ?_
    obtain ⟨c2, p2⟩ := r
    refine Always.pure ⟨h1.reaches.trans hr2.1, h1.laid.append hr2.2.1, fun q hq => ?_⟩
    rcases List.mem_append.mp hq with hq | hq
    · exact h1.heads q hq
    · exact hr2.2.2 q hq

theorem ShapesAt.call_succ {n : Nat} (ih : ShapesAt g n) (ctx : Ctx) (r : R) (cur : Cursor) :
    Always (MatchOK g (.call r) cur) (matchExpr g (n + 1) ctx (.call r) cur) := by
  refine Always.bind_any fun t => ?_
  refine Always.bind (ih.expr _ (g.body r) cur) fun res hres => ?_
  rcases res with _ | ⟨cur', kids⟩
  · dsimp only
    split
    · exact Always.bind_any fun _ => Always.pure True.intro
    · exact Always.pure True.intro
  · dsimp only
    have hnode := matchShape_call hres (cur.rest.take (cur'.idx - cur.idx))
    have hnone : MatchShape g (.call r) cur cur' [] :=
      matchShape_leaf (fun a b h => by cases h) hres.reaches (fun k => hnode.length k)
    -- the tracker is written or not; the node is left or not: the shape holds either way
    refine Always.ite (Always.bind_any fun _ => ?_) ?_ <;>
      exact Always.ite (Always.pure hnode) (Always.pure hnone)

theorem matchOK_leaf {e : PExpr R} {cur : Cursor} {next : Option Cursor}
    (hseq : ∀ a b, e ≠ .seq a b)
    (h : ∀ c', next = some c' → cur.Reaches c' ∧ ∀ k, cur.idx + e.minLenWith (g.minLen k) ≤ c'.idx) :
    MatchOK g e cur (next.map (·, [])) := by
  cases next with
  | none => exact True.intro
  | some c' =>
    obtain ⟨hr, hlen⟩ := h c' rfl
    exact matchShape_leaf hseq hr hlen

/-- One more level of fuel keeps every match's shape, case by case on the expression. -/
theorem ShapesAt.expr_succ {n : Nat} (ih : ShapesAt g n) (ctx : Ctx) (e : PExpr R)
    (cur : Cursor) : Always (MatchOK g e cur) (matchExpr g (n + 1) ctx e cur) := by
  cases e with
  | lit s =>
    rw [matchExpr_lit]
    refine Always.pure (matchOK_leaf (fun _ _ h => by cases h) fun c' h => ?_)
    obtain ⟨hr, hidx⟩ := Cursor.reaches_eat h
    exact ⟨hr, fun k => by simp only [PExpr.minLenWith]; omega⟩
  | range lo hi =>
    rw [matchExpr_range]
    split
    · refine Always.pure ?_
      split
      · refine matchOK_leaf (fun _ _ h => by cases h) fun c' h => ?_
        obtain ⟨hr, hidx⟩ := Cursor.reaches_advance h
        exact ⟨hr, fun k => by simp only [PExpr.minLenWith]; omega⟩
      · exact True.intro
    · exact Always.pure True.intro
  | any =>
    rw [matchExpr_any]
    refine Always.pure (matchOK_leaf (fun _ _ h => by cases h) fun c' h => ?_)
    obtain ⟨hr, hidx⟩ := Cursor.reaches_advance h
    exact ⟨hr, fun k => by simp only [PExpr.minLenWith]; omega⟩
  | soi =>
    rw [matchExpr_soi]
    refine Always.pure ?_
    split
    · exact matchShape_empty (fun _ _ h => by cases h) fun _ => rfl
    · exact True.intro
  | eoi =>
    rw [matchExpr_eoi]
    refine Always.pure ?_
    split
    · exact matchShape_empty (fun _ _ h => by cases h) fun _ => rfl
    · exact True.intro
  | seq a b =>
    refine Always.bind (ih.expr ctx a cur) fun r1 h1 => ?_
    rcases r1 with _ | ⟨c1, p1⟩
    · exact Always.pure True.intro
    · refine Always.bind (ih.skip ctx c1) fun c2 hs => ?_
      refine Always.bind (ih.expr ctx b c2) fun r2 h2 => ?_
      rcases r2 with _ | ⟨c3, p2⟩
      · exact Always.pure True.intro
      · exact Always.pure (matchShape_seq h1 hs h2)
  | alt a b =>
    refine Always.bind (ih.expr ctx a cur) fun r1 h1 => ?_
    rcases r1 with _ | ⟨c1, p1⟩
    · exact (ih.expr ctx b cur).mono fun r2 h2 => by
        rcases r2 with _ | ⟨c2, p2⟩
        · exact True.intro
        · exact matchShape_alt_right h2
    · exact Always.pure (matchShape_alt_left h1)
  | opt a =>
    refine Always.bind (ih.expr ctx a cur) fun r1 h1 => ?_
    rcases r1 with _ | ⟨c1, p1⟩
    · exact Always.pure (matchShape_empty (fun _ _ h => by cases h) fun _ => rfl)
    · exact Always.pure (matchShape_opt h1)
  | star a =>
    exact Always.bind (ih.star ctx a cur) fun r h => Always.pure (matchShape_star h)
  | plus a =>
    refine Always.bind (ih.expr ctx a cur) fun r1 h1 => ?_
    rcases r1 with _ | ⟨c1, p1⟩
    · exact Always.pure True.intro
    · refine Always.bind (ih.skip ctx c1) fun c2 hs => ?_
      exact Always.bind (ih.star ctx a c2) fun r h => Always.pure (matchShape_plus h1 hs h)
  | notAhead a =>
    refine Always.bind_any fun r1 => ?_
    rcases r1 with _ | ⟨c1, p1⟩
    · exact Always.pure (matchShape_empty (fun _ _ h => by cases h) fun _ => rfl)
    · exact Always.pure True.intro
  | call r => exact ih.call_succ ctx r cur

/-- Every match, at every fuel, consumes what it must and leaves a laid-out forest. -/
theorem shapesAt : ∀ n, ShapesAt g n
  | 0 => shapesAt_zero
  | n + 1 => ⟨(shapesAt n).skip_succ, (shapesAt n).expr_succ, (shapesAt n).star_succ⟩

end Shapes

/-- A successful parse leaves one node of the start rule, laid out over the input. -/
theorem Grammar.parse_laid {g : Grammar R} {start : R} {input : List Char} {ps : List (Pair R)}
    (h : g.parse start input = .ok ps) : Laid g 0 (utf8Len input) ps ∧ ∀ q ∈ ps, q.rule = start := by
  have hshape := (shapesAt (g := g) ((input.length + 2) * 4096)).expr {} (.call start)
    { rest := input } {}
  unfold Grammar.parse at h
  dsimp only at h
  rcases hrun : (matchExpr g ((input.length + 2) * 4096) {} (.call start) { rest := input }).run {}
    with ⟨_ | ⟨c, ps'⟩, t⟩
  · rw [hrun] at h
    cases h
  · rw [hrun] at h hshape
    cases h
    have hs : MatchShape g (.call start) { rest := input } c ps := hshape
    -- the match ends inside the input, so the forest fits within it
    have hend : c.pos ≤ utf8Len input := by
      obtain ⟨w, hw, hc⟩ := hs.reaches
      have hlen : utf8Len input = utf8Len w + utf8Len c.rest := by
        rw [show input = w ++ c.rest from hw, utf8Len_append]
      rw [hc, Cursor.past_pos]
      show 0 + utf8Len w ≤ utf8Len input
      omega
    exact ⟨hs.laid.widen le_rfl hend, fun q hq => List.mem_singleton.mp (hs.heads q hq)⟩

end Espalier.Peg
