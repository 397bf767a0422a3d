import Mathlib.Tactic.Tauto
import Espalier.Syntax.Walk
import Espalier.Syntax.Parse

/-!
# What reading builds

Every tree the reader builds is *clean*: it holds no expansion marker, and every node of it
has a location (`Syntax.parseModule_clean`). Reading builds each node from one match of the
grammar, at the location where that match starts, and never builds a marker; the proof
follows the readers down, one function at a time.

The readers can fail, so each lemma is a postcondition: `Ensures P x` says that every value
`x` can give satisfies `P`. Its rules for `pure`, `throw`, `bind`, loops and `mapM` let
each proof follow the `do` block of its reader branch by branch. The expression readers and
the block readers are each mutually recursive on a fuel argument; their cleanliness is a
bundle (`ReadsClean`, `BuildsClean`) proved by induction on the fuel, each field from the
bundle one fuel lower.
-/

namespace Espalier

/-! ## Postconditions of computations that can fail -/

section Ensures
variable {ε α β γ : Type}

/-- Every value the computation can give satisfies `P`. -/
def Ensures (P : α → Prop) (x : Except ε α) : Prop :=
  ∀ a, x = .ok a → P a

theorem Ensures.pure {P : α → Prop} {a : α} (h : P a) : Ensures P (Pure.pure a : Except ε α) := by
  intro b hb
  cases hb
  exact h

theorem Ensures.error {P : α → Prop} (e : ε) : Ensures P (Except.error e : Except ε α) :=
  fun _ h => nomatch h

theorem Ensures.throw {P : α → Prop} (e : ε) : Ensures P (throw e : Except ε α) :=
  fun _ h => nomatch h

theorem Ensures.bind {P : α → Prop} {Q : β → Prop} {x : Except ε β} {k : β → Except ε α}
    (hx : Ensures Q x) (hk : ∀ b, Q b → Ensures P (k b)) : Ensures P (x >>= k) := by
  intro a h
  cases hxb : x with
  | error e =>
    rw [hxb] at h
    cases h
  | ok b =>
    rw [hxb] at h
    exact hk b (hx b hxb) a h

theorem Ensures.mapError {P : α → Prop} {x : Except ε α} (f : ε → ε) (h : Ensures P x) :
    Ensures P (x.mapError f) := by
  intro a ha
  cases hx : x with
  | error e => rw [hx] at ha; cases ha
  | ok b => rw [hx] at ha; cases ha; exact h a hx

theorem Ensures.trivial {x : Except ε α} : Ensures (fun _ => True) x :=
  fun _ _ => True.intro

theorem Ensures.mono {P Q : α → Prop} {x : Except ε α} (h : Ensures Q x) (hPQ : ∀ a, Q a → P a) :
    Ensures P x :=
  fun a ha => hPQ a (h a ha)

/-- A loop whose every step keeps `I` of its state keeps it to the end. -/
theorem Ensures.forIn {I : α → Prop} (xs : List γ) (init : α) {body : γ → α → Except ε (ForInStep α)}
    (hinit : I init) (hstep : ∀ x ∈ xs, ∀ a, I a → Ensures (fun r => I r.value) (body x a)) :
    Ensures I (forIn xs init body) := by
  induction xs generalizing init with
  | nil => exact .pure hinit
  | cons x xs ih =>
    rw [List.forIn_cons]
    refine (hstep x List.mem_cons_self init hinit).bind fun r hr => ?_
    cases r with
    | done b => exact .pure hr
    | yield b => exact ih b hr fun y hy => hstep y (List.mem_cons_of_mem x hy)

/-- Mapping a computation that ensures `P` over a list ensures `P` of every value. -/
theorem Ensures.mapM {P : α → Prop} {f : γ → Except ε α} (xs : List γ)
    (h : ∀ x ∈ xs, Ensures P (f x)) : Ensures (fun ys => ∀ y ∈ ys, P y) (xs.mapM f) := by
  induction xs with
  | nil => exact .pure fun _ hy => nomatch hy
  | cons x xs ih =>
    rw [List.mapM_cons]
    refine (h x List.mem_cons_self).bind fun y hy => ?_
    refine (ih fun z hz => h z (List.mem_cons_of_mem x hz)).bind fun ys hys => .pure ?_
    intro z hz
    rcases List.mem_cons.mp hz with rfl | hz
    · exact hy
    · exact hys z hz

end Ensures

/-! ## Trees as reading builds them -/

/-- An expression with no marker and a location on every node. -/
def Expr.Clean (e : Expr) : Prop := e.markerLocs = [] ∧ e.missingLocs = []

/-- Expressions with no marker and a location on every node. -/
def Expr.CleanList (es : List Expr) : Prop :=
  Expr.markerLocsList es = [] ∧ Expr.missingLocsList es = []

/-- An optional expression with no marker and a location on every node. -/
def Expr.CleanOpt (e : Option Expr) : Prop :=
  Expr.markerLocsOpt e = [] ∧ Expr.missingLocsOpt e = []

/-- A statement with no marker and a location on every node. -/
def Stmt.Clean (s : Stmt) : Prop := s.markerLocs = [] ∧ s.missingLocs = []

/-- Statements with no marker and a location on every node. -/
def Stmt.CleanList (ss : List Stmt) : Prop :=
  Stmt.markerLocsList ss = [] ∧ Stmt.missingLocsList ss = []

/-- The parts of an expression node are clean; a marker node never is. -/
def ExprKind.PartsClean : ExprKind → Prop
  | .name _ | .const _ => True
  | .binOp _ a b => a.Clean ∧ b.Clean
  | .unaryOp _ a => a.Clean
  | .call f args => f.Clean ∧ Expr.CleanList args
  | .attribute v _ => v.Clean
  | .subscript v i => v.Clean ∧ i.Clean
  | .list items | .tuple items => Expr.CleanList items
  | .lambda _ b => b.Clean
  | .ifExp t b o => t.Clean ∧ b.Clean ∧ o.Clean
  | .done _ => False

/-- A statement kind without a body: what one simple statement is read as. -/
def StmtKind.IsSimple : StmtKind → Prop
  | .withBlock .. | .functionDef .. | .classDef .. | .ifElse .. | .whileLoop .. | .forLoop ..
  | .done _ => False
  | _ => True

/-- The parts of a statement node are clean; a marker node never is. -/
def StmtKind.PartsClean : StmtKind → Prop
  | .expr v => v.Clean
  | .assign t v => t.Clean ∧ v.Clean
  | .importModule .. | .importFrom .. | .pass | .breakLoop | .continueLoop => True
  | .withBlock i _ b => i.Clean ∧ Stmt.CleanList b
  | .functionDef _ _ b ds | .classDef _ b ds => Expr.CleanList ds ∧ Stmt.CleanList b
  | .ret v => Expr.CleanOpt v
  | .ifElse t b o => t.Clean ∧ Stmt.CleanList b ∧ Stmt.CleanList o
  | .whileLoop t b | .forLoop _ t b => t.Clean ∧ Stmt.CleanList b
  | .assertion t m => t.Clean ∧ Expr.CleanOpt m
  | .done _ => False

/-- The expression a compound header holds is clean. -/
def Syntax.Header.Clean : Syntax.Header → Prop
  | .defn .. | .classDef _ | .elseClause => True
  | .withItem e _ | .ifTest e | .elifTest e | .whileTest e | .forEach _ e => e.Clean

/-- What a read line holds is clean. -/
def Syntax.LineItem.Clean : Syntax.LineItem → Prop
  | .simple ss => Stmt.CleanList ss
  | .decorator e => e.Clean
  | .header h inline => h.Clean ∧ Stmt.CleanList inline

section Clean
variable {e : Expr} {es : List Expr} {s : Stmt} {ss ts : List Stmt} {l : Loc}

@[simp] theorem Expr.cleanList_nil : Expr.CleanList [] := ⟨rfl, rfl⟩

@[simp] theorem Expr.cleanList_cons : Expr.CleanList (e :: es) ↔ e.Clean ∧ Expr.CleanList es := by
  simp only [Expr.CleanList, Expr.Clean, Expr.markerLocsList, Expr.missingLocsList,
    List.append_eq_nil_iff]
  tauto

theorem Expr.cleanList_iff : Expr.CleanList es ↔ ∀ e ∈ es, e.Clean := by
  induction es with
  | nil => simp
  | cons e es ih => simp [ih]

@[simp] theorem Expr.cleanList_append {fs : List Expr} :
    Expr.CleanList (es ++ fs) ↔ Expr.CleanList es ∧ Expr.CleanList fs := by
  induction es with
  | nil => simp
  | cons e es ih => simp [ih, and_assoc]

@[simp] theorem Expr.cleanOpt_none : Expr.CleanOpt none := ⟨rfl, rfl⟩

@[simp] theorem Expr.cleanOpt_some : Expr.CleanOpt (some e) ↔ e.Clean := Iff.rfl

@[simp] theorem Stmt.cleanList_nil : Stmt.CleanList [] := ⟨rfl, rfl⟩

@[simp] theorem Stmt.cleanList_cons : Stmt.CleanList (s :: ss) ↔ s.Clean ∧ Stmt.CleanList ss := by
  simp only [Stmt.CleanList, Stmt.Clean, Stmt.markerLocsList, Stmt.missingLocsList,
    List.append_eq_nil_iff]
  tauto

@[simp] theorem Stmt.cleanList_append :
    Stmt.CleanList (ss ++ ts) ↔ Stmt.CleanList ss ∧ Stmt.CleanList ts := by
  induction ss with
  | nil => simp
  | cons s ss ih => simp [ih, and_assoc]

theorem Stmt.cleanList_iff : Stmt.CleanList ss ↔ ∀ s ∈ ss, s.Clean := by
  induction ss with
  | nil => simp
  | cons s ss ih => simp [ih]

/-- A located expression node is clean exactly when its parts are. -/
theorem Expr.clean_mk_iff {k : ExprKind} : (Expr.mk k (some l)).Clean ↔ k.PartsClean := by
  cases k <;>
    simp [Expr.Clean, Expr.CleanList, ExprKind.PartsClean, Expr.markerLocs, Expr.missingLocs] <;>
    tauto

/-- A located statement node is clean exactly when its parts are. -/
theorem Stmt.clean_mk_iff {k : StmtKind} : (Stmt.mk k (some l)).Clean ↔ k.PartsClean := by
  cases k <;>
    simp [Stmt.Clean, Stmt.CleanList, Expr.Clean, Expr.CleanList, Expr.CleanOpt,
      StmtKind.PartsClean, Stmt.markerLocs, Stmt.missingLocs] <;>
    tauto

/-- A clean expression is located. -/
theorem Expr.Clean.loc_isSome (h : e.Clean) : e.loc.isSome := by
  obtain ⟨k, l⟩ := e
  cases l with
  | none =>
    have := h.2
    rw [Expr.missingLocs.eq_def] at this
    simp at this
  | some l => rfl

end Clean

namespace Syntax.LineReader

variable (lr : LineReader)

/-- Folding an operator chain builds located nodes over its operands. -/
theorem foldOps_clean {l : Loc} {acc : Expr} {pairs : List (BinOp × Expr)} (hacc : acc.Clean)
    (hpairs : ∀ q ∈ pairs, q.2.Clean) : (foldOps (some l) acc pairs).Clean := by
  induction pairs generalizing acc with
  | nil => exact hacc
  | cons q rest ih =>
    exact ih (Expr.clean_mk_iff.mpr ⟨hacc, hpairs q List.mem_cons_self⟩)
      fun r hr => hpairs r (List.mem_cons_of_mem q hr)

/-- The readers of expressions, at fuel `n`, build only clean expressions. -/
structure ReadsClean (n : Nat) : Prop where
  expr : ∀ p, Ensures Expr.Clean (lr.expr n p)
  exprs : ∀ ps, Ensures Expr.CleanList (lr.exprs n ps)
  chain : ∀ ps, Ensures (fun pairs => ∀ q ∈ pairs, q.2.Clean) (lr.chain n ps)
  exprList : ∀ p, Ensures Expr.Clean (lr.exprList n p)

theorem readsClean_zero : lr.ReadsClean 0 where
  expr p := by rw [LineReader.expr]; exact .error _
  exprs ps := by
    cases ps with
    | nil => rw [LineReader.exprs]; exact .pure Expr.cleanList_nil
    | cons p ps => rw [LineReader.exprs]; exact .error _
  chain ps := by
    cases ps with
    | nil => rw [LineReader.chain]; exact .pure fun _ h => absurd h List.not_mem_nil
    | cons p ps => rw [LineReader.chain]; exact .error _
  exprList p := by rw [LineReader.exprList]; exact .error _

section Succ
variable {lr} {n : Nat} (ih : lr.ReadsClean n)
include ih

theorem ReadsClean.exprs_succ : ∀ ps, Ensures Expr.CleanList (lr.exprs (n + 1) ps)
  | [] => by rw [LineReader.exprs]; exact .pure Expr.cleanList_nil
  | p :: ps => by
    rw [LineReader.exprs]
    exact (ih.expr p).bind fun e he => (ReadsClean.exprs_succ ps).bind fun es hes =>
      .pure (Expr.cleanList_cons.mpr ⟨he, hes⟩)

theorem ReadsClean.chain_succ :
    ∀ ps, Ensures (fun pairs => ∀ q ∈ pairs, q.2.Clean) (lr.chain (n + 1) ps)
  | [] => by rw [LineReader.chain]; exact .pure fun _ h => absurd h List.not_mem_nil
  | [opNode] => by
    cases hop : BinOp.ofSymbol? (textOf opNode) with
    | none => rw [LineReader.chain.eq_3 _ _ _ _ hop]; exact .error _
    | some op => rw [LineReader.chain.eq_5 _ _ _ _ hop]; exact .error _
  | opNode :: operand :: more => by
    cases hop : BinOp.ofSymbol? (textOf opNode) with
    | none => rw [LineReader.chain.eq_3 _ _ _ _ hop]; exact .error _
    | some op =>
      rw [LineReader.chain.eq_4 _ _ _ _ _ _ hop]
      refine (ih.expr operand).bind fun e he => ?_
      refine (ReadsClean.chain_succ more).bind fun tail htail => .pure ?_
      intro q hq
      rcases List.mem_cons.mp hq with rfl | hq
      · exact he
      · exact htail q hq

theorem ReadsClean.exprList_succ (p : Node) : Ensures Expr.Clean (lr.exprList (n + 1) p) := by
  rw [LineReader.exprList]
  refine (ih.exprs p.children).bind fun items hitems => ?_
  dsimp only
  split
  · split
    · exact .pure (Expr.clean_mk_iff.mpr hitems)
    · exact .pure (Expr.cleanList_cons.mp hitems).1
  · exact .pure (Expr.clean_mk_iff.mpr hitems)

theorem ReadsClean.expr_succ (p : Node) : Ensures Expr.Clean (lr.expr (n + 1) p) := by
  rw [LineReader.expr]
  split
  case h_1 | h_2 => exact .bind .trivial fun q _ => ih.expr q
  case h_3 =>
    split
    · exact ih.expr _
    · -- the trailers of a postfix expression wrap the clean expression built so far
      refine (ih.expr _).bind fun acc hacc => ?_
      refine (Ensures.forIn (I := Expr.Clean) _ acc hacc fun tr _ a ha => ?_).bind
        fun r hr => .pure hr
      split
      · exact (ih.exprs _).bind fun es hes => .pure (Expr.clean_mk_iff.mpr ⟨ha, hes⟩)
      · exact .bind .trivial fun q _ =>
          (ih.exprList q).bind fun e he => .pure (Expr.clean_mk_iff.mpr ⟨ha, he⟩)
      · exact .bind .trivial fun q _ => .pure (Expr.clean_mk_iff.mpr ha)
      · exact .bind .trivial fun _ _ => .pure ha
    · exact .error _
  case h_4 => exact ih.exprList p
  case h_5 =>
    -- the body read last, if any, is clean
    dsimp only
    refine (Ensures.forIn (I := fun s : List String × Option Expr => ∀ b, s.2 = some b → b.Clean)
      _ _ (by simp) fun part _ s hs => ?_).bind fun r hr => ?_
    · split
      · exact .pure hs
      · exact (ih.expr part).bind fun e he => .pure fun b hb => Option.some.inj hb ▸ he
    · split
      · exact .pure (Expr.clean_mk_iff.mpr (hr _ ‹_›))
      · exact .throw _
  case h_6 =>
    split
    · exact (ih.expr _).bind fun b hb => (ih.expr _).bind fun t ht =>
        (ih.expr _).bind fun o ho => .pure (Expr.clean_mk_iff.mpr ⟨ht, hb, ho⟩)
    · exact ih.expr _
    · exact .throw _
  case h_7 | h_8 =>
    dsimp only
    split
    · refine (ih.expr _).bind fun acc hacc => (ih.exprs _).bind fun es hes => .pure ?_
      refine foldOps_clean hacc fun q hq => ?_
      obtain ⟨e, he, rfl⟩ := List.mem_map.mp hq
      exact Expr.cleanList_iff.mp hes e he
    · exact .throw _
  case h_9 =>
    split
    · split
      · split
        · exact (ih.expr _).bind fun e he => .pure (Expr.clean_mk_iff.mpr he)
        · exact .throw _
      · exact ih.expr _
    · exact .error _
  case h_10 | h_11 | h_12 =>
    split
    · exact (ih.expr _).bind fun acc hacc =>
        (ih.chain _).bind fun pairs hpairs => .pure (foldOps_clean hacc hpairs)
    · exact .throw _
  case h_13 =>
    split
    · split
      · dsimp only
        split
        · exact (ih.expr _).bind fun e he => .pure (Expr.clean_mk_iff.mpr he)
        · exact .throw _
      · exact ih.expr _
    · exact .error _
  case h_14 => exact (ih.exprs _).bind fun es hes => .pure (Expr.clean_mk_iff.mpr hes)
  case h_15 => exact (ih.exprs _).bind fun es hes => .pure (Expr.clean_mk_iff.mpr hes)
  case h_16 =>
    dsimp only
    split
    · exact .pure (Expr.clean_mk_iff.mpr trivial)
    · exact .throw _
  case h_17 | h_18 | h_19 | h_20 => exact .pure (Expr.clean_mk_iff.mpr trivial)
  case h_21 => exact .pure (Expr.clean_mk_iff.mpr trivial)
  case h_22 => exact .throw _

end Succ

/-- At every fuel, reading expressions builds clean expressions. -/
theorem readsClean : ∀ n, lr.ReadsClean n
  | 0 => lr.readsClean_zero
  | n + 1 =>
    have ih := readsClean n
    ⟨ih.expr_succ, ih.exprs_succ, ih.chain_succ, ih.exprList_succ⟩

/-- An assignment target is read as a clean expression. -/
theorem target_clean (p : Node) : Ensures Expr.Clean (lr.target p) := by
  unfold target
  refine ((lr.readsClean _).expr p).bind fun e he => ?_
  split
  case h_4 => exact .throw _
  all_goals exact .pure he

/-- A simple statement is read as a node of a kind without a body, with clean parts, located
where its match starts. -/
theorem simpleStmt_shape (p : Node) :
    Ensures (fun s => ∃ k, s = .mk k (lr.locOf p) ∧ k.PartsClean ∧ k.IsSimple)
      (lr.simpleStmt p) := by
  have hread := lr.readsClean lr.fuel
  have node : ∀ {k : StmtKind}, k.PartsClean → k.IsSimple →
      ∃ k', Stmt.mk k (lr.locOf p) = .mk k' (lr.locOf p) ∧ k'.PartsClean ∧ k'.IsSimple :=
    fun hk hs => ⟨_, rfl, hk, hs⟩
  unfold simpleStmt
  dsimp only
  simp only [pure_bind]
  split
  case h_1 => exact .pure (node trivial trivial)
  case h_2 => split <;> exact .pure (node trivial trivial)
  case h_3 =>
    split
    · exact (hread.exprList _).bind fun e he => .pure (node he trivial)
    · exact .pure (node Expr.cleanOpt_none trivial)
  case h_4 | h_5 | h_6 => exact .pure (node trivial trivial)
  case h_7 =>
    split
    · refine (hread.expr _).bind fun t ht => ?_
      split
      · exact (hread.expr _).bind fun m hm => .pure (node ⟨ht, hm⟩ trivial)
      · exact .pure (node ⟨ht, Expr.cleanOpt_none⟩ trivial)
    · exact .throw _
  case h_8 =>
    split
    · exact (lr.target_clean _).bind fun t ht =>
        (hread.exprList _).bind fun v hv => .pure (node ⟨ht, hv⟩ trivial)
    · exact .throw _
  case h_9 =>
    split
    · refine (lr.target_clean _).bind fun t ht => ?_
      split
      · refine (hread.expr _).bind fun v hv => .pure (node ⟨ht, ?_⟩ trivial)
        -- an augmented assignment's operation sits at its target's location
        obtain ⟨l, hl⟩ := Option.isSome_iff_exists.mp ht.loc_isSome
        rw [hl]
        exact Expr.clean_mk_iff.mpr ⟨ht, hv⟩
      · exact .throw _
    · exact .throw _
  case h_10 =>
    exact .bind .trivial fun q _ => (hread.exprList q).bind fun e he => .pure (node he trivial)
  case h_11 => exact .throw _

/-- A simple statement is read as a clean statement. -/
theorem simpleStmt_clean (p : Node) : Ensures Stmt.Clean (lr.simpleStmt p) := by
  refine (lr.simpleStmt_shape p).mono fun s hs => ?_
  obtain ⟨k, rfl, hk, -⟩ := hs
  exact Stmt.clean_mk_iff.mpr hk

/-- A run of simple statements is read as clean statements. -/
theorem simpleStmts_clean (p : Node) : Ensures Stmt.CleanList (lr.simpleStmts p) :=
  (Ensures.mapM _ fun q _ => lr.simpleStmt_clean q).mono fun _ h => Stmt.cleanList_iff.mpr h

/-- A compound header and its inline body are read clean. -/
theorem header_clean (p : Node) :
    Ensures (fun r : Header × List Stmt => r.1.Clean ∧ Stmt.CleanList r.2) (lr.header p) := by
  have hread := lr.readsClean lr.fuel
  unfold header
  extract_lets parts e missing cont
  -- what follows the inline body reads at most one expression
  have hcont : ∀ x : List Node × List Stmt, Stmt.CleanList x.2 →
      Ensures (fun r : Header × List Stmt => r.1.Clean ∧ Stmt.CleanList r.2) (cont x) := by
    rintro ⟨parts, inline⟩ hinline
    simp only [cont, e, pure_bind]
    split
    case h_3 | h_4 | h_5 | h_7 | h_8 =>
      exact (hread.expr _).bind fun t ht => .pure ⟨ht, hinline⟩
    case h_1 | h_2 | h_6 => exact .pure ⟨trivial, hinline⟩
    all_goals exact .throw _
  simp only [pure_bind]
  split
  · split
    · exact (lr.simpleStmts_clean _).bind fun inline h => hcont (parts.dropLast, inline) h
    · exact hcont (parts, []) Stmt.cleanList_nil
  · exact hcont (parts, []) Stmt.cleanList_nil

end Syntax.LineReader

/-- A logical line is read into a clean item. -/
theorem readLine_clean (file : String) (ln : LogicalLine) :
    Ensures (fun r : Syntax.ReadLine => r.item.Clean) (Syntax.readLine file ln) := by
  unfold Syntax.readLine
  dsimp only
  simp only [pure_bind]
  split
  · exact .throw _
  · split
    · split
      · split
        · exact .bind .trivial fun q _ => ((Syntax.LineReader.readsClean _ _).expr q).bind
            fun e he => .pure he
        · exact (Syntax.LineReader.simpleStmts_clean _ _).bind fun ss hss => .pure hss
        · exact (Syntax.LineReader.header_clean _ _).bind fun r hr => by
            obtain ⟨h, inline⟩ := r
            exact .pure hr
      · exact .throw _
    · exact .throw _

namespace Syntax

/-- Read lines whose items are all clean. -/
def ReadLine.CleanList (lines : List ReadLine) : Prop := ∀ ln ∈ lines, ln.item.Clean

/-- A clause of an if-chain: its test and body are clean. -/
def clauseClean (c : Expr × List Stmt × Loc) : Prop := c.1.Clean ∧ Stmt.CleanList c.2.1

@[simp] theorem ReadLine.cleanList_nil : ReadLine.CleanList [] := fun _ h => nomatch h

theorem ReadLine.cleanList_cons {ln : ReadLine} {rest : List ReadLine} :
    ReadLine.CleanList (ln :: rest) ↔ ln.item.Clean ∧ ReadLine.CleanList rest := by
  simp [ReadLine.CleanList]

theorem compound_clean {h : Header} {body : List Stmt} {decs : List Expr} (loc : Loc)
    (hh : h.Clean) (hbody : Stmt.CleanList body) (hdecs : Expr.CleanList decs) :
    Ensures Stmt.Clean (compound h body decs loc) := by
  cases h with
  | defn => exact .pure (Stmt.clean_mk_iff.mpr ⟨hdecs, hbody⟩)
  | classDef => exact .pure (Stmt.clean_mk_iff.mpr ⟨hdecs, hbody⟩)
  | withItem => exact .pure (Stmt.clean_mk_iff.mpr ⟨hh, hbody⟩)
  | whileTest => exact .pure (Stmt.clean_mk_iff.mpr ⟨hh, hbody⟩)
  | forEach => exact .pure (Stmt.clean_mk_iff.mpr ⟨hh, hbody⟩)
  | ifTest | elifTest | elseClause => exact .throw _

theorem nestClauses_clean {orelse : List Stmt} (horelse : Stmt.CleanList orelse) :
    ∀ {clauses : List (Expr × List Stmt × Loc)}, (∀ c ∈ clauses, clauseClean c) →
      Stmt.CleanList (nestClauses orelse clauses)
  | [], _ => horelse
  | c :: rest, h => by
    have hc := h c List.mem_cons_self
    have hrest := nestClauses_clean horelse fun d hd => h d (List.mem_cons_of_mem c hd)
    rw [nestClauses, Stmt.cleanList_cons]
    exact ⟨Stmt.clean_mk_iff.mpr ⟨hc.1, hc.2, hrest⟩, Stmt.cleanList_nil⟩

variable (file : String)

/-- The block readers, at fuel `n`, build clean statements from clean lines and leave
clean lines behind. -/
structure BuildsClean (n : Nat) : Prop where
  block : ∀ indent lines (acc : Array Stmt), ReadLine.CleanList lines →
    Stmt.CleanList acc.toList →
    Ensures (fun r => Stmt.CleanList r.1 ∧ ReadLine.CleanList r.2) (Syntax.block file n indent lines acc)
  suite : ∀ ln inline indent rest, Stmt.CleanList inline → ReadLine.CleanList rest →
    Ensures (fun r => Stmt.CleanList r.1 ∧ ReadLine.CleanList r.2)
      (Syntax.suite file n ln inline indent rest)
  decorated : ∀ indent lines (decs : Array Expr), ReadLine.CleanList lines →
    Expr.CleanList decs.toList →
    Ensures (fun r => r.1.Clean ∧ ReadLine.CleanList r.2) (Syntax.decorated file n indent lines decs)
  finishDecorated : ∀ indent lines (decs : Array Expr), ReadLine.CleanList lines →
    Expr.CleanList decs.toList →
    Ensures (fun r => r.1.Clean ∧ ReadLine.CleanList r.2)
      (Syntax.finishDecorated file n indent lines decs)
  ifChain : ∀ indent lines (clauses : Array (Expr × List Stmt × Loc)), ReadLine.CleanList lines →
    (∀ c ∈ clauses.toList, clauseClean c) →
    Ensures (fun r => r.1.Clean ∧ ReadLine.CleanList r.2) (Syntax.ifChain file n indent lines clauses)

theorem buildsClean_zero : BuildsClean file 0 where
  block _ _ _ _ _ := by rw [Syntax.block]; exact .throw _
  suite _ _ _ _ _ _ := by rw [Syntax.suite]; exact .throw _
  decorated _ _ _ _ _ := by rw [Syntax.decorated]; exact .throw _
  finishDecorated _ _ _ _ _ := by rw [Syntax.finishDecorated]; exact .throw _
  ifChain _ _ _ _ _ := by rw [Syntax.ifChain]; exact .throw _

section Succ
variable {file} {n : Nat} (ih : BuildsClean file n)
include ih

theorem BuildsClean.block_succ (indent : Nat) (lines : List ReadLine) (acc : Array Stmt)
    (hl : ReadLine.CleanList lines) (hacc : Stmt.CleanList acc.toList) :
    Ensures (fun r => Stmt.CleanList r.1 ∧ ReadLine.CleanList r.2)
      (Syntax.block file (n + 1) indent lines acc) := by
  cases lines with
  | nil => rw [Syntax.block]; exact .pure ⟨hacc, ReadLine.cleanList_nil⟩
  | cons ln rest =>
    obtain ⟨hln, hrest⟩ := ReadLine.cleanList_cons.mp hl
    rw [Syntax.block]
    split
    · exact .pure ⟨hacc, hl⟩
    split
    · exact .throw _
    split
    case h_1 ss heq =>
      rw [heq] at hln
      exact ih.block _ _ _ hrest (by simpa using ⟨hacc, hln⟩)
    case h_2 =>
      refine (ih.decorated _ _ _ hl (by simp)).bind fun r hr => ?_
      obtain ⟨s, rest'⟩ := r
      exact ih.block _ _ _ hr.2 (by simpa using ⟨hacc, hr.1⟩)
    case h_3 =>
      refine (ih.ifChain _ _ _ hl (by simp)).bind fun r hr => ?_
      obtain ⟨s, rest'⟩ := r
      exact ih.block _ _ _ hr.2 (by simpa using ⟨hacc, hr.1⟩)
    case h_4 | h_5 => exact .throw _
    case h_6 h inline _ _ _ heq =>
      rw [heq] at hln
      refine (ih.suite _ _ _ _ hln.2 hrest).bind fun r hr => ?_
      obtain ⟨body, rest'⟩ := r
      exact (compound_clean _ hln.1 hr.1 Expr.cleanList_nil).bind fun s hs =>
        ih.block _ _ _ hr.2 (by simpa using ⟨hacc, hs⟩)

theorem BuildsClean.suite_succ (ln : ReadLine) (inline : List Stmt) (indent : Nat)
    (rest : List ReadLine) (hinline : Stmt.CleanList inline) (hrest : ReadLine.CleanList rest) :
    Ensures (fun r => Stmt.CleanList r.1 ∧ ReadLine.CleanList r.2)
      (Syntax.suite file (n + 1) ln inline indent rest) := by
  cases rest with
  | nil =>
    rw [Syntax.suite]
    split
    · exact .pure ⟨hinline, hrest⟩
    · exact .throw _
  | cons next tail =>
    rw [Syntax.suite]
    split
    · exact .pure ⟨hinline, hrest⟩
    split
    · exact ih.block _ _ _ hrest (by simp)
    · exact .throw _

theorem BuildsClean.finishDecorated_succ (indent : Nat) (lines : List ReadLine)
    (decs : Array Expr) (hl : ReadLine.CleanList lines) (hdecs : Expr.CleanList decs.toList) :
    Ensures (fun r => r.1.Clean ∧ ReadLine.CleanList r.2)
      (Syntax.finishDecorated file (n + 1) indent lines decs) := by
  cases lines with
  | nil => rw [Syntax.finishDecorated]; exact .throw _
  | cons ln rest =>
    obtain ⟨hln, hrest⟩ := ReadLine.cleanList_cons.mp hl
    rw [Syntax.finishDecorated]
    split
    · exact .throw _
    split
    case h_1 h inline heq =>
      rw [heq] at hln
      split
      case h_1 | h_2 =>
        refine (ih.suite _ _ _ _ hln.2 hrest).bind fun r hr => ?_
        obtain ⟨body, rest'⟩ := r
        exact (compound_clean _ hln.1 hr.1 hdecs).bind fun s hs => .pure ⟨hs, hr.2⟩
      case h_3 => exact .throw _
    case h_2 => exact .throw _

theorem BuildsClean.decorated_succ (indent : Nat) (lines : List ReadLine) (decs : Array Expr)
    (hl : ReadLine.CleanList lines) (hdecs : Expr.CleanList decs.toList) :
    Ensures (fun r => r.1.Clean ∧ ReadLine.CleanList r.2)
      (Syntax.decorated file (n + 1) indent lines decs) := by
  rw [Syntax.decorated.eq_def]
  dsimp only
  split
  case h_1 loc i e rest =>
    obtain ⟨he, hrest⟩ := ReadLine.cleanList_cons.mp hl
    split
    · exact ih.decorated _ _ _ hrest (by simpa using And.intro hdecs (show e.Clean from he))
    · exact ih.finishDecorated _ _ _ hl hdecs
  case h_2 => exact ih.finishDecorated _ _ _ hl hdecs

theorem BuildsClean.ifChain_succ (indent : Nat) (lines : List ReadLine)
    (clauses : Array (Expr × List Stmt × Loc)) (hl : ReadLine.CleanList lines)
    (hclauses : ∀ c ∈ clauses.toList, clauseClean c) :
    Ensures (fun r => r.1.Clean ∧ ReadLine.CleanList r.2)
      (Syntax.ifChain file (n + 1) indent lines clauses) := by
  rw [Syntax.ifChain.eq_def]
  dsimp -zeta only
  extract_lets finish
  -- the chain is closed by nesting its clauses over the `else` branch
  have hfinish : ∀ orelse rest, Stmt.CleanList orelse → ReadLine.CleanList rest →
      Ensures (fun r => r.1.Clean ∧ ReadLine.CleanList r.2) (finish orelse rest) := by
    intro orelse rest horelse hrest
    have hnest := nestClauses_clean horelse hclauses
    simp only [finish]
    split
    case h_1 s _ heq =>
      rw [heq] at hnest
      exact .pure ⟨(Stmt.cleanList_cons.mp hnest).1, hrest⟩
    case h_2 => exact .throw _
  -- a clause read here joins the chain clean
  have hpush : ∀ {ln : ReadLine} {test : Expr} {body : List Stmt},
      (Header.ifTest test).Clean ∨ (Header.elifTest test).Clean → Stmt.CleanList body →
      ∀ c ∈ (clauses.push (test, body, ln.loc)).toList, clauseClean c := by
    intro ln test body htest hbody c hc
    simp only [Array.toList_push, List.mem_append, List.mem_singleton] at hc
    rcases hc with hc | rfl
    · exact hclauses c hc
    · exact ⟨htest.elim id id, hbody⟩
  split
  · exact hfinish _ _ Stmt.cleanList_nil ReadLine.cleanList_nil
  rename_i ln rest
  obtain ⟨hln, hrest⟩ := ReadLine.cleanList_cons.mp hl
  split
  · exact hfinish _ _ Stmt.cleanList_nil hl
  split
  case h_1 test inline heq =>
    rw [heq] at hln
    split
    · refine (ih.suite _ _ _ _ hln.2 hrest).bind fun r hr => ?_
      obtain ⟨body, rest'⟩ := r
      exact ih.ifChain _ _ _ hr.2 (hpush (.inl hln.1) hr.1)
    · exact hfinish _ _ Stmt.cleanList_nil hl
  case h_2 test inline heq =>
    rw [heq] at hln
    split
    · refine (ih.suite _ _ _ _ hln.2 hrest).bind fun r hr => ?_
      obtain ⟨body, rest'⟩ := r
      exact ih.ifChain _ _ _ hr.2 (hpush (.inr hln.1) hr.1)
    · exact hfinish _ _ Stmt.cleanList_nil hl
  case h_3 inline heq =>
    rw [heq] at hln
    split
    · refine (ih.suite _ _ _ _ hln.2 hrest).bind fun r hr => ?_
      obtain ⟨orelse, rest'⟩ := r
      exact hfinish _ _ hr.1 hr.2
    · exact hfinish _ _ Stmt.cleanList_nil hl
  case h_4 => exact hfinish _ _ Stmt.cleanList_nil hl

end Succ

/-- At every fuel, the block readers build clean statements. -/
theorem buildsClean : ∀ n, BuildsClean file n
  | 0 => buildsClean_zero file
  | n + 1 =>
    have ih := buildsClean n
    ⟨ih.block_succ, ih.suite_succ, ih.decorated_succ, ih.finishDecorated_succ, ih.ifChain_succ⟩

/-- Reading a file builds clean statements. -/
theorem readModule_clean (source : String) :
    Ensures (fun m : Module => Stmt.CleanList m.body) (readModule source file) := by
  unfold readModule
  refine .bind .trivial fun lines _ => ?_
  refine (Ensures.mapM _ fun ln _ => readLine_clean file ln).bind fun read hread => ?_
  refine ((buildsClean file _).block _ _ _ hread (by simp)).bind fun r hbody => ?_
  obtain ⟨body, _⟩ := r
  exact .pure hbody.1

end Syntax

/-- A parsed module has no marker, and every node of it has a location. -/
theorem Syntax.parseModule_clean {source file : String} {m : Module}
    (h : Syntax.parseModule source file = .ok m) :
    Stmt.markerLocsList m.body = [] ∧ Stmt.missingLocsList m.body = [] :=
  (Ensures.mapError _ (Syntax.readModule_clean file source)) m h

end Espalier
