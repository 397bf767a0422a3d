import Espalier.Proofs.Peg.Forest
import Espalier.Proofs.Syntax.LineLocations
import Espalier.Proofs.Syntax.Clean

/-!
# Statements in source order

A parsed module lists its statements in the order of its text. Walking the tree in pre-order
(a compound statement before its bodies, `body` before `orelse`) meets the statements'
locations in the order the logical lines give them: a line of simple statements gives its
statements' locations, a compound header its own start and then its inline statements (an
`else` header only its inline statements), and a decorator line nothing. Those locations
strictly increase, line after line and along each line (`parseModule_statements_in_order`).

The proof has three parts.

* `LogicalLine.locAt_before`: the location of a byte of a logical line moves forward with the
  byte.
* The reader follows the match forest of one line, which `Grammar.parse_laid` lays out: every
  statement rule must consume a character, so the statements of a line start one after
  another, and a header's inline statements start after its keyword (`readLine_locs`).
* The block readers use up the read lines in order, and what they build lists exactly the
  locations of the lines they used (`ReadsOn`, `BuildsInOrder`, by induction on the fuel).
-/

namespace Espalier

open Peg

/-- Mapping a computation over a list relates each element to the value it gives. -/
theorem Ensures.mapM_forall₂ {ε α γ : Type} {P : γ → α → Prop} {f : γ → Except ε α}
    (xs : List γ) (h : ∀ x ∈ xs, Ensures (P x) (f x)) :
    Ensures (fun ys => List.Forall₂ P xs ys) (xs.mapM f) := by
  induction xs with
  | nil => exact .pure .nil
  | cons x xs ih =>
    rw [List.mapM_cons]
    refine (h x List.mem_cons_self).bind fun y hy => ?_
    exact (ih fun z hz => h z (List.mem_cons_of_mem x hz)).bind fun ys hys => .pure (.cons hy hys)

/-! ## Locations in the order of the text -/

/-- `a` stands before `b` in the text: on an earlier line, or on the same line further left. -/
def Loc.Before (a b : Loc) : Prop := a.line < b.line ∨ (a.line = b.line ∧ a.col < b.col)

namespace LogicalLine

theorem breaksBefore_fst_ge (o : Nat) (cs : List Char) (pos n : Nat) (last : Option Nat) :
    n ≤ (breaksBefore o cs pos n last).1 := by
  induction cs generalizing pos n last with
  | nil => exact le_rfl
  | cons c cs ih =>
    simp only [breaksBefore]
    split
    · split
      · exact Nat.le_of_succ_le (ih _ _ _)
      · exact ih _ _ _
    · exact le_rfl

/-- Without a break counted, the last break stays the one remembered before. -/
theorem breaksBefore_snd_of_fst {o pos n : Nat} {cs : List Char} {last : Option Nat}
    (h : (breaksBefore o cs pos n last).1 = n) : (breaksBefore o cs pos n last).2 = last := by
  induction cs generalizing pos n last with
  | nil => rfl
  | cons c cs ih =>
    simp only [breaksBefore] at h ⊢
    by_cases hle : pos + c.utf8Size ≤ o
    · rw [if_pos hle] at h ⊢
      by_cases hc : c = '\n'
      · rw [if_pos hc] at h
        have := breaksBefore_fst_ge o cs (pos + 1) (n + 1) (some (pos + 1))
        omega
      · rw [if_neg hc] at h ⊢
        exact ih h
    · rw [if_neg hle]

/-- A later byte has at least as many breaks before it, and the same last one if no more. -/
theorem breaksBefore_mono {o₁ o₂ : Nat} (ho : o₁ ≤ o₂) (cs : List Char) (pos n : Nat)
    (last : Option Nat) :
    (breaksBefore o₁ cs pos n last).1 ≤ (breaksBefore o₂ cs pos n last).1 ∧
      ((breaksBefore o₁ cs pos n last).1 = (breaksBefore o₂ cs pos n last).1 →
        (breaksBefore o₁ cs pos n last).2 = (breaksBefore o₂ cs pos n last).2) := by
  induction cs generalizing pos n last with
  | nil => exact ⟨le_rfl, fun _ => rfl⟩
  | cons c cs ih =>
    by_cases h₁ : pos + c.utf8Size ≤ o₁
    · -- both bytes lie after `c`: the scans go on alike
      have h₂ : pos + c.utf8Size ≤ o₂ := by omega
      have e₁ : breaksBefore o₁ (c :: cs) pos n last = if c = '\n' then
          breaksBefore o₁ cs (pos + 1) (n + 1) (some (pos + 1))
          else breaksBefore o₁ cs (pos + c.utf8Size) n last := by
        simp only [breaksBefore, if_pos h₁]
      have e₂ : breaksBefore o₂ (c :: cs) pos n last = if c = '\n' then
          breaksBefore o₂ cs (pos + 1) (n + 1) (some (pos + 1))
          else breaksBefore o₂ cs (pos + c.utf8Size) n last := by
        simp only [breaksBefore, if_pos h₂]
      rw [e₁, e₂]
      split
      · exact ih _ _ _
      · exact ih _ _ _
    · -- the first scan stops at `c`; the second can only count more breaks
      have e₁ : breaksBefore o₁ (c :: cs) pos n last = (n, last) := by
        simp only [breaksBefore, if_neg h₁]
      rw [e₁]
      exact ⟨breaksBefore_fst_ge o₂ (c :: cs) pos n last,
        fun h => (breaksBefore_snd_of_fst h.symm).symm⟩

/-- The location of a byte of a logical line moves forward with the byte. -/
theorem locAt_before (ln : LogicalLine) {o₁ o₂ : Nat} (h : o₁ < o₂) :
    Loc.Before (ln.locAt o₁) (ln.locAt o₂) := by
  have hm := breaksBefore_mono h.le ln.text.toList 0 0 none
  unfold locAt
  rcases h₁ : breaksBefore o₁ ln.text.toList 0 0 none with ⟨n₁, _ | a₁⟩ <;>
    rcases h₂ : breaksBefore o₂ ln.text.toList 0 0 none with ⟨n₂, _ | a₂⟩ <;>
    rw [h₁, h₂] at hm <;> dsimp only [Loc.Before] at hm ⊢
  · exact Or.inr ⟨rfl, by omega⟩
  · -- only the second byte has a break before it
    have hn₁ := (breaksBefore_none (show (breaksBefore o₁ ln.text.toList 0 0 none).2 = none by
      rw [h₁])).2
    rw [h₁] at hn₁
    have : n₂ ≠ 0 := fun h0 => by cases hm.2 (by omega)
    exact Or.inl (by omega)
  · have hn₂ := (breaksBefore_none (show (breaksBefore o₂ ln.text.toList 0 0 none).2 = none by
      rw [h₂])).2
    rw [h₂] at hn₂
    cases hm.2 (by omega)
  · rcases Nat.lt_or_ge n₁ n₂ with hlt | hge
    · exact Or.inl (by omega)
    · -- as many breaks before both: the same last break, and the columns differ
      cases hm.2 (by omega)
      have ha := breaksBefore_le (show (breaksBefore o₁ ln.text.toList 0 0 none).2 = some a₁ by
        rw [h₁])
      simp only [reduceCtorEq, false_or] at ha
      exact Or.inr ⟨by omega, by omega⟩

/-- Byte 0 of a logical line stands at the line's start. -/
theorem locAt_zero (ln : LogicalLine) : ln.locAt 0 = ln.start := by
  have h : breaksBefore 0 ln.text.toList 0 0 none = (0, none) := by
    cases ln.text.toList with
    | nil => rfl
    | cons c cs =>
      have := c.utf8Size_pos
      simp only [breaksBefore, if_neg (show ¬ 0 + c.utf8Size ≤ 0 by omega)]
  unfold locAt
  rw [h]
  rfl

end LogicalLine

/-! ## The statement locations of a tree and of the read lines -/

mutual
/-- The locations of a statement and of the statements of its bodies, in pre-order: a compound
statement before its bodies, `body` before `orelse`. A marker stands for what it wraps. -/
def Stmt.stmtLocs : Stmt → List (Option Loc)
  | .mk k l =>
    match k with
    | .withBlock _ _ b | .functionDef _ _ b _ | .classDef _ b _ | .whileLoop _ b
    | .forLoop _ _ b => l :: Stmt.stmtLocsList b
    | .ifElse _ b o => l :: (Stmt.stmtLocsList b ++ Stmt.stmtLocsList o)
    | .done ss => Stmt.stmtLocsList ss
    | .expr _ | .assign .. | .importModule .. | .importFrom .. | .ret _ | .assertion ..
    | .pass | .breakLoop | .continueLoop => [l]

/-- The statement locations of a statement list, in order. -/
def Stmt.stmtLocsList : List Stmt → List (Option Loc)
  | [] => []
  | s :: ss => s.stmtLocs ++ Stmt.stmtLocsList ss
end

/-- A statement without a body lists its own location only. -/
theorem Stmt.stmtLocs_of_isSimple {k : StmtKind} {l : Option Loc} (hk : k.IsSimple) :
    (Stmt.mk k l).stmtLocs = [l] := by
  cases k
  case withBlock | functionDef | classDef | ifElse | whileLoop | forLoop | done =>
    exact False.elim hk
  all_goals rfl

@[simp] theorem Stmt.stmtLocsList_nil : Stmt.stmtLocsList [] = [] := rfl

@[simp] theorem Stmt.stmtLocsList_cons (s : Stmt) (ss : List Stmt) :
    Stmt.stmtLocsList (s :: ss) = s.stmtLocs ++ Stmt.stmtLocsList ss := rfl

@[simp] theorem Stmt.stmtLocsList_append (ss ts : List Stmt) :
    Stmt.stmtLocsList (ss ++ ts) = Stmt.stmtLocsList ss ++ Stmt.stmtLocsList ts := by
  induction ss with
  | nil => rfl
  | cons s ss ih => simp only [List.cons_append, Stmt.stmtLocsList, ih, List.append_assoc]

namespace Syntax

/-- The statement locations a read line gives, in the order they stand on it: the statements
of a line of simple statements; a compound header's own start, then its inline statements; an
`else` header's inline statements only; nothing for a decorator. -/
def ReadLine.stmtLocs (rl : ReadLine) : List (Option Loc) :=
  match rl.item with
  | .simple ss => Stmt.stmtLocsList ss
  | .decorator _ => []
  | .header .elseClause inline => Stmt.stmtLocsList inline
  | .header _ inline => some rl.loc :: Stmt.stmtLocsList inline

theorem ReadLine.stmtLocs_simple {rl : ReadLine} {ss : List Stmt} (h : rl.item = .simple ss) :
    rl.stmtLocs = Stmt.stmtLocsList ss := by
  simp only [stmtLocs, h]

theorem ReadLine.stmtLocs_header {rl : ReadLine} {hd : Header} {inline : List Stmt}
    (h : rl.item = .header hd inline) (hne : hd ≠ .elseClause) :
    rl.stmtLocs = some rl.loc :: Stmt.stmtLocsList inline := by
  cases hd
  case elseClause => exact absurd rfl hne
  all_goals simp only [stmtLocs, h]

theorem ReadLine.stmtLocs_else {rl : ReadLine} {inline : List Stmt}
    (h : rl.item = .header .elseClause inline) : rl.stmtLocs = Stmt.stmtLocsList inline := by
  simp only [stmtLocs, h]

/-! ## The statements of one line -/

namespace LineReader

variable (lr : LineReader)

/-- A simple statement lists the location of the node it is read from. -/
theorem simpleStmt_locs (p : Node) : Ensures (fun s => s.stmtLocs = [lr.locOf p]) (lr.simpleStmt p) := by
  refine (lr.simpleStmt_shape p).mono fun s hs => ?_
  obtain ⟨k, rfl, -, hk⟩ := hs
  exact Stmt.stmtLocs_of_isSimple hk

/-- A run of simple statements lists the locations of its nodes, in order. -/
theorem simpleStmts_locs (p : Node) :
    Ensures (fun ss => Stmt.stmtLocsList ss = p.children.map lr.locOf) (lr.simpleStmts p) := by
  refine (Ensures.mapM_forall₂ _ fun q _ => lr.simpleStmt_locs q).mono fun ss h => ?_
  generalize p.children = qs at h ⊢
  induction h with
  | nil => rfl
  | cons hq _ ih => rw [List.map_cons, Stmt.stmtLocsList, hq, ih, List.singleton_append]

/-- A header's inline body is empty, or it is read from a significant child that is a run of
simple statements. -/
theorem header_inline (p : Node) :
    Ensures (fun r => r.2 = [] ∨ ∃ last ∈ significant p, last.rule = .simpleStmts ∧
      Stmt.stmtLocsList r.2 = last.children.map lr.locOf) (lr.header p) := by
  unfold header
  extract_lets parts e missing cont
  -- what follows the inline body passes it through unchanged
  have hcont : ∀ x : List Node × List Stmt, Ensures (fun r => r.2 = x.2) (cont x) := by
    rintro ⟨parts, inline⟩
    simp only [cont, e, pure_bind]
    split
    case h_3 | h_4 | h_5 | h_7 | h_8 => exact .bind .trivial fun _ _ => .pure rfl
    case h_1 | h_2 | h_6 => exact .pure rfl
    all_goals exact .throw _
  simp only [pure_bind]
  split
  · next last hlast =>
    split
    · next hrule =>
      refine (lr.simpleStmts_locs last).bind fun inline hin =>
        (hcont (parts.dropLast, inline)).mono fun r hr => ?_
      rw [hr]
      exact Or.inr ⟨last, List.mem_of_getLast? hlast, hrule, hin⟩
    · exact (hcont (parts, [])).mono fun r hr => Or.inl hr
  · exact (hcont (parts, [])).mono fun r hr => Or.inl hr

end LineReader

/-- The statement rules each consume at least one character. -/
theorem statements_consume : ∀ r ∈ (grammar.body .simpleStmts).heads, 0 < grammar.minLen 14 r := by
  decide

/-- The rule opens with a keyword that consumes at least one character. -/
def opensWithKeyword (r : Rule) : Bool :=
  match grammar.body r with
  | .seq (.call k) _ => k.isKeyword && decide (0 < grammar.minLen 2 k)
  | _ => false

/-- What a line holds: a decorator, a run of simple statements, or a header that opens with
its keyword. -/
theorem line_items : ∀ r ∈ (grammar.body .line).heads,
    r = .eoi ∨ r = .decorator ∨ r = .simpleStmts ∨ opensWithKeyword r = true := by
  decide

/-- The statements of a run of simple statements start one after another, none before it. -/
theorem simpleStmts_starts {q : Node} (hfit : grammar.NodeFits q)
    (hc : Laid grammar q.start q.stop q.children) (hrule : q.rule = .simpleStmts) :
    q.children.Pairwise (fun a b => a.start < b.start) ∧ ∀ c ∈ q.children, q.start ≤ c.start := by
  refine ⟨hc.starts_increase fun c hcm => ⟨14, ?_⟩, fun c hcm => (hc.of_mem hcm).1⟩
  have hhead := hfit.heads c hcm
  rw [hrule] at hhead
  exact statements_consume c.rule hhead

/-- Past the keyword of a header, every other child starts after the header does. -/
theorem start_lt_of_opensWithKeyword {p : Node} (hfit : grammar.NodeFits p)
    (hkw : opensWithKeyword p.rule = true) {q : Node} (hq : q ∈ p.children)
    (hnk : q.rule.isKeyword = false) : p.start < q.start := by
  unfold opensWithKeyword at hkw
  split at hkw
  · next k rest hbody =>
    simp only [Bool.and_eq_true, decide_eq_true_eq] at hkw
    obtain ⟨pa, pb, hsplit, hpa, hpb⟩ := hfit.split _ _ hbody
    rw [hsplit] at hq
    rcases List.mem_append.mp hq with hq | hq
    · -- the keyword's part of the sequence leaves only the keyword's node
      have hk : q.rule = k := List.mem_singleton.mp (hpa q hq)
      rw [hk, hkw.1] at hnk
      cases hnk
    · have := hpb q hq 2
      simp only [PExpr.minLenWith] at this
      omega
  · cases hkw

/-- The statements inline after a header that opens with a keyword stand at increasing
offsets of the line, all past the keyword and so past byte 0. -/
theorem inline_offsets {lr : LineReader} {item : Node} {inline : List Stmt}
    (hfit : grammar.NodeFits item) (hc : Laid grammar item.start item.stop item.children)
    (hkw : opensWithKeyword item.rule = true)
    (hr : inline = [] ∨ ∃ last ∈ LineReader.significant item, last.rule = .simpleStmts ∧
      Stmt.stmtLocsList inline = last.children.map lr.locOf) :
    ∃ offs : List Nat, offs.Pairwise (· < ·) ∧ (∀ o ∈ offs, 0 < o) ∧
      Stmt.stmtLocsList inline = offs.map fun o => some (lr.line.locAt o) := by
  rcases hr with rfl | ⟨last, hlast, hrule, hlocs⟩
  · exact ⟨[], .nil, fun _ h => absurd h List.not_mem_nil, rfl⟩
  · obtain ⟨hlastc, hnk⟩ := List.mem_filter.mp hlast
    obtain ⟨-, -, hlfit, hlc⟩ := hc.of_mem hlastc
    obtain ⟨hinc, hge⟩ := simpleStmts_starts hlfit hlc hrule
    have hpos := start_lt_of_opensWithKeyword hfit hkw hlastc (by simpa using hnk)
    refine ⟨last.children.map Pair.start, List.pairwise_map.mpr hinc, ?_, ?_⟩
    · intro o ho
      obtain ⟨c, hcm, rfl⟩ := List.mem_map.mp ho
      have := hge c hcm
      omega
    · rw [hlocs, List.map_map]
      rfl

/-- The statement locations of a read line are those of bytes of the line, in increasing order. -/
theorem readLine_locs (file : String) (ln : LogicalLine) :
    Ensures (fun rl : ReadLine => rl.loc = ln.start ∧ ∃ offs : List Nat, offs.Pairwise (· < ·) ∧
      rl.stmtLocs = offs.map fun o => some (ln.locAt o)) (readLine file ln) := by
  unfold readLine
  dsimp only
  simp only [pure_bind]
  split
  · exact .throw _
  · next nodes hparse =>
    obtain ⟨hlaid, hrules⟩ := Grammar.parse_laid hparse
    split
    · next l rest =>
      obtain ⟨-, -, hlfit, hlc⟩ := hlaid.of_mem List.mem_cons_self
      have hlrule := hrules l List.mem_cons_self
      split
      · next item hfind =>
        have hitem := List.mem_of_find?_eq_some hfind
        obtain ⟨-, -, hifit, hic⟩ := hlc.of_mem hitem
        have hkind := line_items item.rule (by rw [← hlrule]; exact hlfit.heads item hitem)
        split
        · -- a decorator gives no statement
          exact .bind .trivial fun _ _ => .bind .trivial fun _ _ => .pure ⟨rfl, [], .nil, rfl⟩
        · next hrule =>
          obtain ⟨hinc, -⟩ := simpleStmts_starts hifit hic hrule
          refine (LineReader.simpleStmts_locs ⟨ln, file⟩ item).bind fun ss hss => .pure ?_
          refine ⟨rfl, item.children.map Pair.start, List.pairwise_map.mpr hinc, ?_⟩
          rw [ReadLine.stmtLocs_simple rfl, hss, List.map_map]
          rfl
        · next hdec hsimple =>
          have hne := List.find?_some hfind
          have hkw : opensWithKeyword item.rule = true := by
            simp only [decide_eq_true_eq] at hne
            rcases hkind with h | h | h | h
            · exact absurd h hne
            · exact absurd h hdec
            · exact absurd h hsimple
            · exact h
          refine (LineReader.header_inline ⟨ln, file⟩ item).bind fun r hr => ?_
          obtain ⟨hd, inline⟩ := r
          dsimp only at hr
          obtain ⟨offs, hinc, hpos, hlocs⟩ := inline_offsets hifit hic hkw hr
          refine .pure ⟨rfl, ?_⟩
          by_cases hh : hd = .elseClause
          · subst hh
            exact ⟨offs, hinc, by rw [ReadLine.stmtLocs_else rfl, hlocs]⟩
          · refine ⟨0 :: offs, List.Pairwise.cons hpos hinc, ?_⟩
            rw [ReadLine.stmtLocs_header rfl hh, hlocs, List.map_cons, LogicalLine.locAt_zero]
      · exact .throw _
    · exact .throw _

/-! ## The lines the block readers use up -/

/-- Reading went from `lines` down to `rest`, and the locations `built` are `pre` followed by
those of the lines used up, in order. -/
def ReadsOn (lines rest : List ReadLine) (pre built : List (Option Loc)) : Prop :=
  ∃ used, lines = used ++ rest ∧ built = pre ++ used.flatMap ReadLine.stmtLocs

theorem ReadsOn.refl (lines : List ReadLine) (pre : List (Option Loc)) :
    ReadsOn lines lines pre pre :=
  ⟨[], rfl, by simp⟩

theorem ReadsOn.trans {a b c : List ReadLine} {pre mid built : List (Option Loc)}
    (h₁ : ReadsOn a b pre mid) (h₂ : ReadsOn b c mid built) : ReadsOn a c pre built := by
  obtain ⟨u₁, rfl, rfl⟩ := h₁
  obtain ⟨u₂, rfl, rfl⟩ := h₂
  exact ⟨u₁ ++ u₂, by simp, by simp⟩

theorem ReadsOn.cons {ln : ReadLine} {rest rest' : List ReadLine} {pre built : List (Option Loc)}
    (h : ReadsOn rest rest' (pre ++ ln.stmtLocs) built) : ReadsOn (ln :: rest) rest' pre built := by
  obtain ⟨used, rfl, rfl⟩ := h
  exact ⟨ln :: used, rfl, by simp⟩

theorem ReadsOn.prepend {a b : List ReadLine} {pre built : List (Option Loc)}
    (x : List (Option Loc)) (h : ReadsOn a b pre built) : ReadsOn a b (x ++ pre) (x ++ built) := by
  obtain ⟨used, rfl, rfl⟩ := h
  exact ⟨used, rfl, by simp⟩

/-- A line whose locations are `head` and then those of `inline`, followed by lines that turn
`inline` into `body`, turns into `head` and then the locations of `body`. -/
theorem ReadsOn.line (pre head : List (Option Loc)) {ln : ReadLine} {rest rest' : List ReadLine}
    {inline body : List Stmt} (hln : ln.stmtLocs = head ++ Stmt.stmtLocsList inline)
    (h : ReadsOn rest rest' (Stmt.stmtLocsList inline) (Stmt.stmtLocsList body)) :
    ReadsOn (ln :: rest) rest' pre (pre ++ head ++ Stmt.stmtLocsList body) := by
  obtain ⟨used, rfl, hbody⟩ := h
  exact ⟨ln :: used, rfl, by simp [hln, hbody]⟩

/-- The locations an if-chain clause gives: its header's, then its body's. -/
def clauseLocs (c : Expr × List Stmt × Loc) : List (Option Loc) :=
  some c.2.2 :: Stmt.stmtLocsList c.2.1

theorem stmtLocsList_nestClauses (orelse : List Stmt) (cs : List (Expr × List Stmt × Loc)) :
    Stmt.stmtLocsList (nestClauses orelse cs) =
      cs.flatMap clauseLocs ++ Stmt.stmtLocsList orelse := by
  induction cs with
  | nil => rfl
  | cons c cs ih =>
    obtain ⟨test, body, loc⟩ := c
    simp only [nestClauses, Stmt.stmtLocsList, Stmt.stmtLocs, ih, clauseLocs, List.flatMap_cons,
      List.append_nil, List.cons_append, List.append_assoc]

theorem nestClauses_of_ne_nil (orelse : List Stmt) {cs : List (Expr × List Stmt × Loc)}
    (h : cs ≠ []) : ∃ s, nestClauses orelse cs = [s] := by
  cases cs with
  | nil => exact absurd rfl h
  | cons c cs =>
    obtain ⟨test, body, loc⟩ := c
    exact ⟨_, rfl⟩

/-- A compound statement lists its header's location, then its body's statements. -/
theorem compound_locs (h : Header) (body : List Stmt) (decs : List Expr) (loc : Loc) :
    Ensures (fun s => h ≠ .elseClause ∧ s.stmtLocs = some loc :: Stmt.stmtLocsList body)
      (compound h body decs loc) := by
  cases h with
  | defn | classDef | withItem | whileTest | forEach => exact .pure ⟨(fun h => by cases h), rfl⟩
  | ifTest | elifTest | elseClause => exact .throw _

section Blocks

variable (file : String)

/-- The block readers, at fuel `n`, list in what they build the locations of the lines they use
up, in order; a block stops only at a shallower line. -/
structure BuildsInOrder (n : Nat) : Prop where
  block : ∀ indent lines (acc : Array Stmt), Ensures (fun r =>
    ReadsOn lines r.2 (Stmt.stmtLocsList acc.toList) (Stmt.stmtLocsList r.1) ∧
      ∀ ln ∈ r.2.head?, ln.indent < indent) (Syntax.block file n indent lines acc)
  suite : ∀ ln inline indent rest, Ensures (fun r =>
    ReadsOn rest r.2 (Stmt.stmtLocsList inline) (Stmt.stmtLocsList r.1))
      (Syntax.suite file n ln inline indent rest)
  decorated : ∀ indent lines (decs : Array Expr),
    Ensures (fun r => ReadsOn lines r.2 [] r.1.stmtLocs) (Syntax.decorated file n indent lines decs)
  finishDecorated : ∀ indent lines (decs : Array Expr), Ensures (fun r =>
    ReadsOn lines r.2 [] r.1.stmtLocs) (Syntax.finishDecorated file n indent lines decs)
  ifChain : ∀ indent lines (clauses : Array (Expr × List Stmt × Loc)), Ensures (fun r =>
    ReadsOn lines r.2 (clauses.toList.flatMap clauseLocs) r.1.stmtLocs)
      (Syntax.ifChain file n indent lines clauses)

theorem buildsInOrder_zero : BuildsInOrder file 0 where
  block _ _ _ := by rw [Syntax.block]; exact .throw _
  suite _ _ _ _ := by rw [Syntax.suite]; exact .throw _
  decorated _ _ _ := by rw [Syntax.decorated]; exact .throw _
  finishDecorated _ _ _ := by rw [Syntax.finishDecorated]; exact .throw _
  ifChain _ _ _ := by rw [Syntax.ifChain]; exact .throw _

section Succ
variable {file} {n : Nat} (ih : BuildsInOrder file n)
include ih

theorem BuildsInOrder.block_succ (indent : Nat) (lines : List ReadLine) (acc : Array Stmt) :
    Ensures (fun r => ReadsOn lines r.2 (Stmt.stmtLocsList acc.toList) (Stmt.stmtLocsList r.1) ∧
      ∀ ln ∈ r.2.head?, ln.indent < indent) (Syntax.block file (n + 1) indent lines acc) := by
  cases lines with
  | nil =>
    rw [Syntax.block]
    exact .pure ⟨.refl _ _, fun _ h => absurd h (by simp)⟩
  | cons ln rest =>
    rw [Syntax.block]
    split
    · next hlt =>
      refine .pure ⟨.refl _ _, fun l hl => ?_⟩
      rw [List.head?_cons, Option.mem_some_iff] at hl
      exact hl ▸ hlt
    split
    · exact .throw _
    split
    case h_1 ss heq =>
      refine (ih.block _ _ _).mono fun r hr => ⟨ReadsOn.cons ?_, hr.2⟩
      rw [ReadLine.stmtLocs_simple heq]
      simpa using hr.1
    case h_2 =>
      refine (ih.decorated _ _ _).bind fun r hr => ?_
      obtain ⟨s, rest'⟩ := r
      refine (ih.block _ _ _).mono fun r' hr' => ⟨?_, hr'.2⟩
      have h₁ := hr.prepend (Stmt.stmtLocsList acc.toList)
      rw [List.append_nil] at h₁
      exact h₁.trans (by simpa using hr'.1)
    case h_3 =>
      refine (ih.ifChain _ _ _).bind fun r hr => ?_
      obtain ⟨s, rest'⟩ := r
      refine (ih.block _ _ _).mono fun r' hr' => ⟨?_, hr'.2⟩
      have h₁ := hr.prepend (Stmt.stmtLocsList acc.toList)
      simp only [List.flatMap_nil, List.append_nil] at h₁
      exact h₁.trans (by simpa using hr'.1)
    case h_4 | h_5 => exact .throw _
    case h_6 h inline _ _ _ heq =>
      refine (ih.suite _ _ _ _).bind fun r hr => ?_
      obtain ⟨body, rest'⟩ := r
      refine (compound_locs _ _ _ _).bind fun s hs => (ih.block _ _ _).mono fun r' hr' => ⟨?_, hr'.2⟩
      have h₁ := ReadsOn.line (Stmt.stmtLocsList acc.toList) [some ln.loc]
        (by rw [ReadLine.stmtLocs_header heq hs.1]; rfl) hr
      refine h₁.trans ?_
      simpa [hs.2] using hr'.1

theorem BuildsInOrder.suite_succ (ln : ReadLine) (inline : List Stmt) (indent : Nat)
    (rest : List ReadLine) : Ensures (fun r =>
      ReadsOn rest r.2 (Stmt.stmtLocsList inline) (Stmt.stmtLocsList r.1))
      (Syntax.suite file (n + 1) ln inline indent rest) := by
  cases rest with
  | nil =>
    rw [Syntax.suite]
    split
    · exact .pure (.refl _ _)
    · exact .throw _
  | cons next tail =>
    rw [Syntax.suite]
    split
    · exact .pure (.refl _ _)
    rename_i hempty
    split
    · -- no inline body: the deeper block that follows is the body
      have hnil : inline = [] := by simpa using hempty
      subst hnil
      exact (ih.block _ _ _).mono fun r hr => by simpa using hr.1
    · exact .throw _

theorem BuildsInOrder.finishDecorated_succ (indent : Nat) (lines : List ReadLine)
    (decs : Array Expr) : Ensures (fun r => ReadsOn lines r.2 [] r.1.stmtLocs)
      (Syntax.finishDecorated file (n + 1) indent lines decs) := by
  cases lines with
  | nil => rw [Syntax.finishDecorated]; exact .throw _
  | cons ln rest =>
    rw [Syntax.finishDecorated]
    split
    · exact .throw _
    split
    case h_1 h inline heq =>
      split
      case h_1 | h_2 =>
        refine (ih.suite _ _ _ _).bind fun r hr => ?_
        obtain ⟨body, rest'⟩ := r
        refine (compound_locs _ _ _ _).bind fun s hs => .pure ?_
        have h₁ := ReadsOn.line [] [some ln.loc] (by rw [ReadLine.stmtLocs_header heq hs.1]; rfl) hr
        simpa [hs.2] using h₁
      case h_3 => exact .throw _
    case h_2 => exact .throw _

theorem BuildsInOrder.decorated_succ (indent : Nat) (lines : List ReadLine) (decs : Array Expr) :
    Ensures (fun r => ReadsOn lines r.2 [] r.1.stmtLocs)
      (Syntax.decorated file (n + 1) indent lines decs) := by
  rw [Syntax.decorated.eq_def]
  dsimp only
  split
  case h_1 loc i e rest =>
    split
    · -- a decorator line gives no location
      exact (ih.decorated _ _ _).mono fun r hr => ReadsOn.cons hr
    · exact ih.finishDecorated _ _ _
  case h_2 => exact ih.finishDecorated _ _ _

theorem BuildsInOrder.ifChain_succ (indent : Nat) (lines : List ReadLine)
    (clauses : Array (Expr × List Stmt × Loc)) : Ensures (fun r =>
      ReadsOn lines r.2 (clauses.toList.flatMap clauseLocs) r.1.stmtLocs)
      (Syntax.ifChain file (n + 1) indent lines clauses) := by
  rw [Syntax.ifChain.eq_def]
  dsimp -zeta only
  extract_lets finish
  -- the chain is closed by nesting its clauses over the `else` branch
  have hfinish : ∀ orelse rest, (clauses.toList = [] → orelse = []) →
      ReadsOn lines rest (clauses.toList.flatMap clauseLocs)
        (clauses.toList.flatMap clauseLocs ++ Stmt.stmtLocsList orelse) →
      Ensures (fun r => ReadsOn lines r.2 (clauses.toList.flatMap clauseLocs) r.1.stmtLocs)
        (finish orelse rest) := by
    intro orelse rest hempty hreads
    simp only [finish]
    split
    case h_1 s more heq =>
      by_cases hcl : clauses.toList = []
      · rw [hcl, hempty hcl] at heq
        cases heq
      · obtain ⟨s', hs'⟩ := nestClauses_of_ne_nil orelse hcl
        have hlocs := stmtLocsList_nestClauses orelse clauses.toList
        rw [hs'] at heq hlocs
        obtain ⟨rfl, rfl⟩ := List.cons.inj heq
        simp only [Stmt.stmtLocsList_cons, Stmt.stmtLocsList_nil, List.append_nil] at hlocs
        refine .pure ?_
        show ReadsOn lines rest _ s'.stmtLocs
        rw [hlocs]
        exact hreads
    case h_2 => exact .throw _
  -- a clause read here joins the chain with its header's and its body's locations
  have hclause : ∀ {ln : ReadLine} {rest rest' : List ReadLine} {test : Expr} {inline body : List Stmt},
      ln.stmtLocs = [some ln.loc] ++ Stmt.stmtLocsList inline →
      ReadsOn rest rest' (Stmt.stmtLocsList inline) (Stmt.stmtLocsList body) →
      ReadsOn (ln :: rest) rest' (clauses.toList.flatMap clauseLocs)
        ((clauses.push (test, body, ln.loc)).toList.flatMap clauseLocs) := by
    intro ln rest rest' test inline body hln hr
    have h₁ := ReadsOn.line (clauses.toList.flatMap clauseLocs) _ hln hr
    simpa [clauseLocs] using h₁
  have hstay : ReadsOn lines lines (clauses.toList.flatMap clauseLocs)
      (clauses.toList.flatMap clauseLocs ++ Stmt.stmtLocsList []) := by
    simpa using ReadsOn.refl lines (clauses.toList.flatMap clauseLocs)
  split
  · exact hfinish _ _ (fun _ => rfl) hstay
  rename_i ln rest
  split
  · exact hfinish _ _ (fun _ => rfl) hstay
  split
  -- an if clause, which opens the chain, and an elif clause, which continues it, read on alike
  case h_1 test inline heq | h_2 test inline heq =>
    split
    · refine (ih.suite _ _ _ _).bind fun r hr => ?_
      obtain ⟨body, rest'⟩ := r
      exact (ih.ifChain _ _ _).mono fun r' hr' =>
        (hclause (by rw [ReadLine.stmtLocs_header heq (fun h => by cases h)]; rfl) hr).trans hr'
    · exact hfinish _ _ (fun _ => rfl) hstay
  case h_3 inline heq =>
    split
    · next hne =>
      refine (ih.suite _ _ _ _).bind fun r hr => ?_
      obtain ⟨orelse, rest'⟩ := r
      refine hfinish _ _ (fun h => absurd h (by simpa using hne)) ?_
      have h₁ := ReadsOn.line (clauses.toList.flatMap clauseLocs) []
        (by rw [ReadLine.stmtLocs_else heq]; rfl) hr
      simpa using h₁
    · exact hfinish _ _ (fun _ => rfl) hstay
  case h_4 => exact hfinish _ _ (fun _ => rfl) hstay

end Succ

/-- At every fuel, the block readers list the locations of the lines they use up. -/
theorem buildsInOrder : ∀ n, BuildsInOrder file n
  | 0 => buildsInOrder_zero file
  | n + 1 =>
    have ih := buildsInOrder n
    ⟨ih.block_succ, ih.suite_succ, ih.decorated_succ, ih.finishDecorated_succ, ih.ifChain_succ⟩

end Blocks

/-- Lines that follow one another in the text, each giving increasing locations of its own
bytes, give increasing locations all together. -/
theorem ordered_of_lines {lines : List LogicalLine} {read : List ReadLine}
    (hsorted : lines.Pairwise (fun a b => a.lastLine < b.line))
    (h : List.Forall₂ (fun ln rl => ∃ offs : List Nat, offs.Pairwise (· < ·) ∧
      rl.stmtLocs = offs.map fun o => some (ln.locAt o)) lines read) :
    ∃ locs : List Loc, read.flatMap ReadLine.stmtLocs = locs.map some ∧
      locs.Pairwise Loc.Before ∧ ∀ l ∈ locs, ∃ ln ∈ lines, ln.line ≤ l.line := by
  induction h with
  | nil => exact ⟨[], rfl, .nil, fun _ h => absurd h List.not_mem_nil⟩
  | cons hhead htail ih =>
    rename_i ln rl lns rs
    obtain ⟨hfirst, hrest⟩ := List.pairwise_cons.mp hsorted
    obtain ⟨offs, hoffs, hrl⟩ := hhead
    obtain ⟨locs, hlocs, hpair, hlines⟩ := ih hrest
    refine ⟨offs.map ln.locAt ++ locs, ?_, ?_, ?_⟩
    · simp [List.flatMap_cons, hrl, hlocs]
    · refine List.pairwise_append.mpr ⟨?_, hpair, ?_⟩
      · exact List.Pairwise.map ln.locAt (fun a b hab => ln.locAt_before hab) hoffs
      · -- a location of this line stands on a line before every later line's
        intro a ha b hb
        obtain ⟨o, -, rfl⟩ := List.mem_map.mp ha
        obtain ⟨ln', hln', hle⟩ := hlines b hb
        have hsep := hfirst ln' hln'
        have := ln.locAt_line_le_lastLine o
        exact Or.inl (by omega)
    · intro l hl
      rcases List.mem_append.mp hl with hl | hl
      · obtain ⟨o, -, rfl⟩ := List.mem_map.mp hl
        exact ⟨ln, List.mem_cons_self, ln.line_le_locAt o⟩
      · obtain ⟨ln', hln', hle⟩ := hlines l hl
        exact ⟨ln', List.mem_cons_of_mem _ hln', hle⟩

/-- Reading a file lists the statements' locations as its logical lines give them, and in
increasing order. -/
theorem readModule_in_order (source file : String) :
    Ensures (fun m : Module => ∃ lines read, splitLogicalLines source file = .ok lines ∧
      lines.mapM (readLine file) = .ok read ∧
      List.Forall₂ (fun ln rl => rl.loc = ln.start) lines read ∧
      Stmt.stmtLocsList m.body = read.flatMap ReadLine.stmtLocs ∧
      ∃ locs : List Loc, Stmt.stmtLocsList m.body = locs.map some ∧ locs.Pairwise Loc.Before)
      (readModule source file) := by
  unfold readModule
  refine Ensures.bind (Q := fun lines => splitLogicalLines source file = .ok lines)
    (fun _ h => h) fun lines hlines => ?_
  refine Ensures.bind (Q := fun read => lines.mapM (readLine file) = .ok read)
    (fun _ h => h) fun read hread => ?_
  refine ((buildsInOrder file _).block _ _ _).bind fun r hr => ?_
  obtain ⟨body, rest⟩ := r
  obtain ⟨hreads, hstop⟩ := hr
  -- no line is shallower than indentation 0, so the top block uses up every line
  have hrest : rest = [] := by
    cases rest with
    | nil => rfl
    | cons l _ => exact absurd (hstop l rfl) (Nat.not_lt_zero _)
  subst hrest
  obtain ⟨used, hused, hlocs⟩ := hreads
  rw [List.append_nil] at hused
  rw [← hused] at hlocs
  have hfits := Ensures.mapM_forall₂ _ (fun ln _ => readLine_locs file ln) read hread
  obtain ⟨hsorted, -⟩ := splitLogicalLines_fit hlines
  obtain ⟨locs, hflat, hpair, -⟩ := ordered_of_lines hsorted (hfits.imp fun _ _ h => h.2)
  have hbody : Stmt.stmtLocsList body = read.flatMap ReadLine.stmtLocs := by simpa using hlocs
  exact .pure ⟨lines, read, hlines, hread, hfits.imp fun _ _ h => h.1, hbody, locs,
    hbody.trans hflat, hpair⟩

end Syntax

/-- A parsed module is located and free of markers, and its statements' locations, in
pre-order, are those its logical lines give, in order: each a location of the text, strictly
after the one before. -/
theorem parseModule_statements_in_order {source file : String} {m : Module}
    (h : Syntax.parseModule source file = .ok m) :
    (Stmt.markerLocsList m.body = [] ∧ Stmt.missingLocsList m.body = []) ∧
    ∃ lines read, splitLogicalLines source file = .ok lines ∧
      lines.mapM (Syntax.readLine file) = .ok read ∧
      List.Forall₂ (fun ln rl => rl.loc = ln.start) lines read ∧
      Stmt.stmtLocsList m.body = read.flatMap Syntax.ReadLine.stmtLocs ∧
      ∃ locs : List Loc, Stmt.stmtLocsList m.body = locs.map some ∧ locs.Pairwise Loc.Before :=
  ⟨Syntax.parseModule_clean h, Ensures.mapError _ (Syntax.readModule_in_order source file) m h⟩

/-- The module that reading `if a: b`, then `else: c`, gives. -/
def ifElseModule : Module :=
  ⟨[.mk (.ifElse (.mk (.name "a") (some ⟨1, 3⟩))
      [.mk (.expr (.mk (.name "b") (some ⟨1, 6⟩))) (some ⟨1, 6⟩)]
      [.mk (.expr (.mk (.name "c") (some ⟨2, 6⟩))) (some ⟨2, 6⟩)]) (some ⟨1, 0⟩)]⟩

set_option maxRecDepth 8000 in
theorem parseModule_if_else_in_order :
    Syntax.parseModule "if a: b\nelse: c\n" "t.trl" = .ok ifElseModule ∧
    (Stmt.markerLocsList ifElseModule.body = [] ∧ Stmt.missingLocsList ifElseModule.body = []) ∧
    ∃ lines read, splitLogicalLines "if a: b\nelse: c\n" "t.trl" = .ok lines ∧
      lines.mapM (Syntax.readLine "t.trl") = .ok read ∧
      List.Forall₂ (fun ln rl => rl.loc = ln.start) lines read ∧
      Stmt.stmtLocsList ifElseModule.body = read.flatMap Syntax.ReadLine.stmtLocs ∧
      ∃ locs : List Loc, Stmt.stmtLocsList ifElseModule.body = locs.map some ∧
        locs.Pairwise Loc.Before := by
  have h : Syntax.parseModule "if a: b\nelse: c\n" "t.trl" = .ok ifElseModule := by cbv
  exact ⟨h, parseModule_statements_in_order h⟩

end Espalier
