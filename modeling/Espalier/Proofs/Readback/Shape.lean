import Espalier.Proofs.Readback.Normal

/-!
# The shape of printed expressions

Facts about the text `Expr.print` writes that reading it back depends on:

* parentheses: an expression is wrapped exactly where it binds looser than its position
  requires (`Expr.print_of_lt`, `Expr.print_of_le`);
* operator chains: printed at a binary level, an expression is its leftmost operand and the
  links after it, each operand one level tighter (`Expr.chainAt`, `Expr.print_chainAt`); the
  reader folds such a chain back to the left (`Expr.foldOps_chainAt`);
* postfix expressions: a base and the calls, subscripts and attributes after it
  (`Expr.trailers`, `Expr.print_trailers`);
* how the text begins (`Expr.opening`, `Expr.opening_begins`, `Expr.opening_allowed`): never
  with `lambda` where a tighter expression is required, never with `not` above the logical
  levels, never with a sign where a postfix expression is required, and never with a keyword
  that opens a statement;
* how the text ends (`Expr.print_endsToken`): with an identifier character, a quote or a
  closing bracket, never with a blank or a comma.
-/

namespace Espalier

open Syntax

/-! ## Parentheses -/

theorem Expr.print_of_lt {e : Expr} (he : e.NotMarker) {q : Nat} (h : e.prec < q) :
    e.print q = "(" ++ e.print 0 ++ ")" := by
  rw [Expr.print_eq_wrap he, if_pos h]

theorem Expr.print_of_le {e : Expr} (he : e.NotMarker) {q : Nat} (h : q ≤ e.prec) :
    e.print q = e.print 0 := by
  rw [Expr.print_eq_wrap he, if_neg (by omega)]

/-- Two positions print a node alike when it is wrapped in both or in neither. -/
theorem Expr.print_eq_print {e : Expr} (he : e.NotMarker) (q q' : Nat)
    (h : e.prec < q ↔ e.prec < q') : e.print q = e.print q' := by
  rw [Expr.print_eq_wrap he q, Expr.print_eq_wrap he q']
  by_cases hq : e.prec < q
  · rw [if_pos hq, if_pos (h.mp hq)]
  · rw [if_neg hq, if_neg (fun h' => hq (h.mpr h'))]

/-! ## Operator chains -/

/-- The binding levels of the binary operators. -/
def BinaryLevel (P : Nat) : Prop := P = 1 ∨ P = 2 ∨ P = 4 ∨ P = 5 ∨ P = 6

/-- An expression read as a chain of operators of precedence `P`: its leftmost operand that is
not itself such a chain, then each operator with its right operand, left to right. An
expression that is no such chain is its own leftmost operand. -/
def Expr.chainAt (P : Nat) : Expr → Expr × List (BinOp × Expr)
  | e@(.mk (.binOp op l r) _) =>
      if op.precedence = P then ((l.chainAt P).1, (l.chainAt P).2 ++ [(op, r)]) else (e, [])
  | e => (e, [])

/-- The text of one link of a chain: an operator between blanks, then its right operand. -/
def linkText (P : Nat) (x : BinOp × Expr) : List Char :=
  (" " ++ x.1.symbol ++ " " ++ x.2.print (P + 1)).toList

theorem Expr.chainAt_binOp {P : Nat} {op : BinOp} {l r : Expr} {loc : Option Loc}
    (h : op.precedence = P) :
    (Expr.mk (.binOp op l r) loc).chainAt P = ((l.chainAt P).1, (l.chainAt P).2 ++ [(op, r)]) := by
  rw [Expr.chainAt, if_pos h]

theorem Expr.chainAt_of_not {P : Nat} {e : Expr}
    (h : ∀ op l r loc, e = .mk (.binOp op l r) loc → op.precedence ≠ P) : e.chainAt P = (e, []) := by
  obtain ⟨k, loc⟩ := e
  cases k with
  | binOp op l r => rw [Expr.chainAt, if_neg (h op l r loc rfl)]
  | _ => rfl


theorem Expr.NotMarker.of_printable {e : Expr} (he : e.printable = true) : e.NotMarker := by
  rintro inner l rfl
  simp [Expr.printable] at he

/-- At a binary level, the nodes that bind exactly there are the operators of that level. -/
theorem Expr.prec_eq_binary {e : Expr} (he : e.NotMarker) {P : Nat} (hP : BinaryLevel P)
    (h : e.prec = P) : ∃ op l r loc, e = .mk (.binOp op l r) loc ∧ op.precedence = P := by
  obtain ⟨k, loc⟩ := e
  unfold BinaryLevel at hP
  cases k with
  | binOp op l r => exact ⟨op, l, r, loc, rfl, by simpa [Expr.prec] using h⟩
  | done inner => exact absurd rfl (he inner loc)
  | const c =>
    cases c with
    | int n => by_cases hn : n < 0 <;> simp [Expr.prec, hn] at h <;> omega
    | _ => simp [Expr.prec] at h; omega
  | unaryOp op a => cases op <;> simp [Expr.prec] at h <;> omega
  | _ => simp [Expr.prec] at h; omega

/-- Outside a chain of its own level, an operand prints alike at that level and one tighter. -/
theorem Expr.print_succ_of_not_chain {e : Expr} (he : e.NotMarker) {P : Nat} (hP : BinaryLevel P)
    (h : ∀ op l r loc, e = .mk (.binOp op l r) loc → op.precedence ≠ P) :
    e.print P = e.print (P + 1) := by
  have hne : e.prec ≠ P := by
    intro hp
    obtain ⟨op, l, r, loc, rfl, hop⟩ := Expr.prec_eq_binary he hP hp
    exact h op l r loc rfl hop
  exact Expr.print_eq_print he P (P + 1) (by omega)

/-- Printed at a binary level, a chain is its leftmost operand and its links, each operand
printed one level tighter. -/
theorem Expr.print_chainAt {P : Nat} (hP : BinaryLevel P) : ∀ e : Expr, e.printable = true →
    (e.print P).toList = ((e.chainAt P).1.print (P + 1)).toList ++ (e.chainAt P).2.flatMap (linkText P)
  | .mk k loc, he => by
    -- a node that is no chain of this level is its own leftmost operand
    have single : (∀ op l r loc', Expr.mk k loc = .mk (.binOp op l r) loc' → op.precedence ≠ P) →
        ((Expr.mk k loc).print P).toList = (((Expr.mk k loc).chainAt P).1.print (P + 1)).toList ++
          ((Expr.mk k loc).chainAt P).2.flatMap (linkText P) := by
      intro h
      rw [Expr.chainAt_of_not h, Expr.print_succ_of_not_chain (.of_printable he) hP h]
      simp
    cases k with
    | binOp op l r =>
      by_cases hop : op.precedence = P
      · have hl : l.printable = true := by simp [Expr.printable] at he; exact he.1
        rw [Expr.chainAt_binOp hop, List.flatMap_append, ← List.append_assoc,
          ← Expr.print_chainAt hP l hl, Expr.print_of_le (.of_printable he) (by simp [Expr.prec, hop])]
        simp [Expr.print, linkText, hop]
      · exact single (by rintro op' l' r' loc' ⟨⟩; exact hop)
    | _ => exact single (by rintro op' l' r' loc' ⟨⟩)


section Chains
variable {P : Nat}

/-- The parts of a printable chain are printable, and its operators are of its level. -/
theorem Expr.chainAt_printable : ∀ e : Expr, e.printable = true →
    (e.chainAt P).1.printable = true ∧ ∀ x ∈ (e.chainAt P).2, x.1.precedence = P ∧ x.2.printable = true
  | .mk k loc, he => by
    cases k with
    | binOp op l r =>
      by_cases hop : op.precedence = P
      · simp only [Expr.printable, Bool.and_eq_true] at he
        obtain ⟨hh, hps⟩ := Expr.chainAt_printable l he.1
        rw [Expr.chainAt_binOp hop]
        refine ⟨hh, fun x hx => ?_⟩
        rcases List.mem_append.mp hx with hx | hx
        · exact hps x hx
        · simp only [List.mem_singleton] at hx
          subst hx
          exact ⟨hop, he.2⟩
      · rw [Expr.chainAt_of_not (by rintro op' l' r' loc' ⟨⟩; exact hop)]
        simpa using he
    | _ => simpa [Expr.chainAt] using he

/-- The parts of a chain are smaller than the chain. -/
theorem Expr.sizeOf_chainAt : ∀ e : Expr,
    sizeOf (e.chainAt P).1 ≤ sizeOf e ∧ ∀ x ∈ (e.chainAt P).2, sizeOf x.2 < sizeOf e := by
  intro e
  induction e using Expr.chainAt.induct P with
  | case1 op l r loc hop ih =>
    obtain ⟨hh, hps⟩ := ih
    rw [Expr.chainAt_binOp hop]
    refine ⟨by simp; omega, fun x hx => ?_⟩
    rcases List.mem_append.mp hx with hx | hx
    · have := hps x hx
      simp
      omega
    · simp only [List.mem_singleton] at hx
      subst hx
      simp
      omega
  | case2 op l r loc hop =>
    rw [Expr.chainAt_of_not (by rintro op' l' r' loc' ⟨⟩; exact hop)]
    simp
  | case3 e hne =>
    rw [Expr.chainAt_of_not fun op l r loc h => (hne op l r loc h).elim]
    simp

/-- The leftmost operand of a chain of at least one link is smaller than the chain. -/
theorem Expr.sizeOf_chainAt_head {op : BinOp} {l r : Expr} {loc : Option Loc}
    (hop : op.precedence = P) : sizeOf ((Expr.mk (.binOp op l r) loc).chainAt P).1 < sizeOf (Expr.mk (.binOp op l r) loc) := by
  rw [Expr.chainAt_binOp hop]
  have := (Expr.sizeOf_chainAt (P := P) l).1
  simp
  omega

/-- The leftmost operand of a chain is no chain of the same level. -/
theorem Expr.chainAt_head_single : ∀ e : Expr, ∀ op l r loc,
    (e.chainAt P).1 = .mk (.binOp op l r) loc → op.precedence ≠ P := by
  intro e
  induction e using Expr.chainAt.induct P with
  | case1 op' l' r' loc' hop ih =>
    rw [Expr.chainAt_binOp hop]
    exact ih
  | case2 op' l' r' loc' hop =>
    rw [Expr.chainAt_of_not (by rintro op'' l'' r'' loc'' ⟨⟩; exact hop)]
    rintro op l r loc ⟨⟩
    exact hop
  | case3 e hne =>
    rw [Expr.chainAt_of_not fun op l r loc h => (hne op l r loc h).elim]
    intro op l r loc h
    exact (hne op l r loc h).elim

/-- Folding a chain back, as reading does, gives the chain's normal form from the normal forms
of its parts, whatever the locations. -/
theorem canon_foldOps (loc : Option Loc) : ∀ (acc : Expr) (ps : List (BinOp × Expr)),
    (LineReader.foldOps loc acc ps).canon =
      LineReader.foldOps none acc.canon (ps.map fun x => (x.1, x.2.canon))
  | acc, [] => rfl
  | acc, (op, e) :: ps => by
    simp only [LineReader.foldOps, List.map_cons]
    rw [canon_foldOps loc _ ps]
    rfl

theorem foldOps_append (loc : Option Loc) (acc : Expr) (ps qs : List (BinOp × Expr)) :
    LineReader.foldOps loc acc (ps ++ qs) = LineReader.foldOps loc (LineReader.foldOps loc acc ps) qs := by
  induction ps generalizing acc with
  | nil => rfl
  | cons p ps ih => exact ih _

/-- A chain folds back to itself, up to normal forms. -/
theorem Expr.foldOps_chainAt : ∀ e : Expr,
    LineReader.foldOps none (e.chainAt P).1.canon ((e.chainAt P).2.map fun x => (x.1, x.2.canon)) = e.canon := by
  intro e
  induction e using Expr.chainAt.induct P with
  | case1 op l r loc hop ih =>
    rw [Expr.chainAt_binOp hop, List.map_append, foldOps_append, ih]
    rfl
  | case2 op l r loc hop =>
    rw [Expr.chainAt_of_not (by rintro op' l' r' loc' ⟨⟩; exact hop)]
    rfl
  | case3 e hne =>
    rw [Expr.chainAt_of_not fun op l r loc h => (hne op l r loc h).elim]
    rfl

end Chains


/-! ## Postfix expressions -/

/-- What follows the base of a postfix expression: call arguments, an index, or an attribute. -/
inductive Trailer where
  | call (args : List Expr)
  | index (i : Expr)
  | attr (name : String)

/-- The text of a trailer. -/
def Trailer.text : Trailer → List Char
  | .call args => ("(" ++ Expr.printList args ++ ")").toList
  | .index i => ("[" ++ i.print 0 ++ "]").toList
  | .attr a => ("." ++ a).toList

/-- A trailer applied to the expression before it, at a location. -/
def Trailer.apply (loc : Option Loc) (acc : Expr) : Trailer → Expr
  | .call args => .mk (.call acc args) loc
  | .index i => .mk (.subscript acc i) loc
  | .attr a => .mk (.attribute acc a) loc

/-- The normal form of a trailer's expressions. -/
def Trailer.canon : Trailer → Trailer
  | .call args => .call (Expr.canonList args)
  | .index i => .index i.canon
  | .attr a => .attr a

/-- A trailer whose expressions are printable and whose attribute is an identifier. -/
def Trailer.printable : Trailer → Bool
  | .call args => Expr.printableList args
  | .index i => i.printable
  | .attr a => Syntax.isIdentifier a

/-- An expression read as a postfix expression: its base, which is no call, subscript or
attribute, then the trailers after it, left to right. -/
def Expr.trailers : Expr → Expr × List Trailer
  | .mk (.call f args) _ => ((f.trailers).1, (f.trailers).2 ++ [.call args])
  | .mk (.attribute v a) _ => ((v.trailers).1, (v.trailers).2 ++ [.attr a])
  | .mk (.subscript v i) _ => ((v.trailers).1, (v.trailers).2 ++ [.index i])
  | e => (e, [])

/-- An expression that is no call, attribute or subscript is its own base, with no trailers. -/
theorem Expr.trailers_of_plain {e : Expr} (hc : ∀ f args loc, e ≠ .mk (.call f args) loc)
    (ha : ∀ v a loc, e ≠ .mk (.attribute v a) loc) (hs : ∀ v i loc, e ≠ .mk (.subscript v i) loc) :
    e.trailers = (e, []) := by
  rw [Expr.trailers.eq_def]
  split
  · exact absurd rfl (hc _ _ _)
  · exact absurd rfl (ha _ _ _)
  · exact absurd rfl (hs _ _ _)
  · rfl

/-- Printed where a postfix expression stands, an expression is its base and its trailers. -/
theorem Expr.print_trailers : ∀ e : Expr,
    (e.print 8).toList = ((e.trailers).1.print 8).toList ++ (e.trailers).2.flatMap Trailer.text := by
  intro e
  induction e using Expr.trailers.induct with
  | case1 f args loc ih => simp [Expr.trailers, Expr.print, Expr.prec, Trailer.text, ih]
  | case2 v a loc ih => simp [Expr.trailers, Expr.print, Expr.prec, Trailer.text, ih]
  | case3 v i loc ih => simp [Expr.trailers, Expr.print, Expr.prec, Trailer.text, ih]
  | case4 e hc ha hs =>
    rw [Expr.trailers_of_plain hc ha hs]
    simp

/-- The base of a postfix expression is no call, subscript or attribute. -/
theorem Expr.trailers_base : ∀ e : Expr, ∀ k loc, (e.trailers).1 = .mk k loc →
    (∀ f args, k ≠ .call f args) ∧ (∀ v a, k ≠ .attribute v a) ∧ (∀ v i, k ≠ .subscript v i) := by
  intro e
  induction e using Expr.trailers.induct with
  | case1 f args loc ih => simpa [Expr.trailers] using ih
  | case2 v a loc ih => simpa [Expr.trailers] using ih
  | case3 v i loc ih => simpa [Expr.trailers] using ih
  | case4 e hc ha hs =>
    rw [Expr.trailers_of_plain hc ha hs]
    intro k loc h
    subst h
    exact ⟨fun f args hk => hc f args loc (by rw [hk]), fun v a hk => ha v a loc (by rw [hk]),
      fun v i hk => hs v i loc (by rw [hk])⟩

/-- The parts of a printable postfix expression are printable. -/
theorem Expr.trailers_printable : ∀ e : Expr, e.printable = true →
    (e.trailers).1.printable = true ∧ ∀ t ∈ (e.trailers).2, t.printable = true := by
  intro e
  -- each trailer step adds one trailer, printable with the node, after the inner expression's
  induction e using Expr.trailers.induct with
  | case1 f args loc ih | case2 f args loc ih | case3 f args loc ih =>
    intro he
    simp only [Expr.printable, Bool.and_eq_true] at he
    obtain ⟨hb, hts⟩ := ih he.1
    simp only [Expr.trailers, List.forall_mem_append, List.forall_mem_singleton]
    exact ⟨hb, hts, he.2⟩
  | case4 e hc ha hs =>
    rw [Expr.trailers_of_plain hc ha hs]
    simp

/-- The expressions a trailer holds. -/
def Trailer.exprs : Trailer → List Expr
  | .call args => args
  | .index i => [i]
  | .attr _ => []

/-- Size bounds on the parts of an inner postfix expression hold in any larger expression. -/
theorem Expr.sizeOf_trailers_lift {v e : Expr} (hv : sizeOf v < sizeOf e)
    (ih : sizeOf (v.trailers).1 ≤ sizeOf v ∧ ∀ t ∈ (v.trailers).2, ∀ x ∈ t.exprs, sizeOf x < sizeOf v) :
    sizeOf (v.trailers).1 ≤ sizeOf e ∧ ∀ t ∈ (v.trailers).2, ∀ x ∈ t.exprs, sizeOf x < sizeOf e := by
  obtain ⟨hb, hts⟩ := ih
  refine ⟨by omega, fun t ht x hx => ?_⟩
  have := hts t ht x hx
  omega

/-- The parts of a postfix expression are smaller than it: its base no larger, and every
expression of its trailers strictly smaller. -/
theorem Expr.sizeOf_trailers : ∀ e : Expr,
    sizeOf (e.trailers).1 ≤ sizeOf e ∧ ∀ t ∈ (e.trailers).2, ∀ x ∈ t.exprs, sizeOf x < sizeOf e := by
  intro e
  induction e using Expr.trailers.induct with
  | case1 f args loc ih =>
    have hf : sizeOf f < sizeOf (Expr.mk (.call f args) loc) := by simp; omega
    obtain ⟨hb, hts⟩ := Expr.sizeOf_trailers_lift hf ih
    simp only [Expr.trailers, List.forall_mem_append, List.forall_mem_singleton, Trailer.exprs]
    refine ⟨hb, hts, fun x hx => ?_⟩
    have := List.sizeOf_lt_of_mem hx
    simp
    omega
  | case2 v a loc ih =>
    have hv : sizeOf v < sizeOf (Expr.mk (.attribute v a) loc) := by simp; omega
    obtain ⟨hb, hts⟩ := Expr.sizeOf_trailers_lift hv ih
    simp only [Expr.trailers, List.forall_mem_append, List.forall_mem_singleton, Trailer.exprs]
    exact ⟨hb, hts, by simp⟩
  | case3 v i loc ih =>
    have hv : sizeOf v < sizeOf (Expr.mk (.subscript v i) loc) := by simp; omega
    obtain ⟨hb, hts⟩ := Expr.sizeOf_trailers_lift hv ih
    simp only [Expr.trailers, List.forall_mem_append, List.forall_mem_singleton, Trailer.exprs]
    exact ⟨hb, hts, by simp; omega⟩
  | case4 e hc ha hs =>
    rw [Expr.trailers_of_plain hc ha hs]
    simp

/-- Applying a postfix expression's trailers to its base gives it back, up to normal forms. -/
theorem Expr.foldl_trailers : ∀ e : Expr,
    ((e.trailers).2.map Trailer.canon).foldl (Trailer.apply none) (e.trailers).1.canon = e.canon := by
  intro e
  induction e using Expr.trailers.induct with
  | case1 f args loc ih =>
    simp [Expr.trailers, List.foldl_append, ih, Trailer.canon, Trailer.apply, Expr.canon]
  | case2 v a loc ih =>
    simp [Expr.trailers, List.foldl_append, ih, Trailer.canon, Trailer.apply, Expr.canon]
  | case3 v i loc ih =>
    simp [Expr.trailers, List.foldl_append, ih, Trailer.canon, Trailer.apply, Expr.canon]
  | case4 e hc ha hs =>
    rw [Expr.trailers_of_plain hc ha hs]
    simp


/-! ## How printed text begins -/

/-- How the text of an expression begins. -/
inductive Opening where
  /-- A character that starts no word: a bracket, a quote or a sign. -/
  | sym (c : Char)
  /-- A digit, starting a number. -/
  | digit
  /-- A whole word: a name, or one of the words `None`, `True`, `False`, `not` and `lambda`. -/
  | word (w : String)

/-- How the text of `e` printed at precedence `L` begins. -/
def Expr.opening (L : Nat) : Expr → Opening
  | e@(.mk k _) =>
    if e.prec < L then .sym '(' else
    match k with
    | .name id => .word id
    | .const .none => .word "None"
    | .const (.bool true) => .word "True"
    | .const (.bool false) => .word "False"
    | .const (.int n) => if n < 0 then .sym '-' else .digit
    | .const (.str _) => .sym '"'
    | .binOp op l _ => l.opening op.precedence
    | .unaryOp .neg _ => .sym '-'
    | .unaryOp .pos _ => .sym '+'
    | .unaryOp .not _ => .word "not"
    | .call f _ => f.opening 8
    | .attribute v _ => v.opening 8
    | .subscript v _ => v.opening 8
    | .list _ => .sym '['
    | .tuple _ => .sym '('
    | .lambda .. => .word "lambda"
    | .ifExp _ b _ => b.opening 1
    | .done inner => inner.opening L

/-- A text begins as the opening says; a word ends at a word break. -/
def Opening.Begins : Opening → List Char → Prop
  | .sym c, cs => ∃ more, cs = c :: more
  | .digit, cs => ∃ c more, cs = c :: more ∧ c.isDigit = true
  | .word w, cs => ∃ more, cs = w.toList ++ more ∧ WordBreak more

theorem Opening.Begins.append {o : Opening} {cs ds : List Char} (h : o.Begins cs) (hd : WordBreak ds) :
    o.Begins (cs ++ ds) := by
  cases o with
  | sym c => obtain ⟨more, rfl⟩ := h; exact ⟨more ++ ds, rfl⟩
  | digit => obtain ⟨c, more, rfl, hc⟩ := h; exact ⟨c, more ++ ds, rfl, hc⟩
  | word w =>
    obtain ⟨more, rfl, hb⟩ := h
    refine ⟨more ++ ds, by simp, ?_⟩
    cases more with
    | nil => simpa using hd
    | cons c more => simpa using hb

theorem toString_toList_of_nonneg {n : Int} (h : 0 ≤ n) : (toString n).toList = Nat.toDigits 10 n.toNat := by
  obtain ⟨m, rfl⟩ := Int.eq_ofNat_of_zero_le h
  exact Nat.toList_repr


theorem Expr.opening_of_lt {e : Expr} {L : Nat} (h : e.prec < L) : e.opening L = .sym '(' := by
  obtain ⟨k, loc⟩ := e
  rw [Expr.opening.eq_def]
  exact if_pos h

theorem Opening.begins_sym {c : Char} {more : List Char} : (Opening.sym c).Begins (c :: more) :=
  ⟨more, rfl⟩

theorem Opening.begins_word {w : String} {more : List Char} (h : WordBreak more) :
    (Opening.word w).Begins (w.toList ++ more) :=
  ⟨more, rfl, h⟩

theorem Opening.begins_digit {c : Char} {more : List Char} (h : c.isDigit = true) :
    Opening.digit.Begins (c :: more) :=
  ⟨c, more, rfl, h⟩

/-- The text of a printable expression begins as its opening says. -/
theorem Expr.opening_begins : ∀ (e : Expr) (L : Nat), e.printable = true →
    (e.opening L).Begins (e.print L).toList
  | .mk k loc, L, he => by
    by_cases hlt : (Expr.mk k loc).prec < L
    · rw [Expr.opening_of_lt hlt, Expr.print_of_lt (.of_printable he) hlt]
      simpa using @Opening.begins_sym '(' ((Expr.mk k loc).print 0 ++ ")").toList
    rw [Expr.print_of_le (.of_printable he) (by omega)]
    cases k with
    | name id =>
      rw [Expr.opening, if_neg hlt]
      simpa [Expr.print] using Opening.begins_word (w := id) wordBreak_nil
    | const c =>
      cases c with
      | none =>
        rw [Expr.opening, if_neg hlt]
        simpa [Expr.print, Constant.print] using Opening.begins_word (w := "None") wordBreak_nil
      | bool b =>
        cases b
        · rw [Expr.opening, if_neg hlt]
          simpa [Expr.print, Constant.print] using Opening.begins_word (w := "False") wordBreak_nil
        · rw [Expr.opening, if_neg hlt]
          simpa [Expr.print, Constant.print] using Opening.begins_word (w := "True") wordBreak_nil
      | int n =>
        rw [Expr.opening, if_neg hlt]
        by_cases hn : n < 0
        · rw [if_pos hn]
          have htext : (Expr.print 0 (.mk (.const (.int n)) loc)).toList = '-' :: (toString (-n)).toList := by
            simp [Expr.print, Constant.print, toString_of_neg hn, Expr.prec, hn]
          rw [htext]
          exact Opening.begins_sym
        · rw [if_neg hn]
          have hd := toString_toList_of_nonneg (n := n) (by omega)
          obtain ⟨c, cs, hcs⟩ := List.exists_cons_of_ne_nil (Nat.toDigits_ne_nil (n := n.toNat) (b := 10))
          have htext : (Expr.print 0 (.mk (.const (.int n)) loc)).toList = c :: cs := by
            rw [← hcs, ← hd]
            simp [Expr.print, Constant.print, Expr.prec, hn]
          rw [htext]
          exact Opening.begins_digit (Nat.isDigit_of_mem_toDigits (b := 10) (n := n.toNat) (by decide)
            (by decide) (by rw [hcs]; exact List.mem_cons_self))
      | str s =>
        rw [Expr.opening, if_neg hlt]
        have htext : (Expr.print 0 (.mk (.const (.str s)) loc)).toList =
            '"' :: (quoteChars s.toList ++ ['"']) := by
          simp [Expr.print, Constant.print, Expr.prec, quote_toList]
        rw [htext]
        exact Opening.begins_sym
    | binOp op l r =>
      rw [Expr.opening, if_neg hlt]
      have hl : l.printable = true := by simp [Expr.printable] at he; exact he.1
      have htext : (Expr.print 0 (.mk (.binOp op l r) loc)).toList = (l.print op.precedence).toList ++
          (" " ++ op.symbol ++ " " ++ r.print (op.precedence + 1)).toList := by
        simp [Expr.print, Expr.prec]
      rw [htext]
      exact (Expr.opening_begins l op.precedence hl).append (by simp; decide)
    | unaryOp op a =>
      cases op with
      | neg =>
        rw [Expr.opening, if_neg hlt]
        simpa [Expr.print, Expr.prec, UnaryOp.symbol] using
          @Opening.begins_sym '-' (a.print 7).toList
      | pos =>
        rw [Expr.opening, if_neg hlt]
        simpa [Expr.print, Expr.prec, UnaryOp.symbol] using
          @Opening.begins_sym '+' (a.print 7).toList
      | not =>
        rw [Expr.opening, if_neg hlt]
        simpa [Expr.print, Expr.prec, UnaryOp.symbol] using
          @Opening.begins_word "not" (" " ++ a.print 3).toList (by simp; decide)
    | call f args =>
      rw [Expr.opening, if_neg hlt]
      have hf : f.printable = true := by simp [Expr.printable] at he; exact he.1
      have htext : (Expr.print 0 (.mk (.call f args) loc)).toList = (f.print 8).toList ++
          ("(" ++ Expr.printList args ++ ")").toList := by
        simp [Expr.print, Expr.prec]
      rw [htext]
      exact (Expr.opening_begins f 8 hf).append (by simp; decide)
    | «attribute» v a =>
      rw [Expr.opening, if_neg hlt]
      have hv : v.printable = true := by simp [Expr.printable] at he; exact he.1
      have htext : (Expr.print 0 (.mk (.attribute v a) loc)).toList = (v.print 8).toList ++
          ("." ++ a).toList := by
        simp [Expr.print, Expr.prec]
      rw [htext]
      exact (Expr.opening_begins v 8 hv).append (by simp; decide)
    | subscript v i =>
      rw [Expr.opening, if_neg hlt]
      have hv : v.printable = true := by simp [Expr.printable] at he; exact he.1
      have htext : (Expr.print 0 (.mk (.subscript v i) loc)).toList = (v.print 8).toList ++
          ("[" ++ i.print 0 ++ "]").toList := by
        simp [Expr.print, Expr.prec]
      rw [htext]
      exact (Expr.opening_begins v 8 hv).append (by simp; decide)
    | list items =>
      rw [Expr.opening, if_neg hlt]
      simpa [Expr.print, Expr.prec] using
        @Opening.begins_sym '[' (Expr.printList items ++ "]").toList
    | tuple items =>
      rw [Expr.opening, if_neg hlt]
      simpa [Expr.print, Expr.prec] using @Opening.begins_sym '('
        (Expr.printList items ++ (if items.length = 1 then "," else "") ++ ")").toList
    | lambda ps b =>
      rw [Expr.opening, if_neg hlt]
      by_cases hps : ps.isEmpty = true
      · simpa [Expr.print, Expr.prec, hps] using
          @Opening.begins_word "lambda" (": " ++ b.print 0).toList (by simp; decide)
      · simpa [Expr.print, Expr.prec, hps] using
          @Opening.begins_word "lambda" (" " ++ ", ".intercalate ps ++ ": " ++ b.print 0).toList
            (by simp; decide)
    | ifExp t b o =>
      rw [Expr.opening, if_neg hlt]
      have hb : b.printable = true := by simp [Expr.printable] at he; exact he.1.2
      have htext : (Expr.print 0 (.mk (.ifExp t b o) loc)).toList = (b.print 1).toList ++
          (" if " ++ t.print 1 ++ " else " ++ o.print 0).toList := by
        simp [Expr.print, Expr.prec]
      rw [htext]
      exact (Expr.opening_begins b 1 hb).append (by simp; decide)
    | done inner => simp [Expr.printable] at he

/-- The openings that a printable expression can have where precedence `L` is required: a
bracket, a quote, a sign below the postfix level, a digit, a name or literal word, `not` below
the comparisons and `lambda` only where any expression may stand. -/
def Opening.Allowed (L : Nat) : Opening → Prop
  | .sym c => c = '(' ∨ c = '[' ∨ c = '"' ∨ ((c = '-' ∨ c = '+') ∧ L ≤ 7)
  | .digit => True
  | .word w => Syntax.isIdentifier w = true ∨ w = "None" ∨ w = "True" ∨ w = "False" ∨
      (w = "not" ∧ L ≤ 3) ∨ (w = "lambda" ∧ L = 0)

theorem Opening.Allowed.mono {o : Opening} {L L' : Nat} (h : o.Allowed L) (hL : L' ≤ L) :
    o.Allowed L' := by
  cases o with
  | sym c =>
    simp only [Opening.Allowed] at h ⊢
    rcases h with h | h | h | ⟨h, hl⟩
    · exact .inl h
    · exact .inr (.inl h)
    · exact .inr (.inr (.inl h))
    · exact .inr (.inr (.inr ⟨h, by omega⟩))
  | digit => trivial
  | word w =>
    simp only [Opening.Allowed] at h ⊢
    rcases h with h | h | h | h | ⟨h, hl⟩ | ⟨h, hl⟩
    · exact .inl h
    · exact .inr (.inl h)
    · exact .inr (.inr (.inl h))
    · exact .inr (.inr (.inr (.inl h)))
    · exact .inr (.inr (.inr (.inr (.inl ⟨h, by omega⟩))))
    · exact .inr (.inr (.inr (.inr (.inr ⟨h, by omega⟩))))

/-- A printable expression opens as `Opening.Allowed` says. -/
theorem Expr.opening_allowed : ∀ (e : Expr) (L : Nat), e.printable = true →
    (e.opening L).Allowed L
  | .mk k loc, L, he => by
    by_cases hlt : (Expr.mk k loc).prec < L
    · rw [Expr.opening_of_lt hlt]
      simp [Opening.Allowed]
    have hle : L ≤ (Expr.mk k loc).prec := by omega
    cases k with
    | name id =>
      rw [Expr.opening, if_neg hlt]
      exact .inl (by simpa [Expr.printable] using he)
    | const c =>
      cases c with
      | none => rw [Expr.opening, if_neg hlt]; simp [Opening.Allowed]
      | bool b => cases b <;> (rw [Expr.opening, if_neg hlt]; simp [Opening.Allowed])
      | int n =>
        rw [Expr.opening, if_neg hlt]
        by_cases hn : n < 0
        · rw [if_pos hn]
          simp only [Expr.prec, hn, if_true] at hle
          simp [Opening.Allowed, hle]
        · rw [if_neg hn]
          trivial
      | str s => rw [Expr.opening, if_neg hlt]; simp [Opening.Allowed]
    | binOp op l r =>
      rw [Expr.opening, if_neg hlt]
      have hl : l.printable = true := by simp [Expr.printable] at he; exact he.1
      exact (Expr.opening_allowed l op.precedence hl).mono (by simpa [Expr.prec] using hle)
    | unaryOp op a =>
      cases op <;> (rw [Expr.opening, if_neg hlt]; simp [Expr.prec] at hle; simp [Opening.Allowed, hle])
    | call f args =>
      rw [Expr.opening, if_neg hlt]
      have hf : f.printable = true := by simp [Expr.printable] at he; exact he.1
      exact (Expr.opening_allowed f 8 hf).mono (by simpa [Expr.prec] using hle)
    | «attribute» v a =>
      rw [Expr.opening, if_neg hlt]
      have hv : v.printable = true := by simp [Expr.printable] at he; exact he.1
      exact (Expr.opening_allowed v 8 hv).mono (by simpa [Expr.prec] using hle)
    | subscript v i =>
      rw [Expr.opening, if_neg hlt]
      have hv : v.printable = true := by simp [Expr.printable] at he; exact he.1
      exact (Expr.opening_allowed v 8 hv).mono (by simpa [Expr.prec] using hle)
    | list items => rw [Expr.opening, if_neg hlt]; simp [Opening.Allowed]
    | tuple items => rw [Expr.opening, if_neg hlt]; simp [Opening.Allowed]
    | lambda ps b =>
      rw [Expr.opening, if_neg hlt]
      simp [Expr.prec] at hle
      simp [Opening.Allowed, hle]
    | ifExp t b o =>
      rw [Expr.opening, if_neg hlt]
      have hb : b.printable = true := by simp [Expr.printable] at he; exact he.1.2
      exact (Expr.opening_allowed b 1 hb).mono (by simp [Expr.prec] at hle; omega)
    | done inner => simp [Expr.printable] at he

theorem keywords_head_identStart : ∀ k ∈ keywords, ∃ x xs, k.toList = x :: xs ∧ isIdentStart x = true := by
  have hall : (keywords.all fun k => (k.toList.head?.map isIdentStart).getD false) = true := by
    decide +kernel
  intro k hk
  have hk' := List.all_eq_true.mp hall k hk
  cases hcs : k.toList with
  | nil => simp [hcs] at hk'
  | cons x xs => exact ⟨x, xs, rfl, by simpa [hcs] using hk'⟩

theorem isIdentStart_of_isDigit {c : Char} (h : c.isDigit = true) : isIdentStart c = false := by
  have hd := isDigit_iff.mp h
  simp only [isIdentStart, char_le_iff] at hd ⊢
  simp at hd ⊢
  refine ⟨⟨fun _ => by omega, fun _ => by omega⟩, ?_⟩
  rintro rfl
  simp at hd

/-- The word an allowed opening starts with is an identifier or a literal word, or `not` or
`lambda` where they may stand. -/
theorem Opening.words_of_allowed {w : String} {L : Nat} (h : (Opening.word w).Allowed L) :
    ∀ x ∈ w.toList, isIdentChar x = true := by
  simp only [Opening.Allowed] at h
  rcases h with h | rfl | rfl | rfl | ⟨rfl, -⟩ | ⟨rfl, -⟩
  · exact identChars_of_isIdentifier h
  all_goals exact List.all_eq_true.mp (by decide +kernel)

/-- Where an expression with an allowed opening begins, a keyword stands only if it is one of
the literal words, or `not` or `lambda` where they may stand. -/
theorem Opening.keyword_of_startsWord {o : Opening} {L : Nat} {cs : List Char} (hb : o.Begins cs)
    (ha : o.Allowed L) {k : String} (hk : k ∈ keywords) (hs : StartsWord k.toList cs) :
    k = "None" ∨ k = "True" ∨ k = "False" ∨ (k = "not" ∧ L ≤ 3) ∨ (k = "lambda" ∧ L = 0) := by
  obtain ⟨x, xs, hkx, hx⟩ := keywords_head_identStart k hk
  cases o with
  | sym c =>
    obtain ⟨more, rfl⟩ := hb
    obtain ⟨rest, hcs, -⟩ := hs
    rw [hkx] at hcs
    simp only [List.cons_append, List.cons.injEq] at hcs
    obtain ⟨rfl, -⟩ := hcs
    simp only [Opening.Allowed] at ha
    rcases ha with rfl | rfl | rfl | ⟨rfl | rfl, -⟩ <;> simp [isIdentStart] at hx
  | digit =>
    obtain ⟨c, more, rfl, hc⟩ := hb
    obtain ⟨rest, hcs, -⟩ := hs
    rw [hkx] at hcs
    simp only [List.cons_append, List.cons.injEq] at hcs
    obtain ⟨rfl, -⟩ := hcs
    simp [isIdentStart_of_isDigit hc] at hx
  | word w =>
    have heq : w = k :=
      String.toList_inj.mp (StartsWord.unique (Opening.words_of_allowed ha) (keywords_identChars k hk) hb hs)
    subst heq
    simp only [Opening.Allowed] at ha
    rcases ha with h | h
    · obtain ⟨-, -, -, -, -, hnot⟩ := isIdentifier_iff.mp h
      exact absurd hk hnot
    · exact h

/-- The first character of a text with an allowed opening: a bracket, a quote, a sign below
the postfix level, or an identifier character (a digit or a letter). -/
theorem Opening.head_of_allowed {o : Opening} {L : Nat} {cs : List Char} (hb : o.Begins cs)
    (ha : o.Allowed L) : ∃ c more, cs = c :: more ∧
      (c = '(' ∨ c = '[' ∨ c = '"' ∨ ((c = '-' ∨ c = '+') ∧ L ≤ 7) ∨ isIdentChar c = true) := by
  cases o with
  | sym c =>
    obtain ⟨more, rfl⟩ := hb
    refine ⟨c, more, rfl, ?_⟩
    simp only [Opening.Allowed] at ha
    rcases ha with h | h | h | h
    · exact .inl h
    · exact .inr (.inl h)
    · exact .inr (.inr (.inl h))
    · exact .inr (.inr (.inr (.inl h)))
  | digit =>
    obtain ⟨c, more, rfl, hc⟩ := hb
    exact ⟨c, more, rfl, .inr (.inr (.inr (.inr (isIdentChar_of_isDigit hc))))⟩
  | word w =>
    obtain ⟨more, rfl, -⟩ := hb
    have hchars := Opening.words_of_allowed ha
    cases hw : w.toList with
    | nil =>
      -- every allowed word has letters
      simp only [Opening.Allowed] at ha
      rcases ha with h | rfl | rfl | rfl | ⟨rfl, -⟩ | ⟨rfl, -⟩
      · obtain ⟨c, cs, hcs, -⟩ := isIdentifier_iff.mp h
        rw [hw] at hcs
        exact absurd hcs (List.cons_ne_nil c cs).symm
      all_goals simp at hw
    | cons c cs =>
      exact ⟨c, cs ++ more, by simp, .inr (.inr (.inr (.inr (hchars c (by simp [hw])))))⟩

/-- Where a postfix expression is required, no printable expression's text begins with a sign. -/
theorem Opening.not_sign {o : Opening} {L : Nat} {cs : List Char} (hb : o.Begins cs)
    (ha : o.Allowed L) (hL : 8 ≤ L) : ¬ ['-'] <+: cs ∧ ¬ ['+'] <+: cs := by
  obtain ⟨c, more, rfl, hc⟩ := Opening.head_of_allowed hb ha
  simp only [List.cons_prefix_cons, List.nil_prefix, and_true]
  rcases hc with rfl | rfl | rfl | ⟨-, h⟩ | h
  · decide
  · decide
  · decide
  · omega
  · constructor <;> rintro rfl <;> simp [isIdentChar] at h

/-! ## How printed text ends -/

/-- A text ends with a token that no blank or comma follows inside it: an identifier character,
a quote or a closing bracket. -/
def EndsToken (cs : List Char) : Prop :=
  ∃ c, cs.getLast? = some c ∧ (isIdentChar c = true ∨ c = '"' ∨ c = ')' ∨ c = ']')

theorem EndsToken.append_left {cs ds : List Char} (h : EndsToken ds) : EndsToken (cs ++ ds) := by
  obtain ⟨c, hc, hk⟩ := h
  refine ⟨c, ?_, hk⟩
  rw [List.getLast?_append, hc]
  rfl

theorem EndsToken.of_last {cs : List Char} {c : Char}
    (hk : isIdentChar c = true ∨ c = '"' ∨ c = ')' ∨ c = ']') : EndsToken (cs ++ [c]) :=
  ⟨c, by simp, hk⟩

/-- A nonempty word of identifier characters ends a token. -/
theorem EndsToken.of_word {cs : List Char} (hne : cs ≠ []) (h : ∀ x ∈ cs, isIdentChar x = true) :
    EndsToken cs := by
  obtain ⟨c, hc⟩ := Option.ne_none_iff_exists'.mp (mt List.getLast?_eq_none_iff.mp hne)
  exact ⟨c, hc, .inl (h c (List.mem_of_getLast? hc))⟩

/-- The text of a printable expression ends with a token. -/
theorem Expr.print_endsToken : ∀ (e : Expr) (L : Nat), e.printable = true →
    EndsToken (e.print L).toList
  | .mk k loc, L, he => by
    by_cases hlt : (Expr.mk k loc).prec < L
    · rw [Expr.print_of_lt (.of_printable he) hlt]
      simpa using @EndsToken.of_last ('(' :: ((Expr.mk k loc).print 0).toList) ')'
        (by simp)
    rw [Expr.print_of_le (.of_printable he) (by omega)]
    cases k with
    | name id =>
      have hid : Syntax.isIdentifier id = true := by simpa [Expr.printable] using he
      obtain ⟨c, cs, hcs, -⟩ := isIdentifier_iff.mp hid
      have htext : (Expr.print 0 (.mk (.name id) loc)).toList = id.toList := by simp [Expr.print]
      rw [htext]
      exact EndsToken.of_word (by simp [hcs]) (identChars_of_isIdentifier hid)
    | const c =>
      cases c with
      | none =>
        have htext : (Expr.print 0 (.mk (.const .none) loc)).toList = ['N', 'o', 'n'] ++ ['e'] := by
          simp [Expr.print, Constant.print]
        rw [htext]
        exact EndsToken.of_last (by decide)
      | bool b =>
        cases b
        · have htext : (Expr.print 0 (.mk (.const (.bool false)) loc)).toList =
              ['F', 'a', 'l', 's'] ++ ['e'] := by
            simp [Expr.print, Constant.print]
          rw [htext]
          exact EndsToken.of_last (by decide)
        · have htext : (Expr.print 0 (.mk (.const (.bool true)) loc)).toList = ['T', 'r', 'u'] ++ ['e'] := by
            simp [Expr.print, Constant.print]
          rw [htext]
          exact EndsToken.of_last (by decide)
      | int n =>
        -- the digits of the magnitude end the text, after a sign or not
        have hdigits : ∀ m : Int, 0 ≤ m → EndsToken (toString m).toList := fun m hm => by
          rw [toString_toList_of_nonneg hm]
          exact EndsToken.of_word Nat.toDigits_ne_nil
            (fun x hx => isIdentChar_of_isDigit (Nat.isDigit_of_mem_toDigits (b := 10) (by decide)
              (by decide) hx))
        by_cases hn : n < 0
        · have htext : (Expr.print 0 (.mk (.const (.int n)) loc)).toList = ['-'] ++ (toString (-n)).toList := by
            simp [Expr.print, Constant.print, toString_of_neg hn, Expr.prec, hn]
          rw [htext]
          exact (hdigits _ (by omega)).append_left
        · have htext : (Expr.print 0 (.mk (.const (.int n)) loc)).toList = (toString n).toList := by
            simp [Expr.print, Constant.print, Expr.prec, hn]
          rw [htext]
          exact hdigits _ (by omega)
      | str s =>
        have htext : (Expr.print 0 (.mk (.const (.str s)) loc)).toList =
            ('"' :: quoteChars s.toList) ++ ['"'] := by
          simp [Expr.print, Constant.print, Expr.prec, quote_toList]
        rw [htext]
        exact EndsToken.of_last (by simp)
    | binOp op l r =>
      have hr : r.printable = true := by simp [Expr.printable] at he; exact he.2
      have htext : (Expr.print 0 (.mk (.binOp op l r) loc)).toList =
          (l.print op.precedence ++ " " ++ op.symbol ++ " ").toList ++ (r.print (op.precedence + 1)).toList := by
        simp [Expr.print, Expr.prec]
      rw [htext]
      exact (Expr.print_endsToken r _ hr).append_left
    | unaryOp op a =>
      have ha : a.printable = true := by simpa [Expr.printable] using he
      have htext : (Expr.print 0 (.mk (.unaryOp op a) loc)).toList =
          op.symbol.toList ++ (a.print (if op = .not then 3 else 7)).toList := by
        cases op <;> simp [Expr.print, Expr.prec]
      rw [htext]
      exact (Expr.print_endsToken a _ ha).append_left
    | call f args =>
      have htext : (Expr.print 0 (.mk (.call f args) loc)).toList =
          (f.print 8 ++ "(" ++ Expr.printList args).toList ++ [')'] := by
        simp [Expr.print, Expr.prec]
      rw [htext]
      exact EndsToken.of_last (by simp)
    | «attribute» v a =>
      have ha : Syntax.isIdentifier a = true := by simp [Expr.printable] at he; exact he.2
      obtain ⟨c, cs, hcs, -⟩ := isIdentifier_iff.mp ha
      have htext : (Expr.print 0 (.mk (.attribute v a) loc)).toList = (v.print 8 ++ ".").toList ++ a.toList := by
        simp [Expr.print, Expr.prec]
      rw [htext]
      exact (EndsToken.of_word (by simp [hcs]) (identChars_of_isIdentifier ha)).append_left
    | subscript v i =>
      have htext : (Expr.print 0 (.mk (.subscript v i) loc)).toList =
          (v.print 8 ++ "[" ++ i.print 0).toList ++ [']'] := by
        simp [Expr.print, Expr.prec]
      rw [htext]
      exact EndsToken.of_last (by simp)
    | list items =>
      have htext : (Expr.print 0 (.mk (.list items) loc)).toList = ("[" ++ Expr.printList items).toList ++ [']'] := by
        simp [Expr.print, Expr.prec]
      rw [htext]
      exact EndsToken.of_last (by simp)
    | tuple items =>
      have htext : (Expr.print 0 (.mk (.tuple items) loc)).toList =
          ("(" ++ Expr.printList items ++ if items.length = 1 then "," else "").toList ++ [')'] := by
        simp [Expr.print, Expr.prec]
      rw [htext]
      exact EndsToken.of_last (by simp)
    | lambda ps b =>
      have hb : b.printable = true := by simp [Expr.printable] at he; exact he.2
      have htext : (Expr.print 0 (.mk (.lambda ps b) loc)).toList =
          (if ps.isEmpty then "lambda: " else "lambda " ++ ", ".intercalate ps ++ ": ").toList ++ (b.print 0).toList := by
        simp [Expr.print, Expr.prec]
      rw [htext]
      exact (Expr.print_endsToken b _ hb).append_left
    | ifExp t b o =>
      have ho : o.printable = true := by simp [Expr.printable] at he; exact he.2
      have htext : (Expr.print 0 (.mk (.ifExp t b o) loc)).toList =
          (b.print 1 ++ " if " ++ t.print 1 ++ " else ").toList ++ (o.print 0).toList := by
        simp [Expr.print, Expr.prec]
      rw [htext]
      exact (Expr.print_endsToken o _ ho).append_left
    | done inner => simp [Expr.printable] at he

end Espalier
