import Espalier.Proofs.Syntax.Tokens
import Espalier.Syntax.LogicalLine

/-!
# String literals survive the way back

`quote` writes a string as a one-line literal: a double quote, the characters with `"`, `\`,
line feed, tab, return and NUL written as escape pairs, and a closing double quote. Printing a
tree relies on three things about that text, wherever it stands in code and as long as no
double quote follows it:

* its value is the string quoted (`unescapeString_quote`);
* the logical-line scanner copies it into the line as it is (`run_code_quote`,
  `run_indent_quote`): the text holds no raw line break (`newline_not_mem_quote`) and does not
  open with a triple quote (`closesTriple_quoteChars`), so the scanner is back in code on the
  same line once the closing quote is read;
* the grammar's double-quoted form matches exactly that text (`yields_dqString_quote`), and so
  does the `string` rule, whose triple-quoted forms fail there (`yields_string_ok`).

Main statement: `quote_round_trip`. The scanner is followed one character at a time: a step
that finishes no line hands the rest of the text on (`run_cons_of_step`), and inside the
string each unit `quoteUnit c` takes one or two such steps (`run_quoted_quoteChars`).
-/

namespace Espalier

namespace Syntax

theorem newline_not_mem_quoteUnit (c : Char) : '\n' ∉ quoteUnit c := by
  unfold quoteUnit
  split_ifs <;> simp_all [eq_comm]

/-- A quoted text breaks no line: a line feed in the string is written as an escape pair. -/
theorem newline_not_mem_quote (s : String) : '\n' ∉ (quote s).toList := by
  rw [quote_toList, quoteChars_eq_flatMap]
  simp only [List.mem_cons, List.mem_append, List.mem_flatMap, not_or]
  exact ⟨by decide, fun ⟨c, _, hc⟩ => newline_not_mem_quoteUnit c hc, by decide⟩

end Syntax

open Syntax

namespace LogicalLine.Scan

/-- A step that finishes no line hands the rest of the text on. -/
theorem run_cons_of_step {file : String} {s s' : State} {l l' : Nat} {c : Char}
    {rest : List Char} {out : Array LogicalLine} (h : step file s l c rest = .ok (s', l', none)) :
    run file s l (c :: rest) out = run file s' l' rest out := by
  rw [run, h]
  rfl

/-- Two states whose next step agrees run alike from there. -/
theorem run_congr_step {file : String} {s s' : State} {l : Nat} {c : Char} {rest : List Char}
    (out : Array LogicalLine) (h : step file s l c rest = step file s' l c rest) :
    run file s l (c :: rest) out = run file s' l (c :: rest) out := by
  rw [run, run, h]

/-- No triple quote opens at a quoted text that no double quote follows: the text does not
start with a quote, and an empty one is followed by something else. -/
theorem closesTriple_quoteChars {cs rest : List Char} (hq : ∀ r, rest ≠ '"' :: r) :
    closesTriple '"' (quoteChars cs ++ '"' :: rest) = false := by
  cases h : quoteChars cs with
  | nil =>
    cases rest with
    | nil => rfl
    | cons b r =>
      have hb : b ≠ '"' := fun hb => hq r (by rw [hb])
      simp [closesTriple, hb]
  | cons a q =>
    have ha : a ≠ '"' := quoteChars_head_ne_quote h
    cases q <;> simp [closesTriple, ha]

/-- Inside a one-line string opened by `"`, the quoted text of `cs` is copied as it is, on the
same line, and the closing quote returns to code. -/
theorem run_quoted_quoteChars (file : String) (l : Nat) (rest : List Char)
    (out : Array LogicalLine) : ∀ (cs : List Char) (p : Part),
      run file (.quoted p '"' false) l (quoteChars cs ++ '"' :: rest) out =
        run file (.code { p with acc := '"' :: ((quoteChars cs).reverse ++ p.acc) }) l rest out := by
  intro cs
  induction cs with
  | nil =>
    intro p
    simp only [quoteChars, List.nil_append, List.reverse_nil]
    exact run_cons_of_step (by simp [step, Part.push])
  | cons c cs ih =>
    intro p
    rw [quoteChars_eq_flatMap, List.flatMap_cons, ← quoteChars_eq_flatMap, List.append_assoc]
    have hn := newline_not_mem_quoteUnit c
    rcases quoteUnit_cases c with ⟨x, hx⟩ | ⟨hx, hq, hb, -, -⟩
    · -- an escape pair: the backslash, then the escaped character as it is
      rw [hx] at hn ⊢
      have hxn : x ≠ '\n' := fun h => hn (by simp [h])
      have hback : step file (.quoted p '"' false) l '\\' (x :: (quoteChars cs ++ '"' :: rest)) =
          .ok (.escaped (p.push '\\') '"' false, l, none) := by
        simp [step]
      have hesc : step file (.escaped (p.push '\\') '"' false) l x (quoteChars cs ++ '"' :: rest) =
          .ok (.quoted ((p.push '\\').push x) '"' false, l, none) := by
        simp [step, hxn]
      simp only [List.cons_append, List.nil_append]
      rw [run_cons_of_step hback, run_cons_of_step hesc, ih]
      simp [Part.push]
    · -- a character that stands for itself
      have hcn : c ≠ '\n' := by
        rintro rfl
        exact hn (by simp [hx])
      have hchar : step file (.quoted p '"' false) l c (quoteChars cs ++ '"' :: rest) =
          .ok (.quoted (p.push c) '"' false, l, none) := by
        simp [step, hq, hb, hcn]
      rw [hx, List.singleton_append, run_cons_of_step hchar, ih]
      simp [Part.push]

/-- In code, a quoted string that no double quote follows is copied into the line as it is,
and the scanner is in code again on the same line. -/
theorem run_code_quote (file : String) (p : Part) (l : Nat) (s : String) {rest : List Char}
    (out : Array LogicalLine) (hq : ∀ r, rest ≠ '"' :: r) :
    run file (.code p) l ((quote s).toList ++ rest) out =
      run file (.code { p with acc := (quote s).toList.reverse ++ p.acc }) l rest out := by
  have hopen : step file (.code p) l '"' (quoteChars s.toList ++ '"' :: rest) =
      .ok (.quoted (p.push '"') '"' false, l, none) := by
    simp [step, codeStep, closesTriple_quoteChars hq]
  rw [quote_toList, List.cons_append, List.append_assoc, List.singleton_append,
    run_cons_of_step hopen, run_quoted_quoteChars]
  simp [Part.push]

/-- A quoted string that starts a line's text is copied the same way, into a new line that
starts there. -/
theorem run_indent_quote (file : String) (n l : Nat) (s : String) {rest : List Char}
    (out : Array LogicalLine) (hq : ∀ r, rest ≠ '"' :: r) :
    run file (.indent n) l ((quote s).toList ++ rest) out =
      run file (.code { start := l, indent := n, acc := (quote s).toList.reverse }) l rest out := by
  -- past the indentation, a quote is read as in code
  rw [quote_toList, List.cons_append,
    @run_congr_step file (.indent n) (.code { start := l, indent := n }) l _ _ out (by simp [step]),
    ← List.cons_append, ← quote_toList, run_code_quote file _ l s out hq]
  simp

end LogicalLine.Scan

/-! ## The round trip -/

open LogicalLine.Scan Peg

/-- A string written by `quote` and followed by anything but a double quote reads back as
itself: its value is the string, it holds no raw line break, the logical-line scanner copies
it into the line as it is (mid-line and at the start of a line), and the grammar reads exactly
that text, by its double-quoted one-line form, as a `string` token. -/
theorem quote_round_trip (s : String) :
    unescapeString (quote s).toList = s ∧ '\n' ∉ (quote s).toList ∧
    (∀ (file : String) (p : Part) (l : Nat) (rest : List Char) (out : Array LogicalLine),
      (∀ r, rest ≠ '"' :: r) →
      run file (.code p) l ((quote s).toList ++ rest) out =
        run file (.code { p with acc := (quote s).toList.reverse ++ p.acc }) l rest out) ∧
    (∀ (file : String) (n l : Nat) (rest : List Char) (out : Array LogicalLine),
      (∀ r, rest ≠ '"' :: r) →
      run file (.indent n) l ((quote s).toList ++ rest) out =
        run file (.code { start := l, indent := n, acc := (quote s).toList.reverse }) l rest out) ∧
    (∀ (ctx : Ctx) (cur : Cursor) (rest : List Char), ctx.atomic = true →
      cur.rest = (quote s).toList ++ rest →
      Yields grammar ctx (lineString "\"") cur 14 (some (cur.past (quote s).toList, []))) ∧
    (∀ (ctx : Ctx) (cur : Cursor) (rest : List Char), cur.rest = (quote s).toList ++ rest →
      (∀ r, rest ≠ '"' :: r) →
      Yields grammar ctx (.call .string) cur 18 (some (cur.past (quote s).toList,
        ctx.emit ⟨.string, cur.pos, cur.pos + utf8Len (quote s).toList, (quote s).toList, []⟩))) :=
  ⟨unescapeString_quote s, newline_not_mem_quote s,
    fun file p l _ out hq => run_code_quote file p l s out hq,
    fun file n l _ out hq => run_indent_quote file n l s out hq,
    fun _ _ _ hat hcur => yields_dqString_quote hat s hcur,
    fun _ _ _ hcur hq => yields_string_ok s hcur hq⟩

/-- A literal with an escaped quote inside, before a closing bracket: the scanner copies it
into the line and goes on in code. -/
theorem quote_copied_before_bracket :
    (∀ r, [')'] ≠ '"' :: r) ∧
    run "t.trl" (.code { start := 1, indent := 0, depth := 1, acc := ['(', 'f'] }) 1
        ((quote "a\"b").toList ++ [')']) #[] =
      run "t.trl"
        (.code { start := 1, indent := 0, depth := 1, acc := (quote "a\"b").toList.reverse ++ ['(', 'f'] })
        1 [')'] #[] :=
  ⟨by simp, (quote_round_trip "a\"b").2.2.1 "t.trl" _ 1 [')'] #[] (by simp)⟩

end Espalier
