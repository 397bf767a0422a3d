import Mathlib
import Espalier.Proofs.Peg.Yields
import Espalier.Syntax.Reader
import Espalier.Syntax.Printer

/-!
# Tokens of the surface grammar

What the atomic rules of `grammar` match, each as a run of the matcher (`Yields`):

* blanks: between the tokens of a normal rule the matcher skips spaces and stops before
  anything that is not blank;
* words: a keyword matches where its letters stand and no identifier character follows, so
  a keyword never matches the start of a longer name;
* identifiers (`isIdentifier`), decimal numbers, and string literals as `quote` writes
  them, which read back to the string quoted;
* the tokens of the binary operators.

A word at the start of a text is described by `StartsWord w cs`: `cs` starts with `w`, and
no identifier character follows. Two words at one place are the same word
(`StartsWord.unique`); every "the wrong keyword does not match here" goes through that.
-/

namespace Espalier.Syntax

open Peg PExpr

/-! ## The grammar as data -/

@[simp] theorem grammar_body (x : Rule) : grammar.body x = x.body := rfl

@[simp] theorem grammar_atomic (x : Rule) : grammar.atomic x = x.isAtomic := rfl

@[simp] theorem grammar_blank : grammar.blank = blank := rfl

/-! ## Character classes -/

theorem char_le_iff {a b : Char} : a ≤ b ↔ a.toNat ≤ b.toNat := Iff.rfl

/-- Characters that may continue an identifier: ASCII letters and digits, and `_`. -/
def isIdentChar (c : Char) : Bool :=
  ('a' ≤ c && c ≤ 'z') || ('A' ≤ c && c ≤ 'Z') || ('0' ≤ c && c ≤ '9') || c == '_'

/-- Characters that may start an identifier: ASCII letters and `_`. -/
def isIdentStart (c : Char) : Bool := ('a' ≤ c && c ≤ 'z') || ('A' ≤ c && c ≤ 'Z') || c == '_'

theorem isIdentChar_of_isIdentStart {c : Char} (h : isIdentStart c = true) :
    isIdentChar c = true := by
  simp only [isIdentStart, isIdentChar, Bool.or_eq_true, Bool.and_eq_true, decide_eq_true_eq,
    beq_iff_eq] at *
  tauto

/-- A word written before this text ends where the text starts. -/
def WordBreak (rest : List Char) : Prop := ∀ c r, rest = c :: r → isIdentChar c = false

/-- The text starts with the word `w`: its characters, then no identifier character. -/
def StartsWord (w cs : List Char) : Prop := ∃ rest, cs = w ++ rest ∧ WordBreak rest

@[simp] theorem wordBreak_nil : WordBreak [] := fun _ _ h => nomatch h

@[simp] theorem wordBreak_cons {c : Char} {r : List Char} :
    WordBreak (c :: r) ↔ isIdentChar c = false := by
  constructor
  · intro h
    exact h c r rfl
  · rintro h c' r' heq
    cases heq
    exact h

theorem startsWord_append {w rest : List Char} (h : WordBreak rest) : StartsWord w (w ++ rest) :=
  ⟨rest, rfl, h⟩

/-- Two words of identifier characters at the start of one text are the same word. -/
theorem StartsWord.unique {w w' cs : List Char} (hw : ∀ x ∈ w, isIdentChar x = true)
    (hw' : ∀ x ∈ w', isIdentChar x = true) (h : StartsWord w cs) (h' : StartsWord w' cs) :
    w = w' := by
  obtain ⟨r, rfl, hr⟩ := h
  obtain ⟨r', heq, hr'⟩ := h'
  rcases List.append_eq_append_iff.mp heq with ⟨a, rfl, rfl⟩ | ⟨a, rfl, rfl⟩
  · cases a with
    | nil => simp
    | cons x a =>
      have hx := hw' x (by simp)
      simp [hx] at hr
  · cases a with
    | nil => simp
    | cons x a =>
      have hx := hw x (by simp)
      simp [hx] at hr'

theorem not_prefix_of_head {x : Char} {s cs : List Char} (h : ∀ c r, cs = c :: r → c ≠ x) :
    ¬ (x :: s) <+: cs := by
  rintro ⟨t, rfl⟩
  exact h x (s ++ t) rfl rfl

/-! ## Runs over single characters -/

section Chars

variable {ctx : Ctx} {cur : Cursor}

private theorem range_fail_of {lo hi : Char} (h : ∀ c r, cur.rest = c :: r → ¬ (lo ≤ c ∧ c ≤ hi)) :
    Yields grammar ctx (.range lo hi) cur 1 none :=
  yields_range_fail h

/-- The grammar's character ranges do not overlap. -/
private theorem char_ranges_apart (c : Char) :
    (('A' ≤ c ∧ c ≤ 'Z') → ¬ ('a' ≤ c ∧ c ≤ 'z')) ∧
      (('0' ≤ c ∧ c ≤ '9') → ¬ ('a' ≤ c ∧ c ≤ 'z') ∧ ¬ ('A' ≤ c ∧ c ≤ 'Z')) := by
  simp only [char_le_iff]
  simp
  omega

theorem yields_identChar_ok {c : Char} {r : List Char} (hcur : cur.rest = c :: r)
    (hc : isIdentChar c = true) : Yields grammar ctx identChar cur 4 (some (cur.past [c], [])) := by
  have hout : ∀ lo hi : Char, ¬ (lo ≤ c ∧ c ≤ hi) → Yields grammar ctx (.range lo hi) cur 1 none :=
    fun lo hi h => range_fail_of fun c' r' h' => by
      rw [hcur] at h'
      cases h'
      exact h
  have hanum : isIdentChar c = true → c ≠ '_' →
      Yields grammar ctx asciiAlphanumeric cur 3 (some (cur.past [c], [])) := by
    intro hc hne
    simp only [isIdentChar, Bool.or_eq_true, Bool.and_eq_true, decide_eq_true_eq, beq_iff_eq] at hc
    rcases hc with ((hl | hu) | hd) | heq
    · exact (yields_alt_left (yields_range_ok hcur hl.1 hl.2)).mono (by omega)
    · have h2 : Yields grammar ctx (.alt (.range 'A' 'Z') (.range '0' '9')) cur 2
          (some (cur.past [c], [])) := yields_alt_left (yields_range_ok hcur hu.1 hu.2)
      exact yields_alt_right ((hout _ _ ((char_ranges_apart c).1 hu)).mono (by omega)) h2
    · have hapart := (char_ranges_apart c).2 hd
      have h2 : Yields grammar ctx (.alt (.range 'A' 'Z') (.range '0' '9')) cur 2
          (some (cur.past [c], [])) := yields_alt_right (hout _ _ hapart.2) (yields_range_ok hcur hd.1 hd.2)
      exact yields_alt_right ((hout _ _ hapart.1).mono (by omega)) h2
    · exact absurd heq hne
  by_cases hus : c = '_'
  · subst hus
    have hno : Yields grammar ctx asciiAlphanumeric cur 3 none :=
      yields_alt_right ((hout _ _ (by decide)).mono (by omega))
        (yields_alt_right (hout _ _ (by decide)) (hout _ _ (by decide)))
    exact yields_alt_right hno ((yields_lit_ok (by simpa using hcur)).mono (by omega))
  · exact yields_alt_left (hanum hc hus)

theorem yields_identChar_fail (h : WordBreak cur.rest) : Yields grammar ctx identChar cur 4 none := by
  have hcls : ∀ c r, cur.rest = c :: r →
      ¬ ('a' ≤ c ∧ c ≤ 'z') ∧ ¬ ('A' ≤ c ∧ c ≤ 'Z') ∧ ¬ ('0' ≤ c ∧ c ≤ '9') ∧ c ≠ '_' := by
    intro c r hc
    have := h c r hc
    simp only [isIdentChar, Bool.or_eq_false_iff, Bool.and_eq_false_iff, decide_eq_false_iff_not,
      beq_eq_false_iff_ne] at this
    refine ⟨?_, ?_, ?_, this.2⟩ <;> tauto
  have hanum : Yields grammar ctx asciiAlphanumeric cur 3 none :=
    yields_alt_right ((range_fail_of fun c r hc => (hcls c r hc).1).mono (by omega))
      (yields_alt_right (range_fail_of fun c r hc => (hcls c r hc).2.1)
        (range_fail_of fun c r hc => (hcls c r hc).2.2.1))
  have hus : Yields grammar ctx (t "_") cur 3 none :=
    (yields_lit_fail (not_prefix_of_head fun c r hc => (hcls c r hc).2.2.2)).mono (by omega)
  exact yields_alt_right hanum hus

end Chars

/-! ## Words and keywords -/

section Words

variable {ctx : Ctx} {cur : Cursor}

theorem yields_word_ok {w : String} (hat : ctx.atomic = true) (h : StartsWord w.toList cur.rest) :
    Yields grammar ctx (word w) cur 6 (some (cur.past w.toList, [])) := by
  obtain ⟨rest, hcur, hbreak⟩ := h
  have hlit : Yields grammar ctx (t w) cur 5 (some (cur.past w.toList, [])) :=
    (yields_lit_ok hcur).mono (by omega)
  have hnot : Yields grammar ctx (.notAhead identChar) (cur.past w.toList) 5
      (some (cur.past w.toList, [])) :=
    yields_notAhead_ok (yields_identChar_fail (by rwa [Cursor.past_rest_of_eq hcur]))
  exact yields_seq_ok hlit ((skips_atomic hat _).mono (by omega)) hnot

theorem yields_word_fail {w : String} (hat : ctx.atomic = true) (h : ¬ StartsWord w.toList cur.rest) :
    Yields grammar ctx (word w) cur 6 none := by
  by_cases hp : w.toList <+: cur.rest
  · obtain ⟨rest, hcur⟩ := hp
    -- the letters are there, but a longer name goes on after them
    obtain ⟨c, r, hc, hid⟩ : ∃ c r, rest = c :: r ∧ isIdentChar c = true := by
      have hmore : ¬ WordBreak rest := fun hb => h ⟨rest, hcur.symm, hb⟩
      simp only [WordBreak, not_forall, Bool.not_eq_false] at hmore
      obtain ⟨c, r, hc, hid⟩ := hmore
      exact ⟨c, r, hc, hid⟩
    have hlit : Yields grammar ctx (t w) cur 5 (some (cur.past w.toList, [])) :=
      (yields_lit_ok hcur.symm).mono (by omega)
    have hch : Yields grammar ctx.flip identChar (cur.past w.toList) 4
        (some ((cur.past w.toList).past [c], [])) :=
      yields_identChar_ok (by rw [Cursor.past_rest_of_eq hcur.symm, hc]) hid
    exact yields_seq_fail_right hlit ((skips_atomic hat _).mono (by omega)) (yields_notAhead_fail hch)
  · exact yields_seq_fail_left ((yields_lit_fail hp).mono (by omega))

/-- A keyword rule matches its word, atomically, and leaves a node without children. -/
theorem yields_kw_ok {r : Rule} {w : String} (hr : r.body = word w) (ha : r.isAtomic = true)
    (h : StartsWord w.toList cur.rest) :
    Yields grammar ctx (.call r) cur 7 (some (cur.past w.toList,
      ctx.emit ⟨r, cur.pos, cur.pos + utf8Len w.toList, w.toList, []⟩)) := by
  obtain ⟨rest, hcur, hb⟩ := h
  refine yields_call_past hcur ?_
  rw [Ctx.enter_atomic (by simpa using ha), grammar_body, hr]
  exact yields_word_ok rfl ⟨rest, hcur, hb⟩

theorem yields_kw_fail {r : Rule} {w : String} (hr : r.body = word w) (ha : r.isAtomic = true)
    (h : ¬ StartsWord w.toList cur.rest) : Yields grammar ctx (.call r) cur 7 none := by
  refine yields_call_fail ?_
  rw [Ctx.enter_atomic (by simpa using ha), grammar_body, hr]
  exact yields_word_fail rfl h

theorem keywords_identChars : ∀ k ∈ keywords, ∀ x ∈ k.toList, isIdentChar x = true := by
  have hall : (keywords.all fun k => k.toList.all isIdentChar) = true := by decide +kernel
  simp only [List.all_eq_true] at hall
  exact hall

/-- A choice among words matches where one of them stands. -/
theorem yields_words_ok {ws : List String} (hat : ctx.atomic = true)
    (h : ∃ w ∈ ws, StartsWord w.toList cur.rest) :
    ∃ res, Yields grammar ctx (alts (ws.map word)) cur (6 + ws.length) (some res) := by
  induction ws with
  | nil => simp at h
  | cons w ws ih =>
    by_cases hw : StartsWord w.toList cur.rest
    · refine ⟨(cur.past w.toList, []), ?_⟩
      cases ws with
      | nil => exact (yields_word_ok hat hw).mono (by simp)
      | cons w' ws =>
        rw [List.map_cons, alts_cons_of_ne_nil _ (by simp)]
        exact (yields_alt_left (yields_word_ok hat hw)).mono (by simp; omega)
    · obtain ⟨w', hw', hstart⟩ := h
      have hin : w' ∈ ws := by
        rcases List.mem_cons.mp hw' with rfl | hin
        · exact absurd hstart hw
        · exact hin
      obtain ⟨res, hres⟩ := ih ⟨w', hin, hstart⟩
      have hne : ws.map word ≠ [] := by simpa using List.ne_nil_of_mem hin
      refine ⟨res, ?_⟩
      rw [List.map_cons, alts_cons_of_ne_nil _ hne]
      exact (yields_alt_right ((yields_word_fail hat hw).mono (by omega)) hres).mono (by simp)

/-- The keyword rule fails where none of the keywords stands as a word. -/
theorem yields_keyword_fail (h : ∀ k ∈ keywords, ¬ StartsWord k.toList cur.rest) :
    Yields grammar ctx (.call .keyword) cur 33 none := by
  refine yields_call_fail ?_
  rw [Ctx.enter_atomic rfl, grammar_body]
  have hall : ∀ a ∈ keywords.map word, Yields grammar { ctx with atomic := true } a cur 6 none := by
    intro a ha
    obtain ⟨k, hk, rfl⟩ := List.mem_map.mp ha
    exact yields_word_fail rfl (h k hk)
  have hlen : keywords.length = 24 := rfl
  exact (yields_alts_fail hall).mono (by simp only [List.length_map, hlen]; omega)

/-- The keyword rule matches where a keyword stands as a word. -/
theorem yields_keyword_ok (h : ∃ k ∈ keywords, StartsWord k.toList cur.rest) :
    ∃ res, Yields grammar ctx (.call .keyword) cur 31 (some res) := by
  have hlen : keywords.length = 24 := rfl
  obtain ⟨⟨c, kids⟩, hres⟩ := @yields_words_ok { ctx with atomic := true } cur _ rfl h
  have hbody : Yields grammar (ctx.enter grammar .keyword) (grammar.body .keyword) cur 30
      (some (c, kids)) := by
    rw [Ctx.enter_atomic rfl, grammar_body]
    exact hres.mono (by omega)
  exact ⟨_, yields_call_ok hbody⟩

end Words

/-! ## Identifiers -/

/-- A name the grammar reads as an identifier: an ASCII letter or `_`, then ASCII letters,
digits and `_`, and not a keyword. -/
def isIdentifier (s : String) : Bool :=
  match s.toList with
  | [] => false
  | c :: cs => isIdentStart c && cs.all isIdentChar && !keywords.contains s

theorem isIdentifier_iff {s : String} :
    isIdentifier s = true ↔ ∃ c cs, s.toList = c :: cs ∧ isIdentStart c = true ∧
      (∀ x ∈ cs, isIdentChar x = true) ∧ s ∉ keywords := by
  unfold isIdentifier
  split
  · rename_i h
    simp [h]
  · rename_i c cs h
    simp [h, and_assoc]

theorem identChars_of_isIdentifier {s : String} (h : isIdentifier s = true) :
    ∀ x ∈ s.toList, isIdentChar x = true := by
  obtain ⟨c, cs, hs, hc, hcs, -⟩ := isIdentifier_iff.mp h
  rw [hs]
  intro x hx
  rcases List.mem_cons.mp hx with rfl | hx
  · exact isIdentChar_of_isIdentStart hc
  · exact hcs x hx

/-- Where an identifier stands as a word, no keyword does. -/
theorem not_startsWord_keyword {s : String} {cs : List Char} (h : isIdentifier s = true)
    (hs : StartsWord s.toList cs) : ∀ k ∈ keywords, ¬ StartsWord k.toList cs := by
  intro k hk hks
  obtain ⟨-, -, -, -, -, hnot⟩ := isIdentifier_iff.mp h
  have heq := StartsWord.unique (keywords_identChars k hk) (identChars_of_isIdentifier h) hks hs
  exact hnot (String.toList_inj.mp heq ▸ hk)

section Identifiers

variable {ctx : Ctx} {cur : Cursor}

theorem yields_identStart_ok {c : Char} {r : List Char} (hcur : cur.rest = c :: r)
    (hc : isIdentStart c = true) :
    Yields grammar ctx (.alt asciiAlpha (t "_")) cur 3 (some (cur.past [c], [])) := by
  simp only [isIdentStart, Bool.or_eq_true, Bool.and_eq_true, decide_eq_true_eq, beq_iff_eq] at hc
  rcases hc with (hl | hu) | rfl
  · exact (yields_alt_left (yields_alt_left (yields_range_ok hcur hl.1 hl.2))).mono (by omega)
  · have hl : ¬ ('a' ≤ c ∧ c ≤ 'z') := by
      simp only [char_le_iff] at hu ⊢
      simp at hu ⊢
      omega
    have hout : Yields grammar ctx (.range 'a' 'z') cur 1 none :=
      yields_range_fail fun c' r' h' => by
        rw [hcur] at h'
        cases h'
        exact hl
    exact yields_alt_left (yields_alt_right hout (yields_range_ok hcur hu.1 hu.2))
  · have hout : ∀ lo hi : Char, ¬ (lo ≤ '_' ∧ '_' ≤ hi) → Yields grammar ctx (.range lo hi) cur 1 none :=
      fun lo hi h => yields_range_fail fun c' r' h' => by
        rw [hcur] at h'
        cases h'
        exact h
    have hno : Yields grammar ctx asciiAlpha cur 2 none :=
      yields_alt_right (hout _ _ (by decide)) (hout _ _ (by decide))
    exact yields_alt_right hno ((yields_lit_ok (by simpa using hcur)).mono (by omega))

theorem yields_identStart_fail (h : ∀ c r, cur.rest = c :: r → isIdentStart c = false) :
    Yields grammar ctx (.alt asciiAlpha (t "_")) cur 3 none := by
  have hcls : ∀ c r, cur.rest = c :: r → ¬ ('a' ≤ c ∧ c ≤ 'z') ∧ ¬ ('A' ≤ c ∧ c ≤ 'Z') ∧ c ≠ '_' := by
    intro c r hc
    have := h c r hc
    simp only [isIdentStart, Bool.or_eq_false_iff, Bool.and_eq_false_iff, decide_eq_false_iff_not,
      beq_eq_false_iff_ne] at this
    refine ⟨?_, ?_, this.2⟩ <;> tauto
  have hno : Yields grammar ctx asciiAlpha cur 2 none :=
    yields_alt_right (yields_range_fail fun c r hc => (hcls c r hc).1)
      (yields_range_fail fun c r hc => (hcls c r hc).2.1)
  exact yields_alt_right hno ((yields_lit_fail (not_prefix_of_head fun c r hc => (hcls c r hc).2.2)).mono
    (by omega))

/-- The star of identifier characters runs to the end of a word. -/
theorem yields_identChars (hat : ctx.atomic = true) {u rest : List Char} (hcur : cur.rest = u ++ rest)
    (hu : ∀ x ∈ u, isIdentChar x = true) (hb : WordBreak rest) :
    Yields grammar ctx (.star identChar) cur 7 (some (cur.past u, [])) :=
  yields_star (starYields_chars hat (fun _ _ _ h hc => yields_identChar_ok h hc)
    (fun _ h => yields_identChar_fail h) hcur hu hb)

/-- An identifier matches itself, up to the end of its word. -/
theorem yields_identifier_ok {x : String} {rest : List Char} (hx : isIdentifier x = true)
    (hcur : cur.rest = x.toList ++ rest) (hb : WordBreak rest) :
    Yields grammar ctx (.call .identifier) cur 36 (some (cur.past x.toList,
      ctx.emit ⟨.identifier, cur.pos, cur.pos + utf8Len x.toList, x.toList, []⟩)) := by
  obtain ⟨c, cs, hxs, hc, hcs, -⟩ := isIdentifier_iff.mp hx
  refine yields_call_past hcur ?_
  rw [Ctx.enter_atomic rfl, grammar_body]
  have hnot : Yields grammar { ctx with atomic := true } (.notAhead (.call .keyword)) cur 34
      (some (cur, [])) :=
    yields_notAhead_ok (yields_keyword_fail
      (not_startsWord_keyword hx ⟨rest, hcur, hb⟩))
  have hcur' : cur.rest = c :: (cs ++ rest) := by simp [hcur, hxs]
  have hfirst : Yields grammar { ctx with atomic := true } (.alt asciiAlpha (t "_")) cur 7
      (some (cur.past [c], [])) := (yields_identStart_ok hcur' hc).mono (by omega)
  have hstar : Yields grammar { ctx with atomic := true } (.star identChar) (cur.past [c]) 7
      (some ((cur.past [c]).past cs, [])) :=
    yields_identChars rfl (by simp [hcur']) hcs hb
  have htail := yields_seq_ok hfirst ((skips_atomic rfl _).mono (by omega)) hstar
  rw [Cursor.past_past, List.singleton_append, ← hxs] at htail
  exact yields_seq_ok hnot ((skips_atomic rfl _).mono (by omega)) (htail.mono (by omega))

/-- No identifier starts where the text does not start with a letter or `_`. -/
theorem yields_identifier_fail_start (h : ∀ c r, cur.rest = c :: r → isIdentStart c = false) :
    Yields grammar ctx (.call .identifier) cur 36 none := by
  refine yields_call_fail ?_
  rw [Ctx.enter_atomic rfl, grammar_body]
  -- every keyword starts with a letter, so none stands here either
  have hnokw : ∀ k ∈ keywords, ¬ StartsWord k.toList cur.rest := by
    rintro k hk ⟨rest, hcur, -⟩
    have hall : (keywords.all fun k => (k.toList.head?.map isIdentStart).getD false) = true := by
      decide +kernel
    have hk' := List.all_eq_true.mp hall k hk
    cases hcs : k.toList with
    | nil => simp [hcs] at hk'
    | cons c cs =>
      rw [hcs] at hcur hk'
      simp [h c (cs ++ rest) hcur] at hk'
  have hnot : Yields grammar { ctx with atomic := true } (.notAhead (.call .keyword)) cur 34
      (some (cur, [])) := yields_notAhead_ok (yields_keyword_fail hnokw)
  exact yields_seq_fail_right hnot ((skips_atomic rfl _).mono (by omega))
    (yields_seq_fail_left ((yields_identStart_fail h).mono (by omega)))

/-- No identifier starts where a keyword stands. -/
theorem yields_identifier_fail_keyword (h : ∃ k ∈ keywords, StartsWord k.toList cur.rest) :
    Yields grammar ctx (.call .identifier) cur 36 none := by
  refine yields_call_fail ?_
  rw [Ctx.enter_atomic rfl, grammar_body]
  obtain ⟨res, hres⟩ := yields_keyword_ok h
  exact yields_seq_fail_left ((yields_notAhead_fail hres).mono (by omega))

end Identifiers

/-! ## Numbers -/

theorem isDigit_iff {c : Char} : c.isDigit = true ↔ ('0' ≤ c ∧ c ≤ '9') := by
  simp only [Char.isDigit, Bool.and_eq_true, decide_eq_true_eq]
  exact Iff.rfl

theorem isIdentChar_of_isDigit {c : Char} (h : c.isDigit = true) : isIdentChar c = true := by
  simp only [isIdentChar, isDigit_iff.mp h, Bool.or_eq_true, Bool.and_eq_true, decide_eq_true_eq]
  tauto

/-- The digits of a natural number, as `toString` writes them. -/
theorem toString_toList (n : Nat) : (toString n).toList = Nat.toDigits 10 n := by
  show (String.ofList (Nat.toDigits 10 n)).toList = _
  rw [String.toList_ofList]

theorem digitsValue_append_digit (ds : List Char) (c : Char) :
    digitsValue (ds ++ [c]) = 10 * digitsValue ds + (c.toNat - '0'.toNat) := by
  simp [digitsValue, List.foldl_append]

/-- Reading the digits of a number gives the number back. -/
theorem digitsValue_toDigits (n : Nat) : digitsValue (Nat.toDigits 10 n) = n := by
  induction n using Nat.strong_induction_on with
  | _ n ih =>
    by_cases hn : n < 10
    · rw [Nat.toDigits_of_lt_base hn]
      have hc : (Nat.digitChar n).toNat = n + 48 := by interval_cases n <;> rfl
      simp [digitsValue, hc]
    · -- the last digit is written after the digits of the tens
      have hq : 0 < n / 10 := by omega
      have hsplit := Nat.toDigits_append_toDigits (b := 10) (by omega) hq (Nat.mod_lt n (by omega))
      rw [Nat.div_add_mod] at hsplit
      rw [← hsplit, Nat.toDigits_of_lt_base (Nat.mod_lt n (by omega)), digitsValue_append_digit,
        ih (n / 10) (by omega)]
      have hc : (Nat.digitChar (n % 10)).toNat = n % 10 + 48 := by
        have : n % 10 < 10 := Nat.mod_lt n (by omega)
        interval_cases (n % 10) <;> rfl
      rw [hc]
      simp
      omega

section Numbers

variable {ctx : Ctx} {cur : Cursor}

/-- A run of digits matches as a number up to the end of its word. -/
theorem yields_number_ok {ds rest : List Char} (hcur : cur.rest = ds ++ rest) (hne : ds ≠ [])
    (hds : ∀ x ∈ ds, x.isDigit = true) (hb : WordBreak rest) :
    Yields grammar ctx (.call .number) cur 7
      (some (cur.past ds, ctx.emit ⟨.number, cur.pos, cur.pos + utf8Len ds, ds, []⟩)) := by
  obtain ⟨d, ds', rfl⟩ := List.exists_cons_of_ne_nil hne
  refine yields_call_past hcur ?_
  rw [Ctx.enter_atomic rfl, grammar_body]
  have hdigit : ∀ (c : Cursor) x r, c.rest = x :: r → x.isDigit = true →
      Yields grammar { ctx with atomic := true } (.range '0' '9') c 1 (some (c.past [x], [])) :=
    fun c x r hc hx => yields_range_ok hc (isDigit_iff.mp hx).1 (isDigit_iff.mp hx).2
  have hnot : ∀ c : Cursor, (∀ x r, c.rest = x :: r → x.isDigit = false) →
      Yields grammar { ctx with atomic := true } (.range '0' '9') c 1 none :=
    fun c hc => yields_range_fail fun x r hx h => by
      have hx' := hc x r hx
      rw [← Bool.not_eq_true, isDigit_iff] at hx'
      exact hx' h
  have hcur' : cur.rest = d :: (ds' ++ rest) := by simp [hcur]
  have hfirst : Yields grammar { ctx with atomic := true } (.range '0' '9') cur 3
      (some (cur.past [d], [])) := (hdigit cur d _ hcur' (hds d (by simp))).mono (by omega)
  -- the digits stop where the word does
  have hend : ∀ x r, rest = x :: r → x.isDigit = false := by
    intro x r hx
    have hbx := hb x r hx
    rw [← Bool.not_eq_true] at hbx ⊢
    exact fun h => hbx (isIdentChar_of_isDigit h)
  have hstar : StarYields grammar { ctx with atomic := true } (.range '0' '9') (cur.past [d]) 3
      ((cur.past [d]).past ds', []) :=
    starYields_chars rfl hdigit hnot (by simp [hcur']) (fun x hx => hds x (by simp [hx])) hend
  have hplus := yields_plus_ok hfirst ((skips_atomic rfl _).mono (by omega)) hstar
  rw [Cursor.past_past, List.singleton_append] at hplus
  have hafter : (cur.past (d :: ds')).rest = rest := Cursor.past_rest_of_eq hcur
  have hbreak : Yields grammar { ctx with atomic := true } (.notAhead identChar) (cur.past (d :: ds')) 5
      (some (cur.past (d :: ds'), [])) :=
    yields_notAhead_ok (yields_identChar_fail (by rw [hafter]; exact hb))
  exact yields_seq_ok (hplus.mono (by omega)) ((skips_atomic rfl _).mono (by omega)) hbreak

end Numbers

/-! ## Strings -/

/-- What `quoteChars` writes for one character: an escape pair, or the character itself. -/
def quoteUnit (c : Char) : List Char :=
  if c = '"' then ['\\', '"'] else if c = '\\' then ['\\', '\\']
  else if c = '\n' then ['\\', 'n'] else if c = '\t' then ['\\', 't']
  else if c = '\r' then ['\\', 'r'] else if c = '\x00' then ['\\', '0'] else [c]

theorem quoteChars_eq_flatMap (cs : List Char) : quoteChars cs = cs.flatMap quoteUnit := by
  induction cs with
  | nil => rfl
  | cons c cs ih =>
    simp only [quoteChars, List.flatMap_cons, ih, quoteUnit]
    split_ifs <;> rfl

/-- A unit is an escape pair, or a character that needs no escape. -/
theorem quoteUnit_cases (c : Char) :
    (∃ x, quoteUnit c = ['\\', x]) ∨
      (quoteUnit c = [c] ∧ c ≠ '"' ∧ c ≠ '\\' ∧ c ≠ '\n' ∧ c ≠ '\r') := by
  unfold quoteUnit
  split_ifs <;> simp_all

theorem unescapeBody_quoteUnit (c : Char) (rest : List Char) :
    unescapeBody (quoteUnit c ++ rest) = c :: unescapeBody rest := by
  unfold quoteUnit
  split_ifs with h1 h2 h3 h4 h5 h6
  · subst h1; rfl
  · subst h2; rfl
  · subst h3; rfl
  · subst h4; rfl
  · subst h5; rfl
  · subst h6; rfl
  · rw [List.singleton_append, unescapeBody]
    exact fun _ _ h _ => h2 h

/-- Unescaping undoes quoting. -/
theorem unescapeBody_quoteChars (cs : List Char) : unescapeBody (quoteChars cs) = cs := by
  induction cs with
  | nil => rfl
  | cons c cs ih =>
    rw [quoteChars_eq_flatMap, List.flatMap_cons, unescapeBody_quoteUnit, ← quoteChars_eq_flatMap, ih]

theorem quote_toList (s : String) : (quote s).toList = '"' :: (quoteChars s.toList ++ ['"']) := by
  simp [quote]

/-- A quoted text never opens with a second quote: a quote inside is escaped. -/
theorem quoteChars_head_ne_quote {cs : List Char} {a : Char} {rest : List Char}
    (h : quoteChars cs = a :: rest) : a ≠ '"' := by
  rw [quoteChars_eq_flatMap] at h
  cases cs with
  | nil => simp at h
  | cons c cs =>
    rw [List.flatMap_cons] at h
    rcases quoteUnit_cases c with ⟨x, hx⟩ | ⟨hx, hc, -⟩
    · rw [hx] at h
      simp only [List.cons_append, List.cons.injEq] at h
      rw [← h.1]
      decide
    · rw [hx] at h
      simp only [List.cons_append, List.nil_append, List.cons.injEq] at h
      rw [← h.1]
      exact hc

/-- A literal that does not open with a triple quote loses one character at each end. -/
theorem unescapeString_of_single {raw : List Char}
    (hw : ¬ (raw.take 3 = ['"', '"', '"'] ∨ raw.take 3 = ['\'', '\'', '\''])) (hlen : 2 ≤ raw.length) :
    unescapeString raw = String.ofList (unescapeBody ((raw.drop 1).take (raw.length - 2))) := by
  unfold unescapeString
  dsimp only
  rw [if_neg hw, if_pos (by omega)]

/-- The value of a quoted literal is the string quoted. -/
theorem unescapeString_quote (s : String) : unescapeString (quote s).toList = s := by
  -- one quote opens the literal, not three
  have hwidth : ¬ ((quote s).toList.take 3 = ['"', '"', '"'] ∨
      (quote s).toList.take 3 = ['\'', '\'', '\'']) := by
    rw [quote_toList]
    rintro (h | h)
    · cases hq : quoteChars s.toList with
      | nil =>
        rw [hq] at h
        simp at h
      | cons a q =>
        rw [hq] at h
        simp only [List.cons_append, List.take_succ_cons, List.cons.injEq] at h
        exact quoteChars_head_ne_quote hq h.2.1
    · simp at h
  rw [unescapeString_of_single hwidth (by simp [quote_toList]), quote_toList]
  simp [unescapeBody_quoteChars]

section Strings

variable {ctx : Ctx} {cur : Cursor}

theorem yields_lit_fail_head {s : List Char} {x : Char} (h : ∀ c r, cur.rest = c :: r → c ≠ x) :
    Yields grammar ctx (.lit (x :: s)) cur 1 none :=
  yields_lit_fail (not_prefix_of_head h)

/-- No line break starts where the text starts with neither a line feed nor a return. -/
theorem yields_newline_fail (h : ∀ c r, cur.rest = c :: r → c ≠ '\n' ∧ c ≠ '\r') :
    Yields grammar ctx newline cur 6 none := by
  have hall : ∀ a ∈ [t "\n", t "\r\n", t "\r"], Yields grammar ctx a cur 1 none := by
    simp only [List.mem_cons, List.mem_nil_iff, or_false]
    rintro a (rfl | rfl | rfl)
    · exact yields_lit_fail_head fun c r hc => (h c r hc).1
    · exact yields_lit_fail_head fun c r hc => (h c r hc).2
    · exact yields_lit_fail_head fun c r hc => (h c r hc).2
  exact yields_alts_fail hall

/-- The body of a one-line string: what may stand before its closing quote. -/
abbrev lineStringUnit : PExpr Rule := .seq (.notAhead (.alt (t "\"") newline)) stringChar

/-- One unit of a quoted text: the lookahead lets it pass, and one string character takes it. -/
theorem yields_lineStringUnit (hat : ctx.atomic = true) (c : Char) {more : List Char}
    (hcur : cur.rest = quoteUnit c ++ more) :
    Yields grammar ctx lineStringUnit cur 9 (some (cur.past (quoteUnit c), [])) := by
  rcases quoteUnit_cases c with ⟨x, hx⟩ | ⟨hx, hq, hb, hn, hr⟩
  · -- an escape pair: a backslash and the escaped character
    rw [hx] at hcur ⊢
    have hcur' : cur.rest = '\\' :: x :: more := by simpa using hcur
    have hstop : Yields grammar ctx.flip (.alt (t "\"") newline) cur 7 none :=
      yields_alt_right ((yields_lit_fail_head fun c r hc => by rw [hcur'] at hc; cases hc; decide).mono
        (by omega)) (yields_newline_fail fun c r hc => by rw [hcur'] at hc; cases hc; decide)
    have hback : Yields grammar ctx (t "\\") cur 2 (some (cur.past ['\\'], [])) :=
      (yields_lit_ok (by simpa using hcur')).mono (by omega)
    have hany : Yields grammar ctx .any (cur.past ['\\']) 2
        (some ((cur.past ['\\']).past [x], [])) :=
      (yields_any_ok (show (cur.past ['\\']).rest = x :: more by simp [hcur'])).mono (by omega)
    have hpair := yields_seq_ok hback ((skips_atomic hat _).mono (by omega)) hany
    rw [Cursor.past_past] at hpair
    have hchar : Yields grammar ctx stringChar cur 8 (some (cur.past ['\\', x], [])) :=
      (yields_alt_left hpair).mono (by omega)
    exact yields_seq_ok (yields_notAhead_ok hstop) ((skips_atomic hat _).mono (by omega)) hchar
  · -- a character that stands for itself
    rw [hx] at hcur ⊢
    have hcur' : cur.rest = c :: more := by simpa using hcur
    have hstop : Yields grammar ctx.flip (.alt (t "\"") newline) cur 7 none :=
      yields_alt_right ((yields_lit_fail_head fun c' r hc => by rw [hcur'] at hc; cases hc; exact hq).mono
        (by omega)) (yields_newline_fail fun c' r hc => by rw [hcur'] at hc; cases hc; exact ⟨hn, hr⟩)
    have hnoesc : Yields grammar ctx (.seq (t "\\") .any) cur 2 none :=
      yields_seq_fail_left (yields_lit_fail_head fun c' r hc => by rw [hcur'] at hc; cases hc; exact hb)
    have hchar : Yields grammar ctx stringChar cur 8 (some (cur.past [c], [])) :=
      (yields_alt_right hnoesc ((yields_any_ok hcur').mono (by omega))).mono (by omega)
    exact yields_seq_ok (yields_notAhead_ok hstop) ((skips_atomic hat _).mono (by omega)) hchar

/-- A one-line string's body stops at its closing quote. -/
theorem yields_lineStringUnit_quote {more : List Char} (hcur : cur.rest = '"' :: more) :
    Yields grammar ctx lineStringUnit cur 9 none := by
  have hq : Yields grammar ctx.flip (.alt (t "\"") newline) cur 7 (some (cur.past ['"'], [])) :=
    (yields_alt_left (yields_lit_ok (by simpa using hcur))).mono (by omega)
  exact yields_seq_fail_left (yields_notAhead_fail hq)

/-- The units of a quoted text, one turn each. -/
theorem stepsFrom_quoteUnits (hat : ctx.atomic = true) (n : Nat) (hn : 9 ≤ n) :
    ∀ (cs more : List Char) (c0 : Cursor), c0.rest = quoteChars cs ++ more →
      StepsFrom (repetition grammar n ctx lineStringUnit) c0 (cs.map fun c => (quoteUnit c, [])) := by
  intro cs
  induction cs with
  | nil => intro _ _ _; trivial
  | cons c cs ih =>
    intro more c0 hc0
    rw [quoteChars_eq_flatMap, List.flatMap_cons, List.append_assoc, ← quoteChars_eq_flatMap] at hc0
    refine ⟨?_, ?_, ih more _ (by rw [Cursor.past_rest_of_eq hc0])⟩
    · rcases quoteUnit_cases c with ⟨x, hx⟩ | ⟨hx, -⟩ <;> simp [hx]
    · exact gives_repetition ((skips_atomic hat c0).mono (by omega)) (yields_lineStringUnit hat c hc0) n hn

/-- The body of a one-line string runs over the quoted text up to its closing quote. -/
theorem yields_lineStringBody (hat : ctx.atomic = true) (cs : List Char) {more : List Char}
    (hcur : cur.rest = quoteChars cs ++ '"' :: more) :
    Yields grammar ctx (.star lineStringUnit) cur 11 (some (cur.past (quoteChars cs), [])) := by
  cases cs with
  | nil =>
    simpa [quoteChars] using yields_star (starYields_none (yields_lineStringUnit_quote
      (by simpa [quoteChars] using hcur)))
  | cons c cs =>
    rw [quoteChars_eq_flatMap, List.flatMap_cons, ← quoteChars_eq_flatMap] at hcur ⊢
    have hfirst := yields_lineStringUnit hat c (by rw [hcur, List.append_assoc])
    have hafter : (cur.past (quoteUnit c)).rest = quoteChars cs ++ '"' :: more := by
      rw [Cursor.past_rest_of_eq (by rw [hcur, List.append_assoc])]
    have hflat : (cs.map fun c => (quoteUnit c, ([] : List Node))).flatMap Prod.fst = quoteChars cs := by
      rw [quoteChars_eq_flatMap, List.flatMap_map]
    have hstar := starYields_steps hfirst
      (fun n hn => stepsFrom_quoteUnits hat n hn cs _ _ hafter)
      (fun n hn => by
        rw [hflat]
        exact gives_repetition ((skips_atomic hat _).mono (by omega))
          (yields_lineStringUnit_quote (by rw [Cursor.past_rest_of_eq hafter])) n hn)
      (by rw [hflat, hafter])
    have hnodes : (cs.map fun c => (quoteUnit c, ([] : List Node))).flatMap Prod.snd = [] := by
      simp
    rw [hflat, hnodes, Cursor.past_past] at hstar
    exact yields_star hstar

/-- The double-quoted one-line form matches a quoted text up to its closing quote, whatever
follows it. -/
theorem yields_dqString_quote (hat : ctx.atomic = true) (s : String) {rest : List Char}
    (hcur : cur.rest = (quote s).toList ++ rest) :
    Yields grammar ctx (lineString "\"") cur 14 (some (cur.past (quote s).toList, [])) := by
  have hcur' : cur.rest = '"' :: (quoteChars s.toList ++ '"' :: rest) := by
    rw [hcur, quote_toList]
    simp
  have hopen : Yields grammar ctx (t "\"") cur 13 (some (cur.past ['"'], [])) :=
    (yields_lit_ok (by simpa using hcur')).mono (by omega)
  have hbody : Yields grammar ctx (.star lineStringUnit) (cur.past ['"']) 11
      (some ((cur.past ['"']).past (quoteChars s.toList), [])) :=
    yields_lineStringBody hat s.toList
      (show (cur.past ['"']).rest = quoteChars s.toList ++ '"' :: rest by simp [hcur'])
  have hclose : Yields grammar ctx (t "\"") ((cur.past ['"']).past (quoteChars s.toList)) 12
      (some (((cur.past ['"']).past (quoteChars s.toList)).past ['"'], [])) :=
    (yields_lit_ok (show ((cur.past ['"']).past (quoteChars s.toList)).rest = ['"'] ++ rest by
      simp [hcur'])).mono (by omega)
  have hinner := yields_seq_ok (hbody.mono (by omega)) ((skips_atomic hat _).mono (by omega)) hclose
  have hline := yields_seq_ok hopen ((skips_atomic hat _).mono (by omega)) hinner
  simp only [Cursor.past_past, List.append_nil] at hline
  have hpast : cur.past (['"'] ++ quoteChars s.toList ++ ['"']) = cur.past (quote s).toList := by
    rw [quote_toList]
    rfl
  rw [hpast] at hline
  exact hline

/-- A quoted string matches as a string literal where no quote follows it: the triple-quoted
forms fail, and the double-quoted one-line form takes it. -/
theorem yields_string_ok (s : String) {rest : List Char} (hcur : cur.rest = (quote s).toList ++ rest)
    (hq : ∀ r, rest ≠ '"' :: r) :
    Yields grammar ctx (.call .string) cur 18 (some (cur.past (quote s).toList,
      ctx.emit ⟨.string, cur.pos, cur.pos + utf8Len (quote s).toList, (quote s).toList, []⟩)) := by
  refine yields_call_past hcur ?_
  rw [Ctx.enter_atomic rfl, grammar_body]
  have hcur' : cur.rest = '"' :: (quoteChars s.toList ++ '"' :: rest) := by
    rw [hcur, quote_toList]
    simp
  -- no triple quote opens here: the quoted text does not start with a quote
  have hnot3 : ¬ ['"', '"', '"'] <+: cur.rest := by
    rintro ⟨u, hu⟩
    rw [hcur'] at hu
    cases hQ : quoteChars s.toList with
    | nil =>
      rw [hQ] at hu
      simp only [List.cons_append, List.nil_append, List.cons.injEq, true_and] at hu
      exact hq _ hu.symm
    | cons a q =>
      rw [hQ] at hu
      simp only [List.cons_append, List.cons.injEq, true_and] at hu
      exact quoteChars_head_ne_quote hQ hu.1.symm
  have hdq : Yields grammar { ctx with atomic := true } (tripleString "\"") cur 2 none :=
    yields_seq_fail_left (yields_lit_fail hnot3)
  have hsq : Yields grammar { ctx with atomic := true } (tripleString "'") cur 2 none :=
    yields_seq_fail_left (yields_lit_fail_head fun c r hc => by rw [hcur'] at hc; cases hc; decide)
  have hline : Yields grammar { ctx with atomic := true } (lineString "\"") cur 14
      (some (cur.past (quote s).toList, [])) :=
    yields_dqString_quote rfl s hcur
  have hpre : ∀ b ∈ [tripleString "\"", tripleString "'"],
      Yields grammar { ctx with atomic := true } b cur 14 none := by
    simp only [List.mem_cons, List.mem_nil_iff, or_false]
    rintro b (rfl | rfl)
    · exact hdq.mono (by omega)
    · exact hsq.mono (by omega)
  have halts : Yields grammar { ctx with atomic := true }
      (alts ([tripleString "\"", tripleString "'"] ++ lineString "\"" :: [lineString "'"])) cur
      (14 + 2 + 1) (some (cur.past (quote s).toList, [])) := yields_alts_ok hpre hline
  exact halts

end Strings

/-! ## Blanks -/

/-- Nothing at the start of the text that the grammar skips as blank. -/
def NoBlank (rest : List Char) : Prop :=
  ∀ c r, rest = c :: r → c ≠ ' ' ∧ c ≠ '\t' ∧ c ≠ '\n' ∧ c ≠ '\r' ∧ c ≠ '\\'

@[simp] theorem noBlank_nil : NoBlank [] := fun _ _ h => nomatch h

section Blanks

variable {ctx : Ctx} {cur : Cursor}

theorem yields_blank_space {r : List Char} (hcur : cur.rest = ' ' :: r) :
    Yields grammar ctx blank cur 2 (some (cur.past [' '], [])) :=
  yields_alt_left (yields_lit_ok (by simpa using hcur))

theorem yields_blank_fail (h : NoBlank cur.rest) : Yields grammar ctx blank cur 12 none := by
  have hall : ∀ a ∈ [t " ", t "\t", newline, .seq (t "\\") newline],
      Yields grammar ctx a cur 6 none := by
    simp only [List.mem_cons, List.mem_nil_iff, or_false]
    rintro a (rfl | rfl | rfl | rfl)
    · exact (yields_lit_fail_head fun c r hc => (h c r hc).1).mono (by omega)
    · exact (yields_lit_fail_head fun c r hc => (h c r hc).2.1).mono (by omega)
    · exact yields_newline_fail fun c r hc => ⟨(h c r hc).2.2.1, (h c r hc).2.2.2.1⟩
    · exact (yields_seq_fail_left (yields_lit_fail_head fun c r hc => (h c r hc).2.2.2.2)).mono
        (by omega)
  exact yields_alts_fail hall

/-- Skipping a run of spaces, one turn per space. -/
theorem stepsFrom_spaces (n : Nat) (hn : 2 ≤ n) : ∀ (m : Nat) (c : Cursor) (rest : List Char),
    c.rest = List.replicate m ' ' ++ rest →
      StepsFrom (fun c => matchExpr grammar n ctx grammar.blank c) c (List.replicate m ([' '], [])) := by
  intro m
  induction m with
  | zero => intro _ _ _; trivial
  | succ m ih =>
    intro c rest hc
    rw [List.replicate_succ, List.cons_append] at hc
    exact ⟨by simp, yields_blank_space hc n hn, ih _ rest (by simp [hc])⟩

theorem flatMap_replicate_spaces (m : Nat) :
    (List.replicate m ([' '], ([] : List Node))).flatMap Prod.fst = List.replicate m ' ' := by
  induction m with
  | zero => rfl
  | succ m ih => simp [List.replicate_succ, ih]

/-- Between the tokens of a normal rule the matcher skips the spaces that stand there and
stops before what is not blank. -/
theorem skips_spaces (hn : ctx.atomic = false) (m : Nat) {rest : List Char}
    (hcur : cur.rest = List.replicate m ' ' ++ rest) (h : NoBlank rest) :
    Skips grammar ctx cur 13 (cur.past (List.replicate m ' ')) := by
  have hrep : ∀ n, 12 ≤ n → Repeats (fun c => matchExpr grammar n { ctx with atomic := true }
      grammar.blank c) cur [] (cur.rest.length + 1) (cur.past (List.replicate m ' '), []) := by
    intro n hn'
    have hsteps : StepsFrom (fun c => matchExpr grammar n { ctx with atomic := true } grammar.blank c)
        cur (List.replicate m ([' '], [])) := stepsFrom_spaces n (by omega) m cur rest hcur
    have hstop : Gives (matchExpr grammar n { ctx with atomic := true } grammar.blank
        (cur.past ((List.replicate m ([' '], ([] : List Node))).flatMap Prod.fst))) none := by
      rw [flatMap_replicate_spaces]
      exact yields_blank_fail (by rw [Cursor.past_rest_of_eq hcur]; exact h) n (by omega)
    have hrun : Repeats (fun c => matchExpr grammar n { ctx with atomic := true } grammar.blank c)
        cur [] ((List.replicate m ([' '], ([] : List Node))).length + 1)
        (cur.past ((List.replicate m ([' '], ([] : List Node))).flatMap Prod.fst),
          [] ++ (List.replicate m ([' '], ([] : List Node))).flatMap Prod.snd) :=
      repeats_steps hsteps hstop
    have hsnd : (List.replicate m ([' '], ([] : List Node))).flatMap Prod.snd = [] := by
      clear hsteps hstop hrun hcur
      induction m with
      | zero => rfl
      | succ m ih => simp [List.replicate_succ, ih]
    rw [flatMap_replicate_spaces, hsnd] at hrun
    refine (by simpa using hrun : Repeats _ cur [] (m + 1) _).mono ?_
    rw [hcur]
    simp
  exact skips_normal hn hrep

theorem skips_none (hn : ctx.atomic = false) (h : NoBlank cur.rest) : Skips grammar ctx cur 13 cur := by
  simpa using skips_spaces hn 0 (by simp) h

theorem skips_space (hn : ctx.atomic = false) {rest : List Char} (hcur : cur.rest = ' ' :: rest)
    (h : NoBlank rest) : Skips grammar ctx cur 13 (cur.past [' ']) :=
  skips_spaces hn 1 (by simpa using hcur) h

end Blanks

/-! ## Operator tokens -/

/-- The rule of the operator tokens of a binding level whose operators are symbols:
comparisons, additive and multiplicative operators. -/
def symbolRule (p : Nat) : Rule := if p = 4 then .compOp else if p = 5 then .addOp else .mulOp

section Operators

variable {ctx : Ctx} {cur : Cursor}

/-- A choice of literal texts answers with the first one the text starts with. -/
theorem yields_alts_lit_ok (pre : List String) (w : String) (post : List (PExpr Rule))
    {rest : List Char} (hpre : ∀ s ∈ pre, ¬ s.toList <+: cur.rest) (hcur : cur.rest = w.toList ++ rest) :
    Yields grammar ctx (alts (pre.map t ++ t w :: post)) cur (pre.length + 2)
      (some (cur.past w.toList, [])) := by
  have hall : ∀ b ∈ pre.map t, Yields grammar ctx b cur 1 none := by
    intro b hb
    obtain ⟨s, hs, rfl⟩ := List.mem_map.mp hb
    exact yields_lit_fail (hpre s hs)
  have h : Yields grammar ctx (alts (pre.map t ++ t w :: post)) cur (1 + (pre.map t).length + 1)
      (some (cur.past w.toList, [])) := yields_alts_ok hall (yields_lit_ok hcur)
  exact h.mono (by simp; omega)

theorem symbolRule_atomic (p : Nat) : (symbolRule p).isAtomic = true := by
  unfold symbolRule
  split_ifs <;> rfl

/-- A symbol operator matches its own spelling where a blank follows it. -/
theorem yields_symbol_ok (op : BinOp) (hp : 4 ≤ op.precedence) {r : List Char}
    (hcur : cur.rest = op.symbol.toList ++ ' ' :: r) :
    Yields grammar ctx (.call (symbolRule op.precedence)) cur 9 (some (cur.past op.symbol.toList,
      ctx.emit ⟨symbolRule op.precedence, cur.pos, cur.pos + utf8Len op.symbol.toList,
        op.symbol.toList, []⟩)) := by
  have hbody : Yields grammar (ctx.enter grammar (symbolRule op.precedence))
      (grammar.body (symbolRule op.precedence)) cur 8 (some (cur.past op.symbol.toList, [])) := by
    rw [Ctx.enter_atomic (symbolRule_atomic _), grammar_body]
    cases op with
    | add => exact (yields_alts_lit_ok [] "+" [t "-"] (by simp) hcur).mono (by simp)
    | sub => exact (yields_alts_lit_ok ["+"] "-" [] (by simp [hcur, BinOp.symbol]) hcur).mono (by simp)
    | mul => exact (yields_alts_lit_ok ["//"] "*" [t "/", t "%"] (by simp [hcur, BinOp.symbol]) hcur).mono (by simp)
    | div => exact (yields_alts_lit_ok ["//", "*"] "/" [t "%"] (by simp [hcur, BinOp.symbol]) hcur).mono (by simp)
    | floorDiv => exact (yields_alts_lit_ok [] "//" [t "*", t "/", t "%"] (by simp) hcur).mono (by simp)
    | mod => exact (yields_alts_lit_ok ["//", "*", "/"] "%" [] (by simp [hcur, BinOp.symbol]) hcur).mono (by simp)
    | eq => exact (yields_alts_lit_ok [] "==" [t "!=", t "<=", t ">=", t "<", t ">"] (by simp) hcur).mono (by simp)
    | notEq => exact (yields_alts_lit_ok ["=="] "!=" [t "<=", t ">=", t "<", t ">"] (by simp [hcur, BinOp.symbol]) hcur).mono (by simp)
    | lt => exact (yields_alts_lit_ok ["==", "!=", "<=", ">="] "<" [t ">"] (by simp [hcur, BinOp.symbol]) hcur).mono (by simp)
    | ltE => exact (yields_alts_lit_ok ["==", "!="] "<=" [t ">=", t "<", t ">"] (by simp [hcur, BinOp.symbol]) hcur).mono (by simp)
    | gt => exact (yields_alts_lit_ok ["==", "!=", "<=", ">=", "<"] ">" [] (by simp [hcur, BinOp.symbol]) hcur).mono (by simp)
    | gtE => exact (yields_alts_lit_ok ["==", "!=", "<="] ">=" [t "<", t ">"] (by simp [hcur, BinOp.symbol]) hcur).mono (by simp)
    | and => simp [BinOp.precedence] at hp
    | or => simp [BinOp.precedence] at hp
  exact yields_call_past hcur hbody

/-- No operator token of a symbol level starts where none of its operators' spellings does. -/
theorem yields_symbol_fail {p : Nat} (hp : 4 ≤ p ∧ p ≤ 6)
    (h : ∀ op : BinOp, op.precedence = p → ¬ op.symbol.toList <+: cur.rest) :
    Yields grammar ctx (.call (symbolRule p)) cur 10 none := by
  refine yields_call_fail ?_
  rw [Ctx.enter_atomic (symbolRule_atomic _), grammar_body]
  obtain ⟨hlo, hhi⟩ := hp
  interval_cases p
  · have hall : ∀ a ∈ [t "==", t "!=", t "<=", t ">=", t "<", t ">"],
        Yields grammar { ctx with atomic := true } a cur 1 none := by
      simp only [List.mem_cons, List.mem_nil_iff, or_false]
      rintro a (rfl | rfl | rfl | rfl | rfl | rfl)
      · exact yields_lit_fail (h .eq rfl)
      · exact yields_lit_fail (h .notEq rfl)
      · exact yields_lit_fail (h .ltE rfl)
      · exact yields_lit_fail (h .gtE rfl)
      · exact yields_lit_fail (h .lt rfl)
      · exact yields_lit_fail (h .gt rfl)
    exact (yields_alts_fail hall).mono (by simp)
  · have hall : ∀ a ∈ [t "+", t "-"], Yields grammar { ctx with atomic := true } a cur 1 none := by
      simp only [List.mem_cons, List.mem_nil_iff, or_false]
      rintro a (rfl | rfl)
      · exact yields_lit_fail (h .add rfl)
      · exact yields_lit_fail (h .sub rfl)
    exact (yields_alts_fail hall).mono (by simp)
  · have hall : ∀ a ∈ [t "//", t "*", t "/", t "%"],
        Yields grammar { ctx with atomic := true } a cur 1 none := by
      simp only [List.mem_cons, List.mem_nil_iff, or_false]
      rintro a (rfl | rfl | rfl | rfl)
      · exact yields_lit_fail (h .floorDiv rfl)
      · exact yields_lit_fail (h .mul rfl)
      · exact yields_lit_fail (h .div rfl)
      · exact yields_lit_fail (h .mod rfl)
    exact (yields_alts_fail hall).mono (by simp)

end Operators

end Espalier.Syntax
