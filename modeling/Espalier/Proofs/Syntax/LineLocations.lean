import Mathlib.Data.String.Basic
import Espalier.Syntax.LogicalLine

/-!
# Logical lines point back into their source

`splitLogicalLines` drops comments, joins bracketed and continued lines and trims each line,
yet every line keeps enough to find its characters in the source: the physical line it starts
on, its indentation, and `LogicalLine.locAt`, which turns a byte offset of the text back into
a location. This module proves that these agree with the source for every input.

The source is read as lists of characters addressed by byte offset (`Text.charAt?`) and cut
into physical lines at line feeds (`Text.physicalLine`). The scanner is followed one character
at a time: `StateFits` says what each state of the machine knows about the characters read so
far, `step_fits` that every step keeps it, and `run_fits` that a whole run yields lines that
all fit. The one place where a located character differs from the source is a line feed: the
scanner keeps the break that ends a comment inside brackets, and the location of that break is
where the dropped comment began, so the statement is about every other character.
-/

namespace Espalier.Text

/-- The character that starts at byte `o` of a text, if one does. -/
def charAt? : List Char → Nat → Option Char
  | [], _ => none
  | c :: cs, o =>
      if o = 0 then some c
      else if c.utf8Size ≤ o then charAt? cs (o - c.utf8Size)
      else none

/-- Physical line `j` of a text, 1-based, without its line feed; line 0 is the first line too. -/
def physicalLine : List Char → Nat → List Char
  | [], _ => []
  | c :: cs, j =>
      if c = '\n' then (if j ≤ 1 then [] else physicalLine cs (j - 1))
      else if j ≤ 1 then c :: physicalLine cs j
      else physicalLine cs j

-- Many proofs below unfold these definitions at once; their equation lemmas are generated
-- here, once, instead of by whichever of those proofs gets to them first.
section
attribute [local simp] charAt? charAt?.eq_def physicalLine physicalLine.eq_def
  LogicalLine.breaksBefore LogicalLine.locAt LogicalLine.locAt.eq_def LogicalLine.Scan.Part.push
  LogicalLine.Scan.step LogicalLine.Scan.run LogicalLine.Scan.lineBreak
  LogicalLine.Scan.lineBreak.eq_def LogicalLine.Scan.codeStep LogicalLine.Scan.codeStep.eq_def
  LogicalLine.Scan.closesTriple normalizeBreaks splitLogicalLines splitLogicalLines.eq_def
end

/-! ## Characters by byte offset -/

theorem charAt?_cons_add (c : Char) (cs : List Char) (o : Nat) :
    charAt? (c :: cs) (c.utf8Size + o) = charAt? cs o := by
  have hpos := Char.utf8Size_pos c
  simp only [charAt?, Nat.le_add_right, if_true, Nat.add_sub_cancel_left]
  rw [if_neg (by omega)]

theorem charAt?_append_utf8Len (cs ds : List Char) (o : Nat) :
    charAt? (cs ++ ds) (String.utf8Len cs + o) = charAt? ds o := by
  induction cs with
  | nil => simp
  | cons c cs ih =>
    rw [List.cons_append, String.utf8Len_cons, Nat.add_comm _ c.utf8Size, Nat.add_assoc,
      charAt?_cons_add, ih]

theorem charAt?_append_of_lt {cs : List Char} {o : Nat} (ds : List Char)
    (h : o < String.utf8Len cs) : charAt? (cs ++ ds) o = charAt? cs o := by
  induction cs generalizing o with
  | nil => simp at h
  | cons c cs ih =>
    rw [String.utf8Len_cons] at h
    simp only [List.cons_append, charAt?]
    split
    · rfl
    · split
      · exact ih (by omega)
      · rfl

/-- A character found at `o` lies wholly inside the text. -/
theorem charAt?_add_le {cs : List Char} {o : Nat} {c : Char} (h : charAt? cs o = some c) :
    o + c.utf8Size ≤ String.utf8Len cs := by
  induction cs generalizing o with
  | nil => simp [charAt?] at h
  | cons d cs ih =>
    rw [String.utf8Len_cons]
    simp only [charAt?] at h
    split at h
    · cases h
      have := String.utf8Len_nil
      omega
    · split at h
      · have := ih h
        omega
      · cases h

theorem charAt?_append_of_some {cs : List Char} {o : Nat} {c : Char} (ds : List Char)
    (h : charAt? cs o = some c) : charAt? (cs ++ ds) o = some c := by
  have hlt : o < String.utf8Len cs := by
    have := charAt?_add_le h
    have := Char.utf8Size_pos c
    omega
  rw [charAt?_append_of_lt ds hlt, h]

theorem charAt?_mono {cs ds : List Char} {o : Nat} {c : Char} (hp : cs <+: ds)
    (h : charAt? cs o = some c) : charAt? ds o = some c := by
  obtain ⟨t, rfl⟩ := hp
  exact charAt?_append_of_some t h

theorem charAt?_singleton {c d : Char} {o : Nat} (h : charAt? [c] o = some d) : o = 0 ∧ d = c := by
  simp only [charAt?] at h
  split at h
  · cases h
    exact ⟨by assumption, rfl⟩
  · split at h
    · simp at h
    · cases h

/-! ## Physical lines -/

/-- The first line is a prefix of the text. -/
theorem physicalLine_prefix_of_le_one (cs : List Char) {j : Nat} (hj : j ≤ 1) :
    physicalLine cs j <+: cs := by
  induction cs with
  | nil => exact List.nil_prefix
  | cons c cs ih =>
    simp only [physicalLine, hj, if_true]
    split
    · exact List.nil_prefix
    · exact List.cons_prefix_cons.mpr ⟨rfl, ih⟩

/-- Reading further never changes what a physical line already holds. -/
theorem physicalLine_prefix_append (cs ds : List Char) (j : Nat) :
    physicalLine cs j <+: physicalLine (cs ++ ds) j := by
  induction cs generalizing j with
  | nil => exact List.nil_prefix
  | cons c cs ih =>
    simp only [List.cons_append, physicalLine]
    split
    · split
      · exact List.nil_prefix
      · exact ih (j - 1)
    · split
      · exact List.cons_prefix_cons.mpr ⟨rfl, ih j⟩
      · exact ih j

theorem physicalLine_mono {cs ds : List Char} (j : Nat) (h : cs <+: ds) :
    physicalLine cs j <+: physicalLine ds j := by
  obtain ⟨t, rfl⟩ := h
  exact physicalLine_prefix_append cs t j

/-- A character that is not a line feed extends the last physical line. -/
theorem physicalLine_append_last {c : Char} (hc : c ≠ '\n') (cs : List Char) :
    physicalLine (cs ++ [c]) (cs.count '\n' + 1) = physicalLine cs (cs.count '\n' + 1) ++ [c] := by
  induction cs with
  | nil => simp [physicalLine, hc]
  | cons d cs ih =>
    by_cases hd : d = '\n'
    · subst hd
      simp only [List.cons_append, physicalLine, List.count_cons_self, if_true]
      rw [if_neg (by omega), if_neg (by omega), Nat.add_sub_cancel, ih]
    · have hcount : (d :: cs).count '\n' = cs.count '\n' := List.count_cons_of_ne hd
      simp only [List.cons_append, physicalLine, hcount, hd, if_false]
      split
      · rw [ih, List.cons_append]
      · exact ih

/-- A line feed opens an empty physical line. -/
theorem physicalLine_append_newline (cs : List Char) :
    physicalLine (cs ++ ['\n']) (cs.count '\n' + 2) = [] := by
  induction cs with
  | nil => simp [physicalLine]
  | cons d cs ih =>
    by_cases hd : d = '\n'
    · subst hd
      simp only [List.cons_append, physicalLine, List.count_cons_self, if_true]
      rw [if_neg (by omega), show cs.count '\n' + 1 + 2 - 1 = cs.count '\n' + 2 by omega, ih]
    · have hcount : (d :: cs).count '\n' = cs.count '\n' := List.count_cons_of_ne hd
      simp only [List.cons_append, physicalLine, hcount, hd, if_false]
      rw [if_neg (by omega), ih]

/-- Normalising line breaks only drops the carriage return that ends a line. -/
theorem physicalLine_normalizeBreaks (cs : List Char) (j : Nat) :
    physicalLine (normalizeBreaks cs) j <+: physicalLine cs j := by
  induction cs using normalizeBreaks.induct generalizing j with
  | case1 => exact List.nil_prefix
  | case2 rest ih =>
    simp only [normalizeBreaks, physicalLine, if_true]
    split
    · exact List.nil_prefix
    · simpa using ih (j - 1)
  | case3 c rest hcrlf ih =>
    rw [normalizeBreaks.eq_3 c rest hcrlf]
    simp only [physicalLine]
    split
    · split
      · exact List.nil_prefix
      · exact ih (j - 1)
    · split
      · exact List.cons_prefix_cons.mpr ⟨rfl, ih j⟩
      · exact ih j

/-- A character of a physical line sits in the text at the line's start plus its column, and
`lineStart` finds that start. -/
theorem lineStart_of_physicalLine {cs : List Char} {j col : Nat} {c : Char} (off : Nat)
    (h : charAt? (physicalLine cs j) col = some c) :
    ∃ b, lineStart cs j off = some (off + b) ∧ charAt? cs (b + col) = some c := by
  induction cs generalizing j off with
  | nil => simp [physicalLine, charAt?] at h
  | cons d cs ih =>
    match j, h with
    | 0, h | 1, h =>
      refine ⟨0, by simp [lineStart], ?_⟩
      rw [Nat.zero_add]
      exact charAt?_mono (physicalLine_prefix_of_le_one _ (by omega)) h
    | n + 2, h =>
      simp only [physicalLine, show ¬ n + 2 ≤ 1 by omega, if_false] at h
      simp only [lineStart]
      split
      · next hd =>
        simp only [hd, if_true, show n + 2 - 1 = n + 1 by omega] at h
        obtain ⟨b, hb, hc⟩ := ih (off + d.utf8Size) h
        refine ⟨d.utf8Size + b, by rw [hb, Nat.add_assoc], ?_⟩
        rw [Nat.add_assoc, charAt?_cons_add, hc]
      · next hd =>
        simp only [hd, if_false] at h
        obtain ⟨b, hb, hc⟩ := ih (off + d.utf8Size) h
        refine ⟨d.utf8Size + b, by rw [hb, Nat.add_assoc], ?_⟩
        rw [Nat.add_assoc, charAt?_cons_add, hc]

/-- Where a physical line has a character, `offsetOf` finds it in the text. -/
theorem offsetOf_of_physicalLine {s : String} {loc : Loc} {c : Char}
    (h : charAt? (physicalLine s.toList loc.line) loc.col = some c) :
    ∃ o, offsetOf s loc = some o ∧ charAt? s.toList o = some c := by
  obtain ⟨b, hb, hc⟩ := lineStart_of_physicalLine 0 h
  have hle : b + loc.col ≤ s.utf8ByteSize := by
    have := charAt?_add_le hc
    rw [String.utf8Len_toList] at this
    omega
  refine ⟨b + loc.col, ?_, hc⟩
  simp only [offsetOf, hb, Nat.zero_add, hle, if_true]

end Espalier.Text

namespace Espalier.LogicalLine

open Text

/-- The location just past the line's text, where a character added to it would stand. -/
def endLoc (ln : LogicalLine) : Loc := ln.locAt (String.utf8Len ln.text.toList)

/-- Every character of the line's text other than a line feed is, at the location `locAt`
gives it, the character of `src` there. -/
def CharsFit (src : List Char) (ln : LogicalLine) : Prop :=
  ∀ o c, charAt? ln.text.toList o = some c → c ≠ '\n' →
    charAt? (physicalLine src (ln.locAt o).line) (ln.locAt o).col = some c

/-! ## Counting line breaks -/

theorem utf8Size_newline : '\n'.utf8Size = 1 := rfl

theorem breaksBefore_cons_of_le {o pos : Nat} {c : Char} (h : pos + c.utf8Size ≤ o)
    (cs : List Char) (n : Nat) (last : Option Nat) :
    breaksBefore o (c :: cs) pos n last =
      if c = '\n' then breaksBefore o cs (pos + 1) (n + 1) (some (pos + 1))
      else breaksBefore o cs (pos + c.utf8Size) n last := by
  simp only [breaksBefore, h, if_true]

/-- Only the characters before `o` count, so what follows them does not matter. -/
theorem breaksBefore_append_of_le {o pos : Nat} {cs : List Char} (ds : List Char) (n : Nat)
    (last : Option Nat) (h : o ≤ pos + String.utf8Len cs) :
    breaksBefore o (cs ++ ds) pos n last = breaksBefore o cs pos n last := by
  induction cs generalizing pos n last with
  | nil =>
    cases ds with
    | nil => rfl
    | cons d ds =>
      have := Char.utf8Size_pos d
      simp only [String.utf8Len_nil, Nat.add_zero] at h
      simp only [List.nil_append, breaksBefore]
      rw [if_neg (by omega)]
  | cons c cs ih =>
    rw [String.utf8Len_cons] at h
    simp only [List.cons_append, breaksBefore]
    split
    · split
      · next hc =>
        subst hc
        exact ih _ _ (by rw [utf8Size_newline] at h; omega)
      · exact ih _ _ (by omega)
    · rfl

/-- A text read wholly before `o` hands its count on to what follows it. -/
theorem breaksBefore_append_of_ge {o pos : Nat} {cs : List Char} (ds : List Char) (n : Nat)
    (last : Option Nat) (h : pos + String.utf8Len cs ≤ o) :
    breaksBefore o (cs ++ ds) pos n last =
      breaksBefore o ds (pos + String.utf8Len cs) (breaksBefore o cs pos n last).1
        (breaksBefore o cs pos n last).2 := by
  induction cs generalizing pos n last with
  | nil => simp [breaksBefore]
  | cons c cs ih =>
    rw [String.utf8Len_cons] at h
    have hle : pos + c.utf8Size ≤ o := by omega
    simp only [List.cons_append, breaksBefore_cons_of_le hle, String.utf8Len_cons]
    by_cases hc : c = '\n'
    · subst hc
      rw [utf8Size_newline] at h
      simp only [if_true]
      rw [ih _ _ (by omega), utf8Size_newline, show pos + 1 + String.utf8Len cs =
        pos + (String.utf8Len cs + 1) by omega]
    · simp only [hc, if_false]
      rw [ih _ _ (by omega), show pos + c.utf8Size + String.utf8Len cs =
        pos + (String.utf8Len cs + c.utf8Size) by omega]

/-- Over a text read wholly, the bound does not matter. -/
theorem breaksBefore_of_whole {o o' pos : Nat} {cs : List Char} (n : Nat) (last : Option Nat)
    (h : pos + String.utf8Len cs ≤ o) (h' : pos + String.utf8Len cs ≤ o') :
    breaksBefore o cs pos n last = breaksBefore o' cs pos n last := by
  induction cs generalizing pos n last with
  | nil => rfl
  | cons c cs ih =>
    rw [String.utf8Len_cons] at h h'
    simp only [breaksBefore, if_pos (show pos + c.utf8Size ≤ o by omega),
      if_pos (show pos + c.utf8Size ≤ o' by omega)]
    by_cases hc : c = '\n'
    · subst hc
      rw [utf8Size_newline] at h h'
      simp only [if_true]
      exact ih _ _ (by omega) (by omega)
    · simp only [hc, if_false]
      exact ih _ _ (by omega) (by omega)

/-- Without a break remembered, none was counted. -/
theorem breaksBefore_none {o pos n : Nat} {cs : List Char} {last : Option Nat}
    (h : (breaksBefore o cs pos n last).2 = none) :
    last = none ∧ (breaksBefore o cs pos n last).1 = n := by
  induction cs generalizing pos n last with
  | nil => exact ⟨h, rfl⟩
  | cons c cs ih =>
    simp only [breaksBefore] at h ⊢
    split at h
    · split at h
      · cases (ih h).1
      · rw [if_pos (by assumption), if_neg (by assumption)]
        exact ih h
    · rw [if_neg (by assumption)]
      exact ⟨h, rfl⟩

/-- The byte after the last break counted lies before `o`. -/
theorem breaksBefore_le {o pos n a : Nat} {cs : List Char} {last : Option Nat}
    (h : (breaksBefore o cs pos n last).2 = some a) : last = some a ∨ a ≤ o := by
  induction cs generalizing pos n last with
  | nil => exact Or.inl h
  | cons c cs ih =>
    simp only [breaksBefore] at h
    split at h
    · next hle =>
      split at h
      · next hc =>
        rcases ih h with h' | h'
        · cases h'
          subst hc
          rw [utf8Size_newline] at hle
          exact Or.inr hle
        · exact Or.inr h'
      · exact ih h
    · exact Or.inl h

/-! ## Locations in a growing line -/

theorem line_le_locAt (ln : LogicalLine) (o : Nat) : ln.line ≤ (ln.locAt o).line := by
  unfold locAt
  split <;> simp

/-- Over a text read wholly, every line break is counted. -/
theorem breaksBefore_count {o pos n : Nat} {cs : List Char} (last : Option Nat)
    (h : pos + String.utf8Len cs ≤ o) : (breaksBefore o cs pos n last).1 = n + cs.count '\n' := by
  induction cs generalizing pos n last with
  | nil => simp [breaksBefore]
  | cons c cs ih =>
    rw [String.utf8Len_cons] at h
    rw [breaksBefore_cons_of_le (by omega)]
    by_cases hc : c = '\n'
    · subst hc
      rw [utf8Size_newline] at h
      rw [if_pos rfl, ih _ (by omega), List.count_cons_self]
      omega
    · rw [if_neg hc, ih _ (by omega), List.count_cons_of_ne hc]

/-- At most the line breaks of the text are counted. -/
theorem breaksBefore_fst_le (o pos n : Nat) (cs : List Char) (last : Option Nat) :
    (breaksBefore o cs pos n last).1 ≤ n + cs.count '\n' := by
  induction cs generalizing pos n last with
  | nil => simp [breaksBefore]
  | cons c cs ih =>
    simp only [breaksBefore]
    split
    · split
      · next hc =>
        subst hc
        have := ih (pos + 1) (n + 1) (some (pos + 1))
        rw [List.count_cons_self]
        omega
      · next hc =>
        rw [List.count_cons_of_ne hc]
        exact ih _ _ _
    · simp

/-- The line of a location is the first line plus the line breaks before it. -/
theorem locAt_line (ln : LogicalLine) (o : Nat) :
    (ln.locAt o).line = ln.line + (breaksBefore o ln.text.toList 0 0 none).1 := by
  unfold locAt
  rcases hr : breaksBefore o ln.text.toList 0 0 none with ⟨n, _ | a⟩
  · have hn := (breaksBefore_none (show (breaksBefore o ln.text.toList 0 0 none).2 = none by
      rw [hr])).2
    rw [hr] at hn
    simp only at hn ⊢
    omega
  · rfl

/-- The physical line a logical line's text ends on. -/
def lastLine (ln : LogicalLine) : Nat := ln.line + ln.text.toList.count '\n'

theorem line_le_lastLine (ln : LogicalLine) : ln.line ≤ ln.lastLine := Nat.le_add_right _ _

theorem locAt_line_le_lastLine (ln : LogicalLine) (o : Nat) : (ln.locAt o).line ≤ ln.lastLine := by
  rw [locAt_line]
  have := breaksBefore_fst_le o 0 0 ln.text.toList none
  unfold lastLine
  omega

/-- Appending to a line's text leaves the locations of its old bytes as they were. -/
theorem locAt_append_of_le {T : List Char} {o : Nat} (line indent : Nat) (ds : List Char)
    (h : o ≤ String.utf8Len T) :
    locAt ⟨line, indent, String.ofList (T ++ ds)⟩ o = locAt ⟨line, indent, String.ofList T⟩ o := by
  have hb := breaksBefore_append_of_le ds 0 none (show o ≤ 0 + String.utf8Len T by omega)
  simp only [locAt, String.toList_ofList, hb]

theorem endLoc_nil (line indent : Nat) : endLoc ⟨line, indent, String.ofList []⟩ = ⟨line, indent⟩ := by
  simp [endLoc, locAt, breaksBefore]

theorem endLoc_eq_locAt (line indent : Nat) (T : List Char) :
    endLoc ⟨line, indent, String.ofList T⟩ = locAt ⟨line, indent, String.ofList T⟩ (String.utf8Len T) := by
  simp only [endLoc, String.toList_ofList]

/-- A character other than a line feed moves the end of the line one character right. -/
theorem endLoc_append_char {c : Char} (hc : c ≠ '\n') (line indent : Nat) (T : List Char) :
    endLoc ⟨line, indent, String.ofList (T ++ [c])⟩ =
      ⟨(endLoc ⟨line, indent, String.ofList T⟩).line,
        (endLoc ⟨line, indent, String.ofList T⟩).col + c.utf8Size⟩ := by
  simp only [endLoc, locAt, String.toList_ofList, String.utf8Len_append, String.utf8Len_cons,
    String.utf8Len_nil, Nat.zero_add]
  have hsplit := breaksBefore_append_of_ge [c] 0 none
    (show 0 + String.utf8Len T ≤ String.utf8Len T + c.utf8Size by omega)
  have hwhole := breaksBefore_of_whole 0 none
    (show 0 + String.utf8Len T ≤ String.utf8Len T + c.utf8Size by omega)
    (show 0 + String.utf8Len T ≤ String.utf8Len T by omega)
  rw [hsplit, hwhole]
  simp only [breaksBefore, Nat.zero_add, Nat.le_refl, if_true, hc, if_false]
  rcases hr : breaksBefore (String.utf8Len T) T 0 0 none with ⟨n, _ | a⟩
  · dsimp only
    rw [Nat.add_assoc]
  · have ha : a ≤ String.utf8Len T := by
      rcases breaksBefore_le (show (breaksBefore (String.utf8Len T) T 0 0 none).2 = some a by
        rw [hr]) with h | h
      · cases h
      · exact h
    simp only [Loc.mk.injEq, true_and]
    omega

/-- A line feed moves the end of the line to the start of the next physical line. -/
theorem endLoc_append_newline (line indent : Nat) (T : List Char) :
    endLoc ⟨line, indent, String.ofList (T ++ ['\n'])⟩ =
      ⟨(endLoc ⟨line, indent, String.ofList T⟩).line + 1, 0⟩ := by
  simp only [endLoc, locAt, String.toList_ofList, String.utf8Len_append, String.utf8Len_cons,
    String.utf8Len_nil, Nat.zero_add]
  have hsplit := breaksBefore_append_of_ge ['\n'] 0 none
    (show 0 + String.utf8Len T ≤ String.utf8Len T + '\n'.utf8Size by omega)
  have hwhole := breaksBefore_of_whole 0 none
    (show 0 + String.utf8Len T ≤ String.utf8Len T + '\n'.utf8Size by omega)
    (show 0 + String.utf8Len T ≤ String.utf8Len T by omega)
  rw [hsplit, hwhole]
  simp only [breaksBefore, Nat.zero_add, utf8Size_newline, Nat.le_refl, if_true]
  rcases hr : breaksBefore (String.utf8Len T) T 0 0 none with ⟨n, _ | a⟩
  · have hn := (breaksBefore_none (show (breaksBefore (String.utf8Len T) T 0 0 none).2 = none by
      rw [hr])).2
    rw [hr] at hn
    simp only [Loc.mk.injEq]
    omega
  · simp only [Loc.mk.injEq]
    omega

/-! ## Characters that fit -/

theorem CharsFit.mono {src src' : List Char} {ln : LogicalLine} (h : CharsFit src ln)
    (hp : src <+: src') : CharsFit src' ln :=
  fun o c hc hn => charAt?_mono (physicalLine_mono _ hp) (h o c hc hn)

/-- The characters of a shorter text fit where those of the longer one did. -/
theorem CharsFit.of_append {src T : List Char} {line indent : Nat} (ds : List Char)
    (h : CharsFit src ⟨line, indent, String.ofList (T ++ ds)⟩) :
    CharsFit src ⟨line, indent, String.ofList T⟩ := by
  intro o c hc hn
  simp only [String.toList_ofList] at hc
  have hlt : o < String.utf8Len T := by
    have := charAt?_add_le hc
    have := Char.utf8Size_pos c
    omega
  have hfit := h o c (by simpa only [String.toList_ofList] using charAt?_append_of_some ds hc) hn
  rwa [locAt_append_of_le line indent ds (Nat.le_of_lt hlt)] at hfit

/-- A character fits after the line's text when it stands at the line's end in the source. -/
theorem CharsFit.push {src T : List Char} {line indent : Nat} {c : Char}
    (h : CharsFit src ⟨line, indent, String.ofList T⟩)
    (hend : c ≠ '\n' → charAt? (physicalLine src (endLoc ⟨line, indent, String.ofList T⟩).line)
      (endLoc ⟨line, indent, String.ofList T⟩).col = some c) :
    CharsFit src ⟨line, indent, String.ofList (T ++ [c])⟩ := by
  intro o c' hc' hn
  simp only [String.toList_ofList] at hc'
  by_cases hlt : o < String.utf8Len T
  · rw [charAt?_append_of_lt _ hlt] at hc'
    rw [locAt_append_of_le line indent [c] (Nat.le_of_lt hlt)]
    exact h o c' (by simpa only [String.toList_ofList] using hc') hn
  · obtain ⟨k, rfl⟩ : ∃ k, o = String.utf8Len T + k := ⟨o - String.utf8Len T, by omega⟩
    rw [charAt?_append_utf8Len] at hc'
    obtain ⟨rfl, rfl⟩ := charAt?_singleton hc'
    rw [Nat.add_zero, locAt_append_of_le line indent [c'] (Nat.le_refl _), ← endLoc_eq_locAt]
    exact hend hn

end Espalier.LogicalLine

namespace Espalier.LogicalLine.Scan

open Text

/-- The logical line a part would give if it ended here, before trimming. -/
def Part.pending (p : Part) : LogicalLine := ⟨p.start, p.indent, String.ofList p.acc.reverse⟩

theorem Part.pending_push (p : Part) (c : Char) :
    (p.push c).pending = ⟨p.start, p.indent, String.ofList (p.acc.reverse ++ [c])⟩ := by
  simp [Part.pending, Part.push]

/-- Indentation: spaces and tabs. -/
def Indents (bl : List Char) : Prop := ∀ b ∈ bl, b = ' ' ∨ b = '\t'

/-- Physical line `j` of `src` starts with `k` indentation characters and, when `more` holds,
goes on with a character that is not one. -/
def Header (src : List Char) (j k : Nat) (more : Prop) : Prop :=
  ∃ bl rest, physicalLine src j = bl ++ rest ∧ bl.length = k ∧ Indents bl ∧
    (more → ∃ c r, rest = c :: r ∧ c ≠ ' ' ∧ c ≠ '\t')

/-- What a finished line owes the source: its header and its characters. -/
structure LineFits (src : List Char) (ln : LogicalLine) : Prop where
  head : Header src ln.line ln.indent True
  chars : CharsFit src ln

/-- What a part collected up to line `l` owes the source read so far. When `exact`, nothing
was dropped since the last character kept, so the part's end is the end of the source. -/
structure PartFits (src : List Char) (l : Nat) (p : Part) (exact : Bool) : Prop where
  head : Header src p.start p.indent (p.acc ≠ [])
  chars : CharsFit src p.pending
  endLine : p.pending.endLoc.line = l
  endCol : exact = true → p.pending.endLoc.col = String.utf8Len (physicalLine src l)

/-- What each state knows about the source read so far, `src`, and the text still to read,
`rest`, on line `l`. -/
def StateFits (src rest : List Char) (l : Nat) : State → Prop
  | .indent k => Indents (physicalLine src l) ∧ (physicalLine src l).length = k
  | .blankComment => True
  | .code p => PartFits src l p true ∧ p.acc ≠ []
  | .joined p => PartFits src l p true ∧ p.acc ≠ []
  | .lineComment p => PartFits src l p false ∧ p.acc ≠ []
  | .quoted p q _ => PartFits src l p true ∧ p.acc ≠ [] ∧ q ≠ '\n'
  | .escaped p q _ => PartFits src l p true ∧ p.acc ≠ [] ∧ q ≠ '\n'
  | .quoteRun p q left _ =>
      PartFits src l p true ∧ p.acc ≠ [] ∧ q ≠ '\n' ∧ 0 < left ∧
        ∃ r, rest = List.replicate left q ++ r

/-- The line a pending logical line started on, or the current line when none is pending:
every line finished so far lies above it. -/
def State.firstLine : State → Nat → Nat
  | .indent _, l | .blankComment, l => l
  | .code p, _ | .lineComment p, _ | .joined p, _ | .quoted p _ _, _ | .escaped p _ _, _
  | .quoteRun p _ _ _, _ => p.start

-- The same for the definitions of the scanner's invariant.
section
attribute [local simp] LogicalLine.endLoc LogicalLine.lastLine LogicalLine.lastLine.eq_def
  Part.pending StateFits State.firstLine
end

/-! ## Headers -/

theorem utf8Len_of_indents {bl : List Char} (h : Indents bl) : String.utf8Len bl = bl.length := by
  induction bl with
  | nil => rfl
  | cons b bl ih =>
    have hb : b.utf8Size = 1 := by
      rcases h b (List.mem_cons_self ..) with rfl | rfl <;> rfl
    rw [String.utf8Len_cons, hb, ih (fun x hx => h x (List.mem_cons_of_mem _ hx)),
      List.length_cons]

theorem Header.mono {src src' : List Char} {j k : Nat} {more : Prop} (h : Header src j k more)
    (hp : src <+: src') : Header src' j k more := by
  obtain ⟨bl, rest, he, hlen, hind, hmore⟩ := h
  obtain ⟨t, ht⟩ := physicalLine_mono j hp
  refine ⟨bl, rest ++ t, by rw [← ht, he, List.append_assoc], hlen, hind, fun hm => ?_⟩
  obtain ⟨c, r, rfl, hc⟩ := hmore hm
  exact ⟨c, r ++ t, rfl, hc⟩

theorem LineFits.mono {src src' : List Char} {ln : LogicalLine} (h : LineFits src ln)
    (hp : src <+: src') : LineFits src' ln :=
  ⟨h.head.mono hp, h.chars.mono hp⟩

/-! ## What one character does to a part -/

theorem lineNo_char {src : List Char} {c : Char} {l : Nat} (hc : c ≠ '\n')
    (hl : l = src.count '\n' + 1) : l = (src ++ [c]).count '\n' + 1 := by
  rw [List.count_append, List.count_singleton]
  simp only [beq_iff_eq, hc, if_false]
  omega

theorem lineNo_newline {src : List Char} {l : Nat} (hl : l = src.count '\n' + 1) :
    l + 1 = (src ++ ['\n']).count '\n' + 1 := by
  rw [List.count_append, List.count_singleton]
  simp only [beq_self_eq_true, if_true]
  omega

theorem lineNo_any {src : List Char} {c : Char} {l : Nat} (hl : l = src.count '\n' + 1) :
    (if c = '\n' then l + 1 else l) = (src ++ [c]).count '\n' + 1 := by
  split
  · next hc =>
    subst hc
    exact lineNo_newline hl
  · next hc => exact lineNo_char hc hl

theorem PartFits.start_le {src : List Char} {l : Nat} {p : Part} {e : Bool}
    (h : PartFits src l p e) : p.start ≤ l := by
  have := line_le_locAt p.pending (String.utf8Len p.pending.text.toList)
  rw [← h.endLine]
  exact this

theorem PartFits.withDepth {src : List Char} {l : Nat} {p : Part} {e : Bool}
    (h : PartFits src l p e) (d : Int) : PartFits src l { p with depth := d } e :=
  ⟨h.head, h.chars, h.endLine, h.endCol⟩

/-- The start of a fresh line, just after its indentation. -/
theorem partFits_indent {src : List Char} {l k : Nat} (hind : Indents (physicalLine src l))
    (hlen : (physicalLine src l).length = k) : PartFits src l { start := l, indent := k } true where
  head := ⟨physicalLine src l, [], by rw [List.append_nil], hlen, hind, fun h => absurd rfl h⟩
  chars := by
    intro o c hc
    simp [Part.pending, charAt?] at hc
  endLine := by simp only [Part.pending, List.reverse_nil, endLoc_nil]
  endCol := by
    intro _
    simp only [Part.pending, List.reverse_nil, endLoc_nil]
    rw [utf8Len_of_indents hind, hlen]

/-- A character kept that is not a line feed, read exactly where the part ends. -/
theorem PartFits.push_char {src : List Char} {l : Nat} {p : Part} {c : Char}
    (h : PartFits src l p true) (hl : l = src.count '\n' + 1) (hc : c ≠ '\n')
    (hfirst : p.acc = [] → c ≠ ' ' ∧ c ≠ '\t') : PartFits (src ++ [c]) l (p.push c) true := by
  have hP := physicalLine_append_last hc src
  rw [← hl] at hP
  have hend : p.pending.endLoc = ⟨l, String.utf8Len (physicalLine src l)⟩ := by
    rw [← h.endCol rfl, ← h.endLine]
  refine ⟨?_, ?_, ?_, ?_⟩
  · by_cases hnil : p.acc = []
    · -- the first character kept: the line is exactly the indentation so far
      have hstart : p.start = l ∧ p.indent = String.utf8Len (physicalLine src l) := by
        simp only [Part.pending, hnil, List.reverse_nil, endLoc_nil, Loc.mk.injEq] at hend
        exact hend
      obtain ⟨bl, rest, he, hlen, hind, -⟩ := h.head
      rw [hstart.1] at he
      have hrest : rest = [] := by
        have hbytes := congrArg String.utf8Len he
        rw [String.utf8Len_append, utf8Len_of_indents hind, hlen, hstart.2] at hbytes
        exact String.utf8Len_eq_zero.mp (by omega)
      subst hrest
      refine ⟨bl, [c], ?_, hlen, hind, fun _ => ⟨c, [], rfl, hfirst hnil⟩⟩
      show physicalLine (src ++ [c]) p.start = bl ++ [c]
      rw [hstart.1, hP, he, List.append_nil]
    · obtain ⟨bl, rest, he, hlen, hind, hmore⟩ := (h.head.mono (List.prefix_append src [c]))
      exact ⟨bl, rest, he, hlen, hind, fun _ => hmore hnil⟩
  · rw [Part.pending_push]
    refine CharsFit.push (h.chars.mono (List.prefix_append src [c])) (fun _ => ?_)
    have hend' := hend
    simp only [Part.pending] at hend'
    rw [hend', hP, ← Nat.add_zero (String.utf8Len _), charAt?_append_utf8Len]
    rfl
  · rw [Part.pending_push, endLoc_append_char hc]
    exact h.endLine
  · intro _
    rw [Part.pending_push, endLoc_append_char hc, hP, String.utf8Len_append, String.utf8Len_cons,
      String.utf8Len_nil, Nat.zero_add]
    have := h.endCol rfl
    simp only [Part.pending] at this
    rw [this]

/-- A line feed kept inside a line opens the next physical line. -/
theorem PartFits.push_newline {src : List Char} {l : Nat} {p : Part} {e : Bool}
    (h : PartFits src l p e) (hl : l = src.count '\n' + 1) (hne : p.acc ≠ []) :
    PartFits (src ++ ['\n']) (l + 1) (p.push '\n') true := by
  have hP := physicalLine_append_newline src
  rw [show src.count '\n' + 2 = l + 1 by omega] at hP
  refine ⟨?_, ?_, ?_, ?_⟩
  · obtain ⟨bl, rest, he, hlen, hind, hmore⟩ := (h.head.mono (List.prefix_append src ['\n']))
    exact ⟨bl, rest, he, hlen, hind, fun _ => hmore hne⟩
  · rw [Part.pending_push]
    exact CharsFit.push (h.chars.mono (List.prefix_append src ['\n'])) (fun hn => absurd rfl hn)
  · rw [Part.pending_push, endLoc_append_newline]
    have := h.endLine
    simp only [Part.pending] at this
    rw [this]
  · intro _
    rw [Part.pending_push, endLoc_append_newline, hP]
    rfl

/-- Any character kept by an exact part: a line feed moves it to the next line. -/
theorem PartFits.push_any {src : List Char} {l : Nat} {p : Part} {c : Char}
    (h : PartFits src l p true) (hl : l = src.count '\n' + 1) (hne : p.acc ≠ []) :
    PartFits (src ++ [c]) (if c = '\n' then l + 1 else l) (p.push c) true := by
  split
  · next hc =>
    subst hc
    exact h.push_newline hl hne
  · next hc => exact h.push_char hl hc (fun h => absurd h hne)

/-- A character dropped, inside a comment: the part no longer ends where the source does. -/
theorem PartFits.skip {src : List Char} {l : Nat} {p : Part} {e : Bool} (h : PartFits src l p e)
    (ds : List Char) : PartFits (src ++ ds) l p false :=
  ⟨h.head.mono (List.prefix_append src ds), h.chars.mono (List.prefix_append src ds), h.endLine,
    fun h => by cases h⟩

theorem trimEnd_prefix_self (cs : List Char) : Text.trimEnd cs <+: cs := by
  have := (List.dropWhile_suffix Text.isBlank (l := cs.reverse)).reverse
  rwa [List.reverse_reverse] at this

/-- A finished line fits the source the part fitted, and ends on the line the part reached. -/
theorem PartFits.finishLine {src : List Char} {l : Nat} {p : Part} {e : Bool} {L : LogicalLine}
    (h : PartFits src l p e) (hf : finishLine p = some L) :
    LineFits src L ∧ L.line = p.start ∧ L.lastLine ≤ l := by
  simp only [Scan.finishLine] at hf
  split at hf
  · cases hf
  · next hne =>
    cases hf
    obtain ⟨ds, hds⟩ := trimEnd_prefix_self p.acc.reverse
    have hacc : p.acc ≠ [] := by
      rintro hnil
      simp [hnil, Text.trimEnd] at hne
    refine ⟨⟨?_, ?_⟩, rfl, ?_⟩
    · obtain ⟨bl, rest, he, hlen, hind, hmore⟩ := h.head
      exact ⟨bl, rest, he, hlen, hind, fun _ => hmore hacc⟩
    · have hchars := h.chars
      simp only [Part.pending] at hchars
      rw [← hds] at hchars
      exact CharsFit.of_append ds hchars
    · -- trimming drops line breaks at most, and the part's end is on line `l`
      have hend : p.start + p.acc.reverse.count '\n' = l := by
        have := h.endLine
        rw [← this]
        simp only [Part.pending, endLoc, locAt_line, String.toList_ofList]
        rw [breaksBefore_count none (by omega)]
        omega
      have hle := (trimEnd_prefix_self p.acc.reverse).sublist.count_le '\n'
      simp only [lastLine, String.toList_ofList]
      omega

/-! ## One step of the scanner -/

/-- What a step after reading `c` (the source so far being `src`, the text after `c` being
`rest`) owes: the next state fits, the line counter counts line feeds, the lines finished so
far stay above the next state's first line, and a line it finishes fits and starts at `first`
or below. -/
structure StepFits (src : List Char) (c : Char) (rest : List Char) (first : Nat) (r : Step) :
    Prop where
  state : StateFits (src ++ [c]) rest r.2.1 r.1
  lineNo : r.2.1 = (src ++ [c]).count '\n' + 1
  mono : first ≤ r.1.firstLine r.2.1
  done : ∀ L, r.2.2 = some L → LineFits (src ++ [c]) L ∧ first ≤ L.line ∧
    L.lastLine < r.1.firstLine r.2.1

theorem closesTriple_eq_true {q : Char} {rest : List Char} (h : closesTriple q rest = true) :
    ∃ r, rest = List.replicate 2 q ++ r := by
  match rest, h with
  | a :: b :: r, h =>
    simp only [closesTriple, Bool.and_eq_true, beq_iff_eq] at h
    obtain ⟨rfl, rfl⟩ := h
    exact ⟨r, rfl⟩

/-- A character kept in code that is not a line feed, leading to a state that holds the
part as it now is. -/
theorem stepFits_push {src rest : List Char} {l : Nat} {p : Part} {c : Char} {s : State}
    (hl : l = src.count '\n' + 1) (hc : c ≠ '\n')
    (hs : StateFits (src ++ [c]) rest l s) (hfirst : s.firstLine l = p.start) :
    StepFits src c rest p.start (s, l, none) :=
  ⟨hs, lineNo_char hc hl, hfirst.ge, fun _ h => by cases h⟩

/-- Just after a line feed nothing of the new physical line has been read. -/
theorem stateFits_newline {src rest : List Char} {l : Nat} (hl : l = src.count '\n' + 1) :
    StateFits (src ++ ['\n']) rest (l + 1) (.indent 0) := by
  have hP := physicalLine_append_newline src
  rw [show src.count '\n' + 2 = l + 1 by omega] at hP
  simp only [StateFits, hP, List.length_nil, and_true]
  exact fun b hb => absurd hb List.not_mem_nil

/-- A line break in code ends the line, or keeps it open inside brackets. -/
theorem lineBreak_fits {src rest : List Char} {l : Nat} {p : Part} {e : Bool}
    (h : PartFits src l p e) (hne : p.acc ≠ []) (hl : l = src.count '\n' + 1) :
    StepFits src '\n' rest p.start (lineBreak p l) := by
  unfold lineBreak
  split
  · exact ⟨⟨h.push_newline hl hne, by simp [Part.push]⟩, lineNo_newline hl, Nat.le_refl _,
      fun _ h => by cases h⟩
  · refine ⟨stateFits_newline hl, lineNo_newline hl, Nat.le_succ_of_le h.start_le,
      fun L hL => ?_⟩
    obtain ⟨hfit, hline, hlast⟩ := h.finishLine hL
    exact ⟨hfit.mono (List.prefix_append _ _), hline.ge, by
      simp only [State.firstLine]
      omega⟩

/-- One step of code, from an exact part; an empty part is only ever given a character that
starts a line of code. -/
theorem codeStep_fits {src rest : List Char} {l : Nat} {p : Part} {c : Char}
    (h : PartFits src l p true) (hl : l = src.count '\n' + 1)
    (hfirst : p.acc = [] → c ≠ ' ' ∧ c ≠ '\t' ∧ c ≠ '\n' ∧ c ≠ '#') :
    StepFits src c rest p.start (codeStep p l c rest) := by
  have hpush : c ≠ '\n' → PartFits (src ++ [c]) l (p.push c) true ∧ (p.push c).acc ≠ [] :=
    fun hc => ⟨h.push_char hl hc (fun hnil => ⟨(hfirst hnil).1, (hfirst hnil).2.1⟩),
      by simp [Part.push]⟩
  unfold codeStep
  by_cases hq : c = '"' ∨ c = '\''
  · have hc : c ≠ '\n' := by rcases hq with rfl | rfl <;> decide
    simp only [hq, if_true]
    split
    · next htriple =>
      obtain ⟨r, hr⟩ := closesTriple_eq_true htriple
      exact stepFits_push hl hc ⟨(hpush hc).1, (hpush hc).2, hc, by omega, r, hr⟩ rfl
    · exact stepFits_push hl hc ⟨(hpush hc).1, (hpush hc).2, hc⟩ rfl
  rw [if_neg hq]
  by_cases hhash : c = '#'
  · subst hhash
    rw [if_pos rfl]
    have hne : p.acc ≠ [] := fun hnil => (hfirst hnil).2.2.2 rfl
    exact stepFits_push hl (by decide) ⟨h.skip _, hne⟩ rfl
  rw [if_neg hhash]
  by_cases hjoin : c = '\\' ∧ rest.head? = some '\n'
  · rw [if_pos hjoin]
    have hc : c ≠ '\n' := by rw [hjoin.1]; decide
    exact stepFits_push hl hc (hpush hc) rfl
  rw [if_neg hjoin]
  by_cases hnl : c = '\n'
  · subst hnl
    rw [if_pos rfl]
    exact lineBreak_fits h (fun hnil => (hfirst hnil).2.2.1 rfl) hl
  rw [if_neg hnl]
  split
  · exact stepFits_push hl hnl ⟨(hpush hnl).1.withDepth _, (hpush hnl).2⟩ rfl
  split
  · exact stepFits_push hl hnl ⟨(hpush hnl).1.withDepth _, (hpush hnl).2⟩ rfl
  · exact stepFits_push hl hnl (hpush hnl) rfl

/-- Any character kept by an exact part, leading to a state that holds the part as it now
is. -/
theorem stepFits_pushAny {src rest : List Char} {l : Nat} {p : Part} {c : Char} {s : State}
    (hl : l = src.count '\n' + 1) (hs : StateFits (src ++ [c]) rest (if c = '\n' then l + 1 else l) s)
    (hfirst : s.firstLine (if c = '\n' then l + 1 else l) = p.start) :
    StepFits src c rest p.start (s, if c = '\n' then l + 1 else l, none) :=
  ⟨hs, lineNo_any hl, hfirst.ge, fun _ h => by cases h⟩

/-- Inside a string: every character is kept, and a closing quote returns to code. -/
theorem quotedStep_fits {file : String} {src rest : List Char} {l : Nat} {p : Part} {q c : Char}
    {triple : Bool} {r : Step} (hp : PartFits src l p true) (hne : p.acc ≠ []) (hq : q ≠ '\n')
    (hl : l = src.count '\n' + 1) (hs : step file (.quoted p q triple) l c rest = .ok r) :
    StepFits src c rest p.start r := by
  have hne' : (p.push c).acc ≠ [] := by simp [Part.push]
  simp only [step] at hs
  split at hs
  · next hesc =>
    cases hs
    have hc : c ≠ '\n' := by rw [hesc.1]; decide
    exact stepFits_push hl hc ⟨hp.push_char hl hc (fun h => absurd h hne), hne', hq⟩ rfl
  split at hs
  · cases hs
  split at hs
  · next hclose =>
    have hc : c ≠ '\n' := by rw [hclose.1]; exact hq
    simp only [hc, if_false] at hs
    split at hs
    · next htriple =>
      cases hs
      subst htriple
      have hthree : closesTriple q rest = true := by simpa using hclose.2
      obtain ⟨r, hr⟩ := closesTriple_eq_true hthree
      exact stepFits_push hl hc ⟨hp.push_char hl hc (fun h => absurd h hne), hne', hq, by omega,
        r, hr⟩ rfl
    · cases hs
      exact stepFits_push hl hc ⟨hp.push_char hl hc (fun h => absurd h hne), hne'⟩ rfl
  · cases hs
    exact stepFits_pushAny hl ⟨hp.push_any hl hne, hne', hq⟩ rfl

/-- Copying the rest of a triple quote, which the lookahead has already seen. -/
theorem quoteRunStep_fits {file : String} {src rest : List Char} {l : Nat} {p : Part} {q c : Char}
    {left : Nat} {opens : Bool} {r : Step}
    (h : StateFits src (c :: rest) l (.quoteRun p q left opens)) (hl : l = src.count '\n' + 1)
    (hs : step file (.quoteRun p q left opens) l c rest = .ok r) :
    StepFits src c rest p.start r := by
  obtain ⟨hp, hne, hq, hpos, r0, hr0⟩ := h
  have hne' : (p.push c).acc ≠ [] := by simp [Part.push]
  rcases left with _ | _ | k
  · cases hpos
  · simp only [List.replicate_succ, List.replicate_zero, List.cons_append, List.nil_append,
      List.cons.injEq] at hr0
    obtain ⟨rfl, -⟩ := hr0
    simp only [step] at hs
    cases hs
    cases opens
    · exact stepFits_push hl hq ⟨hp.push_char hl hq (fun h => absurd h hne), hne'⟩ rfl
    · exact stepFits_push hl hq ⟨hp.push_char hl hq (fun h => absurd h hne), hne', hq⟩ rfl
  · simp only [List.replicate_succ, List.cons_append, List.cons.injEq] at hr0
    obtain ⟨rfl, hrest⟩ := hr0
    simp only [step] at hs
    cases hs
    exact stepFits_push hl hq ⟨hp.push_char hl hq (fun h => absurd h hne), hne', hq, by omega, r0,
      by rw [hrest, List.replicate_succ, List.cons_append]⟩ rfl

/-- Every step of the scanner keeps what its state knows. -/
theorem step_fits {file : String} {src rest : List Char} {s : State} {l : Nat} {c : Char}
    {r : Step} (h : StateFits src (c :: rest) l s) (hl : l = src.count '\n' + 1)
    (hs : step file s l c rest = .ok r) : StepFits src c rest (s.firstLine l) r := by
  cases s with
  | indent k =>
    obtain ⟨hind, hlen⟩ := h
    simp only [step] at hs
    split at hs
    · next hblank =>
      cases hs
      have hc : c ≠ '\n' := by rcases hblank with rfl | rfl <;> decide
      have hP := physicalLine_append_last hc src
      rw [← hl] at hP
      refine stepFits_push (p := { start := l, indent := k }) hl hc ⟨?_, ?_⟩ rfl
      · rw [hP]
        intro b hb
        rcases List.mem_append.mp hb with hb | hb
        · exact hind b hb
        · rw [List.mem_singleton.mp hb]
          exact hblank
      · rw [hP, List.length_append, hlen, List.length_singleton]
    split at hs
    · next hnl =>
      cases hs
      subst hnl
      exact ⟨stateFits_newline hl, lineNo_newline hl, Nat.le_succ l, fun _ h => by cases h⟩
    split at hs
    · next hhash =>
      cases hs
      exact stepFits_push (p := { start := l, indent := k }) hl (by rw [hhash]; decide) trivial rfl
    · next hblank hnl hhash =>
      cases hs
      exact codeStep_fits (partFits_indent hind hlen) hl
        (fun _ => ⟨fun h => hblank (Or.inl h), fun h => hblank (Or.inr h), hnl, hhash⟩)
  | blankComment =>
    simp only [step] at hs
    cases hs
    split
    · next hnl =>
      subst hnl
      exact ⟨stateFits_newline hl, lineNo_newline hl, Nat.le_succ l, fun _ h => by cases h⟩
    · next hnl => exact ⟨trivial, lineNo_char hnl hl, Nat.le_refl l, fun _ h => by cases h⟩
  | code p =>
    obtain ⟨hp, hne⟩ := h
    simp only [step] at hs
    cases hs
    exact codeStep_fits hp hl (fun h => absurd h hne)
  | lineComment p =>
    obtain ⟨hp, hne⟩ := h
    simp only [step] at hs
    cases hs
    split
    · next hnl =>
      subst hnl
      exact lineBreak_fits hp hne hl
    · next hnl => exact stepFits_push hl hnl ⟨hp.skip _, hne⟩ rfl
  | joined p =>
    obtain ⟨hp, hne⟩ := h
    simp only [step] at hs
    cases hs
    exact stepFits_pushAny hl ⟨hp.push_any hl hne, by simp [Part.push]⟩ rfl
  | escaped p q triple =>
    obtain ⟨hp, hne, hq⟩ := h
    simp only [step] at hs
    cases hs
    exact stepFits_pushAny hl ⟨hp.push_any hl hne, by simp [Part.push], hq⟩ rfl
  | quoted p q triple =>
    obtain ⟨hp, hne, hq⟩ := h
    exact quotedStep_fits hp hne hq hl hs
  | quoteRun p q left opens => exact quoteRunStep_fits h hl hs

/-! ## A whole run -/

/-- What a run knows after reading `src`, with `rest` still to read: its step invariant, and
the lines out so far, each fitting, in increasing order of line, above the state's first line. -/
structure RunFits (src rest : List Char) (s : State) (l : Nat) (out : Array LogicalLine) : Prop where
  lineNo : l = src.count '\n' + 1
  state : StateFits src rest l s
  sorted : out.toList.Pairwise (fun a b => a.lastLine < b.line)
  lines : ∀ L ∈ out.toList, LineFits src L ∧ L.lastLine < s.firstLine l

theorem runFits_start (rest : List Char) : RunFits [] rest (.indent 0) 1 #[] where
  lineNo := rfl
  state := ⟨fun _ h => absurd h List.not_mem_nil, rfl⟩
  sorted := List.Pairwise.nil
  lines := fun _ h => absurd h List.not_mem_nil

/-- A step that finishes no line. -/
theorem RunFits.step_none {src rest : List Char} {c : Char} {s s' : State} {l l' : Nat}
    {out : Array LogicalLine} (h : RunFits src (c :: rest) s l out)
    (hs : StepFits src c rest (s.firstLine l) (s', l', none)) : RunFits (src ++ [c]) rest s' l' out where
  lineNo := hs.lineNo
  state := hs.state
  sorted := h.sorted
  lines := fun L hL =>
    ⟨(h.lines L hL).1.mono (List.prefix_append _ _), Nat.lt_of_lt_of_le (h.lines L hL).2 hs.mono⟩

/-- A step that finishes line `L`: it comes after every line out so far. -/
theorem RunFits.step_some {src rest : List Char} {c : Char} {s s' : State} {l l' : Nat}
    {out : Array LogicalLine} {L : LogicalLine} (h : RunFits src (c :: rest) s l out)
    (hs : StepFits src c rest (s.firstLine l) (s', l', some L)) :
    RunFits (src ++ [c]) rest s' l' (out.push L) := by
  obtain ⟨hfit, hfirst, hlast⟩ := hs.done L rfl
  refine ⟨hs.lineNo, hs.state, ?_, ?_⟩
  · rw [Array.toList_push, List.pairwise_append]
    refine ⟨h.sorted, List.pairwise_singleton _ _, fun a ha b hb => ?_⟩
    rw [List.mem_singleton.mp hb]
    exact Nat.lt_of_lt_of_le (h.lines a ha).2 hfirst
  · intro L' hL'
    rw [Array.toList_push] at hL'
    rcases List.mem_append.mp hL' with hL' | hL'
    · exact ⟨(h.lines L' hL').1.mono (List.prefix_append _ _),
        Nat.lt_of_lt_of_le (h.lines L' hL').2 hs.mono⟩
    · rw [List.mem_singleton.mp hL']
      exact ⟨hfit, hlast⟩

/-- The end of the text finishes the pending line, if any, after all the others. -/
theorem RunFits.finish {file : String} {src : List Char} {s : State} {l : Nat}
    {out res : Array LogicalLine} (h : RunFits src [] s l out)
    (hr : run file s l [] out = .ok res) :
    res.toList.Pairwise (fun a b => a.lastLine < b.line) ∧ ∀ L ∈ res.toList, LineFits src L := by
  have hkeep : ∀ L ∈ out.toList, LineFits src L := fun L hL => (h.lines L hL).1
  have hpend : ∀ p e, PartFits src l p e → s.firstLine l = p.start → ∀ L, finishLine p = some L →
      (out.push L).toList.Pairwise (fun a b => a.lastLine < b.line) ∧
        ∀ L' ∈ (out.push L).toList, LineFits src L' := by
    intro p e hp hfirst L hL
    obtain ⟨hfit, hline, -⟩ := hp.finishLine hL
    rw [Array.toList_push]
    refine ⟨List.pairwise_append.mpr ⟨h.sorted, List.pairwise_singleton _ _, fun a ha b hb => ?_⟩,
      fun L' hL' => ?_⟩
    · rw [List.mem_singleton.mp hb, hline, ← hfirst]
      exact (h.lines a ha).2
    · rcases List.mem_append.mp hL' with hL' | hL'
      · exact hkeep L' hL'
      · rw [List.mem_singleton.mp hL']
        exact hfit
  have hstate := h.state
  cases s with
  | indent k =>
    simp only [run, Scan.finish] at hr
    cases hr
    exact ⟨h.sorted, hkeep⟩
  | blankComment =>
    simp only [run, Scan.finish] at hr
    cases hr
    exact ⟨h.sorted, hkeep⟩
  | code p | lineComment p | joined p =>
    simp only [run, Scan.finish] at hr
    cases hL : finishLine p with
    | none =>
      simp only [hL] at hr
      cases hr
      exact ⟨h.sorted, hkeep⟩
    | some L =>
      simp only [hL] at hr
      cases hr
      exact hpend p _ hstate.1 rfl L hL
  | quoted p q triple | escaped p q triple | quoteRun p q left opens =>
    simp only [run, Scan.finish] at hr
    cases hr

/-- Every line of a run fits the whole source, and their lines increase. -/
theorem run_fits {file : String} :
    ∀ (rest src : List Char) (s : State) (l : Nat) (out res : Array LogicalLine),
      RunFits src rest s l out → run file s l rest out = .ok res →
      res.toList.Pairwise (fun a b => a.lastLine < b.line) ∧ ∀ L ∈ res.toList, LineFits (src ++ rest) L
  | [], src, s, l, out, res, h, hr => by
    rw [List.append_nil]
    exact h.finish hr
  | c :: rest, src, s, l, out, res, h, hr => by
    have hsplit : src ++ c :: rest = (src ++ [c]) ++ rest := by simp
    rw [hsplit]
    simp only [run] at hr
    cases hs : step file s l c rest with
    | error e =>
      rw [hs] at hr
      cases hr
    | ok r =>
      obtain ⟨s', l', done⟩ := r
      rw [hs] at hr
      have hstep := step_fits h.state h.lineNo hs
      cases done with
      | none => exact run_fits rest (src ++ [c]) s' l' out res (h.step_none hstep) hr
      | some L => exact run_fits rest (src ++ [c]) s' l' (out.push L) res (h.step_some hstep) hr

end Espalier.LogicalLine.Scan

namespace Espalier

open Text LogicalLine LogicalLine.Scan

/-- Every line the splitter returns fits the source with its line breaks normalised, and each
line starts below the last physical line of every line before it. -/
theorem splitLogicalLines_fit {source file : String} {lines : List LogicalLine}
    (h : splitLogicalLines source file = .ok lines) :
    lines.Pairwise (fun a b => a.lastLine < b.line) ∧
      ∀ L ∈ lines, LineFits (normalizeBreaks source.toList) L := by
  unfold splitLogicalLines at h
  cases hr : Scan.run file (.indent 0) 1 (normalizeBreaks source.toList) #[] with
  | error e =>
    rw [hr] at h
    cases h
  | ok res =>
    rw [hr] at h
    cases h
    have := run_fits _ [] _ _ _ _ (runFits_start _) hr
    rwa [List.nil_append] at this

/-- Logical lines point back into their source. Their first lines strictly increase; the
physical line a logical line starts on holds exactly its indentation, in spaces and tabs, and
then a character that is neither; and every character of its text other than a line feed
stands, at the location `locAt` gives it, in that physical line of the normalised source, and
at the offset `offsetOf` computes for that location in the source as given. -/
theorem splitLogicalLines_locates_source {source file : String} {lines : List LogicalLine}
    (h : splitLogicalLines source file = .ok lines) :
    lines.Pairwise (fun a b => a.line < b.line) ∧
    ∀ L ∈ lines,
      (∃ bl c r, physicalLine (normalizeBreaks source.toList) L.line = bl ++ c :: r ∧
        bl.length = L.indent ∧ (∀ b ∈ bl, b = ' ' ∨ b = '\t') ∧ c ≠ ' ' ∧ c ≠ '\t') ∧
      ∀ o c, charAt? L.text.toList o = some c → c ≠ '\n' →
        charAt? (physicalLine (normalizeBreaks source.toList) (L.locAt o).line) (L.locAt o).col =
          some c ∧
        ∃ o', offsetOf source (L.locAt o) = some o' ∧ charAt? source.toList o' = some c := by
  obtain ⟨hsorted, hfit⟩ := splitLogicalLines_fit h
  refine ⟨hsorted.imp fun hab => Nat.lt_of_le_of_lt (line_le_lastLine _) hab,
    fun L hL => ⟨?_, fun o c hc hn => ?_⟩⟩
  · obtain ⟨bl, rest, he, hlen, hind, hmore⟩ := (hfit L hL).head
    obtain ⟨c, r, rfl, hc⟩ := hmore trivial
    exact ⟨bl, c, r, he, hlen, hind, hc⟩
  · have hat := (hfit L hL).chars o c hc hn
    -- the raw source differs from the normalised one only by the carriage returns that end
    -- its lines, so the physical line read there extends the normalised one
    refine ⟨hat, offsetOf_of_physicalLine ?_⟩
    exact charAt?_mono (physicalLine_normalizeBreaks _ _) hat

/-- A comment inside brackets, on the first physical line of a logical line. -/
theorem splitLogicalLines_locates_bracketed_comment :
    splitLogicalLines "f(1, # c\n  2)\n" "t.trl" = .ok [⟨1, 0, "f(1, \n  2)"⟩] ∧
    ([⟨1, 0, "f(1, \n  2)"⟩] : List LogicalLine).Pairwise (fun a b => a.line < b.line) ∧
    ∀ L ∈ ([⟨1, 0, "f(1, \n  2)"⟩] : List LogicalLine),
      (∃ bl c r, physicalLine (normalizeBreaks "f(1, # c\n  2)\n".toList) L.line = bl ++ c :: r ∧
        bl.length = L.indent ∧ (∀ b ∈ bl, b = ' ' ∨ b = '\t') ∧ c ≠ ' ' ∧ c ≠ '\t') ∧
      ∀ o c, charAt? L.text.toList o = some c → c ≠ '\n' →
        charAt? (physicalLine (normalizeBreaks "f(1, # c\n  2)\n".toList) (L.locAt o).line)
          (L.locAt o).col = some c ∧
        ∃ o', offsetOf "f(1, # c\n  2)\n" (L.locAt o) = some o' ∧
          charAt? "f(1, # c\n  2)\n".toList o' = some c := by
  have h : splitLogicalLines "f(1, # c\n  2)\n" "t.trl" = .ok [⟨1, 0, "f(1, \n  2)"⟩] := rfl
  exact ⟨h, splitLogicalLines_locates_source h⟩

/-- The line feed that ends a comment inside brackets is kept in the text, but its location is
where the comment began: the source has the comment's first character there, not a line feed. -/
theorem comment_break_located_at_comment :
    splitLogicalLines "f(1, # c\n  2)\n" "t.trl" = .ok [⟨1, 0, "f(1, \n  2)"⟩] ∧
    charAt? "f(1, \n  2)".toList 5 = some '\n' ∧
    LogicalLine.locAt ⟨1, 0, "f(1, \n  2)"⟩ 5 = ⟨1, 5⟩ ∧
    charAt? (physicalLine (normalizeBreaks "f(1, # c\n  2)\n".toList) 1) 5 = some '#' ∧
    offsetOf "f(1, # c\n  2)\n" ⟨1, 5⟩ = some 5 ∧
    charAt? "f(1, # c\n  2)\n".toList 5 = some '#' :=
  ⟨rfl, by decide, by decide, by decide, by decide, by decide⟩

end Espalier
