import Mathlib
import Espalier.Value.Arith

/-!
# Integer division near the limits of 64 bits

Integers are signed 64-bit words (`fitsInt`), and `/`, `//` and `%` floor. Main statement,
`int_division_near_limits`: for words `a` and `b`,

* `/` and `//` give the exact quotient rounded down, `⌊a / b⌋` computed in `ℚ`, which is
  again a word, except at `intMin / -1`, where they fail with the division overflow;
* `%` gives `a - b * ⌊a / b⌋`, which has the sign of `b` and is smaller than `b` in size, so
  it is a word, as long as the product `b * ⌊a / b⌋` is a word too; past that the host's
  overflow check panics (at `intMin % 3`, say), although the remainder fits. At
  `intMin % -1` it fails with the division overflow, although the remainder there is 0
  (`mod_min_neg_one_overflows`), because the remainder is computed from the quotient;
* a zero divisor fails with the division-by-zero error, for all three;
* a string times a count repeats the string `max n 0` times, on either side, as long as the
  copies' byte length is a word; past that the host's allocation panics.

Values are compared through `Run.binary` at any session: operators neither read nor change
it. The floor of the quotient is `Int.fdiv` (`fdiv_eq_floor_div`), and its size is bounded by
the decomposition `a = a.fmod b + b * a.fdiv b` with the remainder's sign and size.
-/

namespace Espalier

/-! ## Floor division of integers -/

theorem fdiv_eq_floor_div_of_pos (a b : Int) (hb : 0 ≤ b) : a.fdiv b = ⌊(a : ℚ) / b⌋ := by
  lift b to Nat using hb
  rw [Int.fdiv_eq_ediv_of_nonneg a (Int.natCast_nonneg _)]
  exact (Rat.floor_intCast_div_natCast a _).symm

/-- `Int.fdiv` is the exact quotient rounded down. -/
theorem fdiv_eq_floor_div (a b : Int) : a.fdiv b = ⌊(a : ℚ) / b⌋ := by
  rcases le_total 0 b with hb | hb
  · exact fdiv_eq_floor_div_of_pos a b hb
  · -- a negative divisor: negate both sides, which changes neither quotient
    simpa using fdiv_eq_floor_div_of_pos (-a) (-b) (neg_nonneg.mpr hb)

/-- The floored remainder has the sign of the divisor and is smaller than it in size. -/
theorem fmod_bounds (a : Int) {b : Int} :
    (0 < b → 0 ≤ a.fmod b ∧ a.fmod b < b) ∧ (b < 0 → b < a.fmod b ∧ a.fmod b ≤ 0) := by
  refine ⟨fun hpos => ⟨Int.fmod_nonneg_of_pos a hpos, Int.fmod_lt_of_pos a hpos⟩, fun hneg => ?_⟩
  obtain ⟨-, hlo, hhi⟩ := (Int.fdiv_fmod_unique' hneg).mp ⟨rfl, rfl⟩
  exact ⟨hlo, hhi⟩

theorem fitsInt_iff (n : Int) : fitsInt n = true ↔ intMin ≤ n ∧ n ≤ intMax := by
  simp [fitsInt]

/-- The floored quotient of two words is a word, except for `intMin / -1`. -/
theorem fitsInt_fdiv {a b : Int} (ha : fitsInt a) (hb : fitsInt b) (hb0 : b ≠ 0)
    (hmin : ¬(a = intMin ∧ b = -1)) : fitsInt (a.fdiv b) := by
  rw [fitsInt_iff] at ha hb ⊢
  simp only [intMin, intMax] at ha hb hmin ⊢
  -- `a = r + b q` with the remainder `r` between 0 and `b`: bound `q` through `b q`
  have hdec : a.fmod b + b * a.fdiv b = a := by rw [Int.fmod_def]; ring
  have hr := fmod_bounds a (b := b)
  generalize a.fdiv b = q at hdec ⊢
  generalize a.fmod b = r at hdec hr
  rcases lt_or_gt_of_ne hb0 with hneg | hpos
  · obtain ⟨hrlo, hrhi⟩ := hr.2 hneg
    -- only `b = -1` can give a quotient as large as the dividend
    obtain rfl | hlt : b = -1 ∨ b < -1 := by omega
    · constructor <;> omega
    · constructor <;> nlinarith
  · obtain ⟨hrlo, hrhi⟩ := hr.1 hpos
    constructor <;> nlinarith

/-! ## Checked floor division -/

theorem floorDiv_of_ne {a b : Int} (hb0 : b ≠ 0) (hmin : ¬(a = intMin ∧ b = -1)) :
    floorDiv a b = .ok ⌊(a : ℚ) / b⌋ := by
  rw [floorDiv, if_neg hb0, if_neg hmin, fdiv_eq_floor_div]

theorem floorDiv_zero (a : Int) :
    floorDiv a 0 = .error (.plain .evalError "integer division by zero") := by
  rw [floorDiv, if_pos rfl]

theorem floorDiv_min_neg_one :
    floorDiv intMin (-1) = .error (.plain .evalError "integer overflow in division") := by
  rw [floorDiv, if_neg (by decide), if_pos ⟨rfl, rfl⟩]

/-! ## The operators on words and strings

Operators neither read nor change the session, so each run ends in the session it started
from. -/

section Operators

variable (s : Session)

/-- `/` and `//` on two integers are checked floor division. -/
theorem binary_quot_run {op : BinOp} (hop : op = .div ∨ op = .floorDiv) (a b : Int) :
    (Run.binary op (.int a) (.int b)).run s =
      match floorDiv a b with
      | .ok q => .ok (.int q) s
      | .error e => .error e s := by
  rcases hop with rfl | rfl <;>
    simp only [Run.binary, Value.asInt?, intArith] <;> cases floorDiv a b <;> rfl

/-- `%` on two integers takes the remainder of the checked floor division; the product of
the divisor and the quotient is checked by the host. -/
theorem binary_mod_run (a b : Int) :
    (Run.binary .mod (.int a) (.int b)).run s =
      match floorDiv a b with
      | .ok q => if fitsInt (b * q) then .ok (.int (a - b * q)) s
          else .error (hostPanic "attempt to multiply with overflow") s
      | .error e => .error e s := by
  simp only [Run.binary, Value.asInt?, intArith]
  cases floorDiv a b with
  | error e => rfl
  | ok q =>
    -- the quotient is bound inside the remainder's do-block: open the bind first
    simp only [bind, Except.bind, checkedInt?]
    by_cases hq : fitsInt (b * q) = true
    · simp only [hq, if_true]
      rfl
    · simp only [hq, Bool.false_eq_true, if_false]
      rfl

/-- A failed floor division fails `/`, `//` and `%` alike, with its own error. -/
theorem binary_division_run_error {op : BinOp} (hop : op = .div ∨ op = .floorDiv ∨ op = .mod)
    {a b : Int} {e : Error} (h : floorDiv a b = .error e) :
    (Run.binary op (.int a) (.int b)).run s = .error e s := by
  rcases hop with hop | hop | rfl
  · rw [binary_quot_run s (.inl hop), h]
  · rw [binary_quot_run s (.inr hop), h]
  · rw [binary_mod_run, h]

theorem join_replicate_empty (k : Nat) : String.join (List.replicate k "") = "" := by
  induction k with
  | zero => rfl
  | succ k ih => simp [List.replicate_succ, ih]

/-- Repeating a string `n` times is joining `max n 0` copies of it; the shortcut for the
empty string agrees. -/
theorem repeatString_eq (str : String) (n : Int) :
    repeatString str n = String.join (List.replicate n.toNat str) := by
  unfold repeatString
  split
  · rename_i h
    simp only [String.isEmpty_iff] at h
    rw [h, join_replicate_empty]
  · rfl

/-- The host repeats a string unless the copies' byte length leaves the word range. -/
theorem repeatChecked_eq (str : String) (n : Int) :
    repeatChecked str n = if intMax < str.utf8ByteSize * n.toNat then
      .error (hostPanic "capacity overflow") else .ok (String.join (List.replicate n.toNat str)) := by
  rw [repeatChecked, repeatString_eq]

theorem binary_mul_str_int (str : String) (n : Int) :
    (Run.binary .mul (.str str) (.int n)).run s =
      match repeatChecked str n with
      | .ok t => .ok (.str t) s
      | .error e => .error e s := by
  simp only [Run.binary]
  cases repeatChecked str n <;> rfl

theorem binary_mul_int_str (str : String) (n : Int) :
    (Run.binary .mul (.int n) (.str str)).run s =
      match repeatChecked str n with
      | .ok t => .ok (.str t) s
      | .error e => .error e s := by
  simp only [Run.binary]
  cases repeatChecked str n <;> rfl

/-- Integer division is exact up to the limits of the 64-bit range: for two words `a` and
`b`, `/` and `//` give `⌊a / b⌋`, a word, and `%` the remainder `a - b ⌊a / b⌋`, with the
sign of `b` and smaller than it, when the product `b ⌊a / b⌋` is a word, and the host's
overflow panic when it is not; at `intMin` and `-1` all three fail with the division
overflow, and a zero divisor fails all three. A string times an integer repeats the string
`max n 0` times, on either side, when the copies' byte length is a word, and the host's
allocation panics when it is not. -/
theorem int_division_near_limits (a b : Int) (ha : fitsInt a) (hb : fitsInt b) :
    (b ≠ 0 → ¬(a = intMin ∧ b = -1) →
      (∀ op ∈ [BinOp.div, BinOp.floorDiv],
        (Run.binary op (.int a) (.int b)).run s = .ok (.int ⌊(a : ℚ) / b⌋) s) ∧
      fitsInt ⌊(a : ℚ) / b⌋ ∧
      (fitsInt (b * ⌊(a : ℚ) / b⌋) →
        (Run.binary .mod (.int a) (.int b)).run s = .ok (.int (a - b * ⌊(a : ℚ) / b⌋)) s) ∧
      (fitsInt (b * ⌊(a : ℚ) / b⌋) = false →
        (Run.binary .mod (.int a) (.int b)).run s =
          .error (hostPanic "attempt to multiply with overflow") s) ∧
      (0 < b → 0 ≤ a - b * ⌊(a : ℚ) / b⌋ ∧ a - b * ⌊(a : ℚ) / b⌋ < b) ∧
      (b < 0 → b < a - b * ⌊(a : ℚ) / b⌋ ∧ a - b * ⌊(a : ℚ) / b⌋ ≤ 0)) ∧
    (a = intMin → b = -1 → ∀ op ∈ [BinOp.div, BinOp.floorDiv, BinOp.mod],
      (Run.binary op (.int a) (.int b)).run s =
        .error (.plain .evalError "integer overflow in division") s) ∧
    (b = 0 → ∀ op ∈ [BinOp.div, BinOp.floorDiv, BinOp.mod],
      (Run.binary op (.int a) (.int b)).run s =
        .error (.plain .evalError "integer division by zero") s) ∧
    ∀ (str : String) (n : Int),
      (str.utf8ByteSize * n.toNat ≤ intMax →
        (Run.binary .mul (.str str) (.int n)).run s =
            .ok (.str (String.join (List.replicate n.toNat str))) s ∧
          (Run.binary .mul (.int n) (.str str)).run s =
            .ok (.str (String.join (List.replicate n.toNat str))) s) ∧
      (intMax < str.utf8ByteSize * n.toNat →
        (Run.binary .mul (.str str) (.int n)).run s = .error (hostPanic "capacity overflow") s ∧
          (Run.binary .mul (.int n) (.str str)).run s = .error (hostPanic "capacity overflow") s) := by
  refine ⟨fun hb0 hmin => ?_, ?_, ?_, fun str n => ?_⟩
  · have hq := floorDiv_of_ne hb0 hmin
    -- the remainder of the rounded-down quotient is the floored remainder
    have hr : a - b * ⌊(a : ℚ) / b⌋ = a.fmod b := by rw [← fdiv_eq_floor_div, Int.fmod_def]
    refine ⟨fun op hop => ?_, fdiv_eq_floor_div a b ▸ fitsInt_fdiv ha hb hb0 hmin, ?_, ?_, ?_, ?_⟩
    · rw [binary_quot_run s (by simpa using hop), hq]
    · intro hfit
      rw [binary_mod_run, hq]
      exact if_pos hfit
    · intro hover
      rw [binary_mod_run, hq]
      exact if_neg (by simp [hover])
    · rw [hr]
      exact (fmod_bounds a).1
    · rw [hr]
      exact (fmod_bounds a).2
  · rintro rfl rfl op hop
    exact binary_division_run_error s (by simpa using hop) floorDiv_min_neg_one
  · rintro rfl op hop
    exact binary_division_run_error s (by simpa using hop) (floorDiv_zero a)
  · rw [binary_mul_str_int, binary_mul_int_str, repeatChecked_eq]
    refine ⟨fun hle => ?_, fun hlt => ?_⟩
    · rw [if_neg (not_lt.mpr hle)]
      exact ⟨rfl, rfl⟩
    · rw [if_pos hlt]
      exact ⟨rfl, rfl⟩

end Operators

/-- `7 // -2` is `-4`: the quotient is rounded down, not towards zero. -/
theorem floorDiv_seven_by_neg_two :
    (Run.binary .floorDiv (.int 7) (.int (-2))).run ({} : Session) = .ok (.int (-4)) {} := by
  have h := ((int_division_near_limits {} 7 (-2) (by decide) (by decide)).1
    (by decide) (by decide)).1 .floorDiv (by simp)
  rw [h]
  norm_num

/-- `intMin % -1` fails with the division overflow, although its remainder, 0, is a word:
the remainder is computed from the quotient, and the quotient `-intMin` is not a word. -/
theorem mod_min_neg_one_overflows :
    (Run.binary .mod (.int intMin) (.int (-1))).run ({} : Session) =
        .error (.plain .evalError "integer overflow in division") {} ∧
      intMin - (-1) * ⌊(intMin : ℚ) / (-1 : Int)⌋ = 0 ∧ fitsInt 0 := by
  refine ⟨?_, ?_, by decide⟩
  · rw [binary_mod_run, floorDiv_min_neg_one]
  · rw [← fdiv_eq_floor_div]
    decide

end Espalier
