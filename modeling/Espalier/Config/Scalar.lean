import Espalier.Number.Binary64
import Espalier.Text.Escape

/-!
# Scalars of a settings file

A settings file is YAML, and a plain (unquoted) scalar there has a type by its spelling, tried
in this order:

* empty, `~`, `null`, `Null` or `NULL` is the unit value;
* `true`, `True`, `TRUE`, `false`, `False`, `FALSE` is a boolean;
* an integer: decimal, or hexadecimal, octal or binary after `0x`, `0o` or `0b`, with an
  optional sign, that fits 64 bits (unsigned, or signed when negative), and else 128 bits;
* a decimal floating-point number that is finite as a binary64 value, or `.inf`, `-.inf`
  and `.nan` in their three spellings;
* anything else is a string. A decimal of two or more digits with a leading zero, such as
  `0755`, is a string too, never a number.

A quoted scalar is always a string. This module resolves plain scalars and names a scalar the
way a type error reports it.
-/

namespace Espalier

/-- The type a plain scalar resolves to. -/
inductive PlainKind where
  | unit
  | bool (b : Bool)
  /-- An integer of 64 bits. -/
  | int (i : Int)
  /-- An integer that needs 128 bits. -/
  | wide (i : Int)
  /-- A floating-point number, with the text it is reported by. -/
  | float (text : String)
  | str
deriving DecidableEq, Repr

namespace PlainKind

/-- The value of a digit in a radix up to 16. -/
def digitValue? (radix : Nat) (c : Char) : Option Nat :=
  let v :=
    if c.isDigit then some (c.toNat - '0'.toNat)
    else if 'a' ≤ c ∧ c ≤ 'f' then some (c.toNat - 'a'.toNat + 10)
    else if 'A' ≤ c ∧ c ≤ 'F' then some (c.toNat - 'A'.toNat + 10)
    else none
  v.bind fun d => if d < radix then some d else none

/-- The value of a nonempty run of digits in a radix. -/
def radixDigits? (radix : Nat) (cs : List Char) : Option Nat :=
  if cs.isEmpty then none
  else cs.foldlM (fun acc c => (digitValue? radix c).map (acc * radix + ·)) 0

/-- Reads a natural in a radix, after an optional `+`, if it is at most `hi`. -/
def unsignedRadix? (radix : Nat) (cs : List Char) (hi : Nat) : Option Nat :=
  let ds := match cs with
    | '+' :: r => r
    | r => r
  (radixDigits? radix ds).bind fun n => if n ≤ hi then some n else none

/-- Reads an integer in a radix, after an optional sign, if it lies in `[lo, hi]`. -/
def signedRadix? (radix : Nat) (cs : List Char) (lo hi : Int) : Option Int :=
  let (neg, ds) := match cs with
    | '+' :: r => (false, r)
    | '-' :: r => (true, r)
    | r => (false, r)
  (radixDigits? radix ds).bind fun n =>
    let v : Int := if neg then -(n : Int) else n
    if lo ≤ v ∧ v ≤ hi then some v else none

/-- Whether a text is a decimal of two or more digits with a leading zero, after an
optional sign. -/
def leadingZeroDigits (cs : List Char) : Bool :=
  let cs := match cs with
    | '-' :: r => r
    | '+' :: r => r
    | r => r
  cs.length > 1 && cs.head? == some '0' && (cs.drop 1).all Char.isDigit

/-- Whether a text starts with a sign. -/
def signed (cs : List Char) : Bool := cs.head? == some '+' || cs.head? == some '-'

/-- Reads a non-negative integer of at most `hi`: hexadecimal, octal or binary after a
prefix, or decimal without a leading zero, after an optional `+`. A sign after a prefix
makes the text no integer. -/
def unsigned? (cs : List Char) (hi : Nat) : Option Nat :=
  let un := match cs with
    | '+' :: r => r
    | r => r
  let prefixed : List Char → Nat → Option (Option Nat) := fun p radix =>
    if p.isPrefixOf un then
      let rest := un.drop p.length
      if signed rest then some none else (unsignedRadix? radix rest hi).map some
    else none
  match prefixed ['0', 'x'] 16 with
  | some r => r
  | none =>
    match prefixed ['0', 'o'] 8 with
    | some r => r
    | none =>
      match prefixed ['0', 'b'] 2 with
      | some r => r
      | none =>
        if signed un || leadingZeroDigits cs then none else unsignedRadix? 10 un hi

/-- Reads a negative integer in `[lo, hi]`: after `-0x`, `-0o` or `-0b` in that radix, or
a decimal without a leading zero. -/
def negative? (cs : List Char) (lo hi : Int) : Option Int :=
  let prefixed : List Char → Nat → Option Int := fun p radix =>
    if p.isPrefixOf cs then signedRadix? radix ('-' :: cs.drop p.length) lo hi else none
  match prefixed ['-', '0', 'x'] 16 with
  | some v => some v
  | none =>
    match prefixed ['-', '0', 'o'] 8 with
    | some v => some v
    | none =>
      match prefixed ['-', '0', 'b'] 2 with
      | some v => some v
      | none => if leadingZeroDigits cs then none else signedRadix? 10 cs lo hi

/-- The value of a run of decimal digits. -/
def digitsValue (cs : List Char) : Nat :=
  cs.foldl (fun n c => 10 * n + (c.toNat - '0'.toNat)) 0

/-- Reads a decimal floating-point literal: an optional sign, digits with an optional
point (at least one digit in all), and an optional exponent `e` or `E` with an optional
sign and at least one digit. The result is the sign, the digits and the exponent of ten. -/
def decimalLiteral? (cs : List Char) : Option (Bool × Nat × Int) :=
  let (neg, cs) := match cs with
    | '+' :: r => (false, r)
    | '-' :: r => (true, r)
    | r => (false, r)
  let whole := cs.takeWhile Char.isDigit
  let cs := cs.dropWhile Char.isDigit
  let (frac, cs) := match cs with
    | '.' :: r => (r.takeWhile Char.isDigit, r.dropWhile Char.isDigit)
    | r => ([], r)
  if whole.isEmpty && frac.isEmpty then none
  else
    let expo : Option Int := match cs with
      | [] => some 0
      | c :: r =>
        if c = 'e' ∨ c = 'E' then
          let (eneg, ds) := match r with
            | '+' :: r' => (false, r')
            | '-' :: r' => (true, r')
            | r' => (false, r')
          if ds.isEmpty || !ds.all Char.isDigit then none
          else
            let n := digitsValue ds
            some (if eneg then -(n : Int) else n)
        else none
    expo.map fun e => (neg, digitsValue (whole ++ frac), e - frac.length)

/-- The text of a floating-point scalar, if it is one: the infinities and NaN by their
names, a finite literal by its shortest decimal. A literal beyond the finite range is no
floating-point scalar. -/
def float? (cs : List Char) : Option String :=
  let un? : Option (List Char) := match cs with
    | '+' :: r => if signed r then none else some r
    | r => some r
  match un? with
  | none => none
  | some un =>
    let u := String.ofList un
    let whole := String.ofList cs
    if u == ".inf" || u == ".Inf" || u == ".INF" then some "inf"
    else if whole == "-.inf" || whole == "-.Inf" || whole == "-.INF" then some "-inf"
    else if whole == ".nan" || whole == ".NaN" || whole == ".NAN" then some "NaN"
    else match decimalLiteral? un with
      | some (neg, d, e) => (Binary64.ofDecimal d e).map (Binary64.text neg)
      | none => none

/-- The largest unsigned integer of `bits` bits. -/
def unsignedMax (bits : Nat) : Nat := Nat.pow 2 bits - 1

/-- The integers of `bits` bits, signed: `[-2^(bits-1), 2^(bits-1) - 1]`. -/
def signedRange (bits : Nat) : Int × Int := (-Int.pow 2 (bits - 1), Int.pow 2 (bits - 1) - 1)

/-- Reads an integer: of 64 bits (unsigned, or signed when negative), else of 128 bits. -/
def integer? (cs : List Char) : Option PlainKind :=
  match unsigned? cs (unsignedMax 64) with
  | some n => some (.int n)
  | none =>
    match negative? cs (signedRange 64).1 (signedRange 64).2 with
    | some v => some (.int v)
    | none =>
      match unsigned? cs (unsignedMax 128) with
      | some n => some (.wide n)
      | none => (negative? cs (signedRange 128).1 (signedRange 128).2).map .wide

/-- Whether a text is one of the spellings of the unit value other than the empty text. -/
def isNullWord (t : String) : Bool := t == "~" || t == "null" || t == "Null" || t == "NULL"

/-- Reads a boolean spelling. -/
def boolean? (t : String) : Option Bool :=
  if t == "true" || t == "True" || t == "TRUE" then some true
  else if t == "false" || t == "False" || t == "FALSE" then some false
  else none

/-- Resolves a plain scalar. -/
def ofPlain (t : String) : PlainKind :=
  let cs := t.toList
  if t.isEmpty || isNullWord t then .unit
  else match boolean? t with
  | some b => .bool b
  | none =>
    match integer? cs with
    | some k => k
    | none =>
      if leadingZeroDigits cs then .str
      else match float? cs with
        | some f => .float f
        | none => .str

end PlainKind

/-- How a plain scalar is named in a type error. -/
def PlainKind.describe (k : PlainKind) (text : String) : String :=
  match k with
  | .unit => "unit value"
  | .bool b => "boolean " ++ "\x60" ++ toString b ++ "\x60"
  | .int i => "integer " ++ "\x60" ++ toString i ++ "\x60"
  | .wide i =>
      "integer " ++ "\x60" ++ toString i ++ "\x60" ++ (if i < 0 then " as i128" else " as u128")
  | .float f => "floating point " ++ "\x60" ++ f ++ "\x60"
  | .str => "string " ++ Text.quoteEscaped text

end Espalier
