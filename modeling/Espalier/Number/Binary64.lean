/-!
# Binary64 values written as decimals

A finite non-negative binary64 value is `m · 2^q`. This module reads a decimal `d · 10^k` to
the nearest such value, a tie going to an even `m`, and writes a value back as the shortest
decimal that reads to it again, in positional notation.

Both directions use exact arithmetic on naturals. The reals that read to `m · 2^q` form an
interval reaching halfway to both neighbours, its ends included exactly when `m` is even;
just above a power of two the neighbour below is half as far away as the one above. The
shortest decimal is searched on the grids `10^(k - n)` for `n = 1, 2, …`, where `10^k` is the
least power of ten above the value: on each grid only the value's two neighbours can be
nearest, the first grid with a hit wins, of two hits the nearer, and an exact tie goes up.
-/

namespace Espalier

/-- A finite non-negative binary64 value `mant · 2^exp`: normal with `2^52 ≤ mant < 2^53`,
or subnormal or zero with `exp = -1074`. -/
structure Binary64 where
  mant : Nat
  exp : Int
deriving DecidableEq, Repr

namespace Binary64

/-- The exponent of the subnormal values. -/
def minExp : Int := -1074

/-- The greatest exponent of a finite value. -/
def maxExp : Int := 971

/-- Zero. -/
def zero : Binary64 := ⟨0, minExp⟩

/-- Compares `a · 10^i` with `n · 2^j` exactly. -/
def cmpScaled (a : Nat) (i : Int) (n : Nat) (j : Int) : Ordering :=
  compare (a * Nat.pow 10 i.toNat * Nat.pow 2 (-j).toNat)
    (n * Nat.pow 2 j.toNat * Nat.pow 10 (-i).toNat)

/-- Divides by `2^e`, rounding to the nearest natural and a tie to an even one. -/
def roundScaled (a b : Nat) (e : Int) : Nat :=
  let num := a * Nat.pow 2 (-e).toNat
  let den := b * Nat.pow 2 e.toNat
  let q := num / den
  let r := num % den
  if 2 * r > den ∨ (2 * r = den ∧ q % 2 = 1) then q + 1 else q

/-- The value nearest to the ratio `a / b` of naturals with `b > 0`, a tie to an even
mantissa; `none` when that is beyond the greatest finite value. -/
def ofRatio (a b : Nat) : Option Binary64 :=
  if a = 0 then some zero
  else
    -- the binary logarithm of `a / b` is `l` or `l - 1`
    let l : Int := (a.log2 : Int) - (b.log2 : Int)
    let l := if a * Nat.pow 2 (-l).toNat ≥ b * Nat.pow 2 l.toNat then l else l - 1
    let e := max (l - 52) minExp
    let q := roundScaled a b e
    let (q, e) := if q = Nat.pow 2 53 then (Nat.pow 2 52, e + 1) else (q, e)
    if e > maxExp then none else some ⟨q, e⟩

/-- The number of decimal digits of a natural. -/
def digitCount (d : Nat) : Nat := (Nat.toDigits 10 d).length

/-- The value nearest to `d · 10^k`; `none` when that is beyond the greatest finite value.
Decimals below `10^-330` read as zero and those of `10^310` and above overflow, so the
exact ratio is only formed for exponents near the range of the format. -/
def ofDecimal (d : Nat) (k : Int) : Option Binary64 :=
  if d = 0 then some zero
  else
    let top : Int := (digitCount d : Int) + k
    if top > 310 then none
    else if top < -330 then some zero
    else if k ≥ 0 then ofRatio (d * Nat.pow 10 k.toNat) 1
    else ofRatio d (Nat.pow 10 (-k).toNat)

/-- Whether the decimal `c · 10^s` lies among the reals that read to the positive value `x`. -/
def readsBack (x : Binary64) (c : Nat) (s : Int) : Bool :=
  let narrow := x.mant == Nat.pow 2 52 && x.exp > minExp
  let lo := if narrow then 4 * x.mant - 1 else 4 * x.mant - 2
  let hi := 4 * x.mant + 2
  let incl := x.mant % 2 == 0
  let cl := cmpScaled c s lo (x.exp - 2)
  let ch := cmpScaled c s hi (x.exp - 2)
  (cl == .gt || (incl && cl == .eq)) && (ch == .lt || (incl && ch == .eq))

/-- The least `k` with `x < 10^k`, for a positive value: an estimate from the binary
logarithm, corrected by exact comparisons. -/
def scale (x : Binary64) : Int :=
  let est : Int := ((x.mant.log2 : Int) + x.exp) * 30103 / 100000
  let atMost := fun (k : Int) => cmpScaled 1 k x.mant x.exp != .gt
  let k := (List.range 4).foldl (fun k _ => if atMost k then k + 1 else k) est
  (List.range 4).foldl (fun k _ => if atMost (k - 1) then k else k - 1) k

/-- Moves the trailing zeros of `c` into the exponent. -/
def stripZeros (c : Nat) (s : Int) : Nat × Int :=
  let rec go : Nat → Nat → Int → Nat × Int
    | 0, c, s => (c, s)
    | n + 1, c, s => if c ≠ 0 ∧ c % 10 = 0 then go n (c / 10) (s + 1) else (c, s)
  go (digitCount c) c s

/-- The exact decimal `c · 10^s` of a value. -/
def exactDecimal (x : Binary64) : Nat × Int :=
  if x.exp ≥ 0 then (x.mant * Nat.pow 2 x.exp.toNat, 0)
  else (x.mant * Nat.pow 5 (-x.exp).toNat, x.exp)

/-- The candidate on the grid `10^s` for the positive value `x`: of its two neighbours there
that read back, the nearer, and the upper one on an exact tie. -/
def onGrid (x : Binary64) (s : Int) : Option (Nat × Int) :=
  let c := x.mant * Nat.pow 2 x.exp.toNat * Nat.pow 10 (-s).toNat /
    (Nat.pow 2 (-x.exp).toNat * Nat.pow 10 s.toNat)
  match x.readsBack c s, x.readsBack (c + 1) s with
  | true, true =>
      if cmpScaled (2 * c + 1) s (2 * x.mant) x.exp == .gt then some (c, s) else some (c + 1, s)
  | true, false => some (c, s)
  | false, true => some (c + 1, s)
  | false, false => none

/-- The shortest decimal `c · 10^s` that reads back as the positive value `x`, without
trailing zeros in `c`. -/
def shortest (x : Binary64) : Nat × Int :=
  let k := x.scale
  match (List.range 17).findSome? (fun i => x.onGrid (k - ((i + 1 : Nat) : Int))) with
  | some (c, s) => stripZeros c s
  | none => let (c, s) := x.exactDecimal; stripZeros c s

/-- A run of zeros. -/
def zeros (n : Nat) : String := String.ofList (List.replicate n '0')

/-- Writes `c · 10^s` in positional notation. -/
def positional (c : Nat) (s : Int) : String :=
  let ds := toString c
  let n := ds.length
  let p : Int := s + n
  if p ≤ 0 then "0." ++ zeros (-p).toNat ++ ds
  else if p < n then (ds.take p.toNat).toString ++ "." ++ (ds.drop p.toNat).toString
  else ds ++ zeros (p - n).toNat

/-- The text of a value with a sign: its shortest decimal in positional notation, with at
least one digit after the point. -/
def text (neg : Bool) (x : Binary64) : String :=
  let body := if x.mant = 0 then "0" else let (c, s) := x.shortest; positional c s
  let body := if body.contains '.' then body else body ++ ".0"
  if neg then "-" ++ body else body

end Binary64

end Espalier
