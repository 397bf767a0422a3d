/-!
# Similar words

The Jaro similarity of two words, computed as double-precision arithmetic computes it. Two
characters match when they are equal, unmatched so far, and at most `max |a| |b| / 2 - 1`
positions apart; each character of the first word takes the first such partner in the
second. With `m` matches and `t` half the number of matched pairs that stand in a different
order,

  `jaro a b = (m / |a| + m / |b| + (m - t) / m) / 3`,

`1` for two empty words and `0` when nothing matches. Every division and sum is rounded to
the nearest double, so that a score that is exactly `7 / 10` on paper, such as
`(3 / 5 + 3 / 6 + 1) / 3`, comes out just above the double nearest to `0.7`. A word is
*similar* to another when their similarity exceeds that double; suggestions list the similar
candidates, least similar first.
-/

namespace Espalier.Text

/-- A nonnegative number as a double keeps it: `mantissa / 2 ^ shift`. The numbers here lie
between the reciprocal of a word's length and `4`, far from where a double loses precision
or range, so only the rounding of the 53-bit mantissa matters. -/
structure Rounded where
  mantissa : Nat
  shift : Nat

namespace Rounded

/-- The least shift that brings `p / q` (with `p > 0`) to at least `2 ^ 52`. -/
def normalShift (p q : Nat) : Nat :=
  ((List.range (Nat.log2 q + 54)).find? fun k => Nat.pow 2 52 * q ≤ p * Nat.pow 2 k).getD
    (Nat.log2 q + 54)

/-- The double nearest to `p / q`, a tie going to the even mantissa. -/
def ofFraction (p q : Nat) : Rounded :=
  if p = 0 || q = 0 then ⟨0, 0⟩
  else
    let k := normalShift p q
    let scaled := p * Nat.pow 2 k
    let m := scaled / q
    let r := scaled % q
    ⟨if q < 2 * r || (2 * r = q && m % 2 = 1) then m + 1 else m, k⟩

/-- The rounded sum of two doubles. -/
def add (x y : Rounded) : Rounded :=
  let k := max x.shift y.shift
  ofFraction (x.mantissa * Nat.pow 2 (k - x.shift) + y.mantissa * Nat.pow 2 (k - y.shift))
    (Nat.pow 2 k)

/-- The rounded quotient of a double by a whole number. -/
def divNat (x : Rounded) (n : Nat) : Rounded := ofFraction x.mantissa (n * Nat.pow 2 x.shift)

/-- Whether one double is at most another. -/
def le (x y : Rounded) : Bool := x.mantissa * Nat.pow 2 y.shift ≤ y.mantissa * Nat.pow 2 x.shift

/-- Whether one double is below another. -/
def lt (x y : Rounded) : Bool := !y.le x

/-- Whether a score exceeds the double nearest to `0.7`. -/
def similar (x : Rounded) : Bool := (ofFraction 7 10).lt x

end Rounded

/-- The match flags of two words: which positions of each take part in a match. -/
def matchFlags (xs ys : Array Char) : Array Bool × Array Bool := Id.run do
  let range := max xs.size ys.size / 2 - 1
  let mut fa := Array.replicate xs.size false
  let mut fb := Array.replicate ys.size false
  for i in [0:xs.size] do
    let lo := if i > range then i - range else 0
    let hi := min ys.size (i + range + 1)
    for j in [lo:hi] do
      if xs.getD i ' ' == ys.getD j ' ' && !fb.getD j true then
        fa := fa.set! i true
        fb := fb.set! j true
        break
  return (fa, fb)

/-- The characters at the flagged positions, in order. -/
def flagged (xs : Array Char) (flags : Array Bool) : List Char :=
  ((xs.toList.zip flags.toList).filter (·.2)).map (·.1)

/-- The number of positions at which two lists differ. -/
def mismatches : List Char → List Char → Nat
  | a :: as, b :: bs => (if a = b then 0 else 1) + mismatches as bs
  | _, _ => 0

/-- The Jaro similarity of two words. -/
def jaro (a b : String) : Rounded :=
  let xs := a.toList.toArray
  let ys := b.toList.toArray
  let la := xs.size
  let lb := ys.size
  if la = 0 && lb = 0 then ⟨1, 0⟩
  else if la = 0 || lb = 0 then ⟨0, 0⟩
  else
    let (fa, fb) := matchFlags xs ys
    let m := (fa.toList.filter id).length
    if m = 0 then ⟨0, 0⟩
    else
      let t := mismatches (flagged xs fa) (flagged ys fb) / 2
      let sum := (Rounded.ofFraction m la).add (Rounded.ofFraction m lb)
      (sum.add (Rounded.ofFraction (m - t) m)).divNat 3

/-- The candidates similar to a word, least similar first; equally similar ones keep
their order. -/
def similarWords (word : String) (candidates : List String) : List String :=
  let scored := (candidates.map fun c => (jaro word c, c)).filter (·.1.similar)
  (scored.mergeSort fun x y => x.1.le y.1).map (·.2)

/-- The candidate most similar to a word, the last of equals, if any is similar. -/
def closestWord? (word : String) (candidates : List String) : Option String :=
  (similarWords word candidates).getLast?

end Espalier.Text
