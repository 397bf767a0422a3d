/-!
# Parsing expressions

A grammar is a family of *rules*, each a parsing expression: ordered choice, greedy
repetition, sequences and lookahead over literal text and character ranges. Rules are either
*normal* or *atomic*. Between the elements of a sequence, and between repetitions, a normal
rule lets the grammar's *blank* expression match any number of times; an atomic rule does
not, and the rules it calls are treated as atomic too.

A successful match yields a forest of `Pair`s: one node for every normal or atomic rule that
matched outside an atomic rule and outside a lookahead, holding its byte span, its text and
the nodes below it.

A failed match reports the furthest byte position at which some rule failed, with the rules
that were *expected* there: a rule that fails where it started stands for everything tried
below it, unless exactly one attempt was recorded below it, which then stands for itself.
-/

namespace Espalier.Peg

/-- A parsing expression over rule names `R`. -/
inductive PExpr (R : Type) where
  /-- This exact text. -/
  | lit (s : List Char)
  /-- One character between `lo` and `hi`, both included. -/
  | range (lo hi : Char)
  /-- Any one character. -/
  | any
  /-- Succeeds at the start of the input only. -/
  | soi
  /-- Succeeds at the end of the input only. -/
  | eoi
  | seq (a b : PExpr R)
  /-- Ordered choice: `b` is tried only when `a` fails. -/
  | alt (a b : PExpr R)
  | opt (a : PExpr R)
  /-- Zero or more repetitions, as many as match. -/
  | star (a : PExpr R)
  /-- One or more repetitions, as many as match. -/
  | plus (a : PExpr R)
  /-- Succeeds, consuming nothing, where `a` fails. -/
  | notAhead (a : PExpr R)
  /-- A use of a rule. -/
  | call (r : R)
deriving Inhabited

namespace PExpr

/-- A sequence of expressions; the empty sequence matches the empty text. -/
def seqs {R : Type} : List (PExpr R) → PExpr R
  | [] => .lit []
  | [a] => a
  | a :: as => .seq a (seqs as)

/-- An ordered choice among expressions. -/
def alts {R : Type} : List (PExpr R) → PExpr R
  | [] => .notAhead (.lit [])
  | [a] => a
  | a :: as => .alt a (alts as)

/-- The literal text of a string. -/
def str {R : Type} (s : String) : PExpr R := .lit s.toList

end PExpr

/-- A grammar: what each rule matches, which rules are atomic, what counts as blank, how
rules are named in messages and in which order messages list them. -/
structure Grammar (R : Type) where
  body : R → PExpr R
  atomic : R → Bool
  blank : PExpr R
  name : R → String
  rank : R → Nat

/-- A node of a successful match. -/
structure Pair (R : Type) where
  rule : R
  /-- Byte offset where the match starts. -/
  start : Nat
  /-- Byte offset just after the match. -/
  stop : Nat
  /-- The matched text. -/
  text : List Char
  children : List (Pair R)
deriving Inhabited

/-- The rules attempted at the furthest failure position, as matching records them. -/
structure Tracker (R : Type) where
  attemptPos : Nat := 0
  positives : Array R := #[]
  negatives : Array R := #[]

/-- How many attempts are recorded at byte position `p`. -/
def Tracker.attemptsAt {R : Type} (t : Tracker R) (p : Nat) : Nat :=
  if t.attemptPos = p then t.positives.size + t.negatives.size else 0

/-- Why a whole match failed: the furthest position, and the rules expected and unexpected
there, each in rank order without repeats. -/
structure Failure (R : Type) where
  pos : Nat
  positives : List R
  negatives : List R

/-- Lists names as prose: `a`, `a or b`, `a, b, or c`. -/
def enumerate : List String → String
  | [] => ""
  | [a] => a
  | [a, b] => a ++ " or " ++ b
  | names =>
      match names.reverse with
      | last :: before => ", ".intercalate before.reverse ++ ", or " ++ last
      | [] => ""

/-- The message of a failure, naming rules with `name`. -/
def Failure.message {R : Type} (f : Failure R) (name : R → String) : String :=
  let pos := enumerate (f.positives.map name)
  let neg := enumerate (f.negatives.map name)
  match f.negatives.isEmpty, f.positives.isEmpty with
  | false, false => "unexpected " ++ neg ++ "; expected " ++ pos
  | false, true => "unexpected " ++ neg
  | true, false => "expected " ++ pos
  | true, true => "unknown parsing error"

end Espalier.Peg
