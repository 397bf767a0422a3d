import Espalier.Peg.Basic

/-!
# Matching

`Grammar.parse` runs a grammar's start rule over a text. Matching is a recursive descent with
backtracking: a failed alternative leaves the input where it was, but what the failure
taught about expected rules stays in the `Tracker`.

The depth of the descent is bounded by a fuel argument; `Grammar.parse` supplies more than
any nesting of the text can use, since every level of nesting either consumes input or calls
one of finitely many rules. A repetition whose body matches without consuming stops there.
-/

namespace Espalier.Peg

/-- A position in the input: the characters left, the byte offset and the character count
consumed so far. -/
structure Cursor where
  rest : List Char
  pos : Nat := 0
  idx : Nat := 0

namespace Cursor

/-- Consumes one character. -/
def advance (c : Cursor) : Option Cursor :=
  match c.rest with
  | ch :: r => some { rest := r, pos := c.pos + ch.utf8Size, idx := c.idx + 1 }
  | [] => none

/-- Consumes the literal `s` if the input starts with it. -/
def eat (c : Cursor) (s : List Char) : Option Cursor :=
  if s.isPrefixOf c.rest then
    some { rest := c.rest.drop s.length, pos := c.pos + s.foldr (fun ch n => ch.utf8Size + n) 0,
           idx := c.idx + s.length }
  else none

end Cursor

/-- Which lookahead the matcher is inside, if any. -/
inductive Look where
  | none | positive | negative
deriving DecidableEq

/-- The matching context: whether inside an atomic rule, and which lookahead. -/
structure Ctx where
  atomic : Bool := false
  look : Look := .none

/-- A match result: where the input stands afterwards and the nodes built. -/
abbrev Matched (R : Type) := Option (Cursor × List (Pair R))

/-- Records that rule `r`, started at byte `p`, failed (or, under a negative lookahead,
succeeded). `posIdx`, `negIdx` and `prev` are the tracker's counts when `r` started. -/
def track {R : Type} (ctx : Ctx) (r : R) (p posIdx negIdx prev : Nat) (t : Tracker R) :
    Tracker R :=
  if ctx.atomic then t
  else
    let curr := t.attemptsAt p
    if curr > prev ∧ curr - prev = 1 then t
    else
      let t := if p = t.attemptPos then
          { t with positives := t.positives.take posIdx, negatives := t.negatives.take negIdx }
        else t
      let t := if p > t.attemptPos then
          { t with positives := #[], negatives := #[], attemptPos := p }
        else t
      if p = t.attemptPos then
        if ctx.look = .negative then { t with negatives := t.negatives.push r }
        else { t with positives := t.positives.push r }
      else t

/-- Repeats `body` while it matches and consumes, at most `k` times, collecting nodes;
`between` runs before every repetition but the first. -/
def repeatMatch {R : Type} (body : Cursor → StateM (Tracker R) (Matched R))
    (between : Cursor → Cursor) : Nat → Cursor → List (Pair R) →
    StateM (Tracker R) (Cursor × List (Pair R))
  | 0, cur, acc => pure (cur, acc)
  | k + 1, cur, acc => do
      match ← body (between cur) with
      | none => pure (cur, acc)
      | some (cur', ps) =>
          if cur'.idx = cur.idx then pure (cur', acc ++ ps)
          else repeatMatch body between k cur' (acc ++ ps)

variable {R : Type} (g : Grammar R)

mutual
/-- Skips blanks in a normal context; in an atomic context nothing is skipped. -/
def skipBlanks : Nat → Ctx → Cursor → StateM (Tracker R) Cursor
  | 0, _, cur => pure cur
  | n + 1, ctx, cur =>
      if ctx.atomic then pure cur
      else do
        let (cur', _) ← repeatMatch (fun c => matchExpr n { ctx with atomic := true } g.blank c)
          id (cur.rest.length + 1) cur []
        pure cur'

/-- Matches expression `e` at `cur`, with `n` levels of descent left. -/
def matchExpr : Nat → Ctx → PExpr R → Cursor → StateM (Tracker R) (Matched R)
  | 0, _, _, _ => pure none
  | n + 1, ctx, e, cur =>
    match e with
    | .lit s => pure ((cur.eat s).map (·, []))
    | .range lo hi =>
        match cur.rest with
        | ch :: _ => pure (if lo ≤ ch ∧ ch ≤ hi then (cur.advance).map (·, []) else none)
        | [] => pure none
    | .any => pure ((cur.advance).map (·, []))
    | .soi => pure (if cur.pos = 0 then some (cur, []) else none)
    | .eoi => pure (if cur.rest.isEmpty then some (cur, []) else none)
    | .seq a b => do
        match ← matchExpr n ctx a cur with
        | none => pure none
        | some (c1, p1) =>
            let c2 ← skipBlanks n ctx c1
            match ← matchExpr n ctx b c2 with
            | none => pure none
            | some (c3, p2) => pure (some (c3, p1 ++ p2))
    | .alt a b => do
        match ← matchExpr n ctx a cur with
        | some r => pure (some r)
        | none => matchExpr n ctx b cur
    | .opt a => do
        match ← matchExpr n ctx a cur with
        | some r => pure (some r)
        | none => pure (some (cur, []))
    | .star a => do
        let (cur', ps) ← matchStar n ctx a cur
        pure (some (cur', ps))
    | .plus a => do
        match ← matchExpr n ctx a cur with
        | none => pure none
        | some (c1, p1) =>
            let c2 ← skipBlanks n ctx c1
            let (c3, p2) ← matchStar n ctx a c2
            pure (some (c3, p1 ++ p2))
    | .notAhead a => do
        let look := if ctx.look = .negative then Look.positive else Look.negative
        match ← matchExpr n { ctx with look } a cur with
        | some _ => pure none
        | none => pure (some (cur, []))
    | .call r => do
        let p := cur.pos
        let t ← get
        let posIdx := if p = t.attemptPos then t.positives.size else 0
        let negIdx := if p = t.attemptPos then t.negatives.size else 0
        let prev := t.attemptsAt p
        let inner := if g.atomic r then { ctx with atomic := true } else ctx
        match ← matchExpr n inner (g.body r) cur with
        | some (cur', kids) =>
            if ctx.look = .negative then modify (track ctx r p posIdx negIdx prev)
            if ctx.look = .none ∧ !ctx.atomic then
              pure (some (cur', [⟨r, p, cur'.pos, cur.rest.take (cur'.idx - cur.idx), kids⟩]))
            else pure (some (cur', []))
        | none =>
            if ctx.look ≠ .negative then modify (track ctx r p posIdx negIdx prev)
            pure none

/-- Zero or more repetitions of `a`: in a normal context blanks are skipped before every
repetition but the first. -/
def matchStar : Nat → Ctx → PExpr R → Cursor → StateM (Tracker R) (Cursor × List (Pair R))
  | 0, _, _, cur => pure (cur, [])
  | n + 1, ctx, a, cur => do
      match ← matchExpr n ctx a cur with
      | none => pure (cur, [])
      | some (c1, p1) =>
          let between := fun (c : Cursor) => c
          let (c2, p2) ← repeatMatch (fun c => do
              let c' ← skipBlanks n ctx c
              matchExpr n ctx a c') between (c1.rest.length + 1) c1 []
          pure (c2, p1 ++ p2)
end

/-- Drops each element whose key equals its predecessor's. -/
def dedupSorted (key : R → Nat) : List R → List R
  | a :: b :: rest =>
      if key a = key b then dedupSorted key (b :: rest) else a :: dedupSorted key (b :: rest)
  | l => l

/-- Runs rule `start` over `input`: the nodes of a match, or the failure. -/
def Grammar.parse (start : R) (input : List Char) : Except (Failure R) (List (Pair R)) :=
  let fuel := (input.length + 2) * 4096
  match (matchExpr g fuel {} (.call start) { rest := input }).run {} with
  | (some (_, ps), _) => .ok ps
  | (none, t) =>
      let order := fun (a b : R) => decide (g.rank a ≤ g.rank b)
      let clean := fun (rs : Array R) =>
        dedupSorted g.rank (rs.toList.mergeSort order)
      .error ⟨t.attemptPos, clean t.positives, clean t.negatives⟩

end Espalier.Peg
