import Espalier.Session

/-!
# Operators

Binary and unary operators on values. Integers are signed 64-bit words with checked
arithmetic: a result outside the range is an error naming the operator. Two steps are not
checked by the operators themselves but by the host, as a debug build does: the product
`b * q` inside `%` and the byte length of a repeated string. Past their limits the host
panics, and the request stops with the panic's message (`hostPanic`). Division rounds
towards negative infinity, for `/` as for `//`, and the remainder has the sign of the
divisor. Booleans count as the integers 0 and 1, except that only an integer repeats a
string.

Comparisons order two strings by their characters and otherwise two integers; `==` and
`!=` are `Value.eqv`.

Errors of binary operators carry no location; the evaluator adds the operator's.
-/

namespace Espalier

/-- The quotient rounded towards negative infinity. -/
def floorDiv (a b : Int) : Except Error Int :=
  if b = 0 then .error (.plain .evalError "integer division by zero")
  else if a = intMin ∧ b = -1 then .error (.plain .evalError "integer overflow in division")
  else .ok (Int.fdiv a b)

/-- The error for operands an operator does not take. -/
def unsupportedOperands (op : BinOp) (l r : Value) : Error :=
  .plain .typeError ("unsupported operand types for " ++ op.symbol ++ ": '" ++ l.typeName ++
    "' and '" ++ r.typeName ++ "'")

/-- The error for a result outside the integer range. -/
def overflowIn (op : BinOp) : Error := .plain .evalError ("integer overflow in '" ++ op.symbol ++ "'")

/-- A panic of the host: the request stops, with the panic's message. -/
def hostPanic (msg : String) : Error := .plain .internalError msg

/-- A string repeated `n` times; none for `n ≤ 0`. The empty string is its own repetition
for every count, however large, so it is answered without building the copies. -/
def repeatString (s : String) (n : Int) : String :=
  if s.isEmpty then "" else String.join (List.replicate n.toNat s)

/-- A string repeated `n` times, as the host builds it: the copies' byte length must fit in
a signed word, or the allocation panics. -/
def repeatChecked (s : String) (n : Int) : Except Error String :=
  if intMax < s.utf8ByteSize * n.toNat then .error (hostPanic "capacity overflow")
  else .ok (repeatString s n)

/-- Integer arithmetic with overflow checks. -/
def intArith (op : BinOp) (l r : Value) (a b : Int) : Except Error Value :=
  let checked (n : Int) : Except Error Value :=
    match checkedInt? n with
    | some v => .ok (.int v)
    | none => .error (overflowIn op)
  match op with
  | .add => checked (a + b)
  | .sub => checked (a - b)
  | .mul => checked (a * b)
  | .div | .floorDiv => Value.int <$> floorDiv a b
  | .mod => do
    let q ← floorDiv a b
    -- the product is not checked by the operator: outside the word range the host panics
    match checkedInt? (b * q) with
    | some p => .ok (.int (a - p))
    | none => .error (hostPanic "attempt to multiply with overflow")
  | _ => .error (unsupportedOperands op l r)

namespace Run

/-- Applies a binary operator other than `and` and `or` to two evaluated operands. -/
def binary (op : BinOp) (l r : Value) : Run Value := do
  match op with
  | .eq => return .bool (← eqv l r)
  | .notEq => return .bool !(← eqv l r)
  | .lt | .ltE | .gt | .gtE =>
      let ord : Ordering ← match l, r with
        | .str a, .str b => pure (compare a b)
        | _, _ =>
          match l.asInt?, r.asInt? with
          | some a, some b => pure (compare a b)
          | _, _ => throw (unsupportedOperands op l r)
      return .bool (match op with
        | .lt => ord == .lt
        | .ltE => ord != .gt
        | .gt => ord == .gt
        | _ => ord != .lt)
  | _ =>
    match op, l, r with
    | .add, .str a, .str b => return .str (a ++ b)
    | .add, .list a, .list b => newList ((← listItems a).toList ++ (← listItems b).toList)
    | .add, .tuple a, .tuple b => return .tuple (a ++ b)
    | .mul, .str s, .int n =>
      match repeatChecked s n with
      | .ok t => return .str t
      | .error e => throw e
    | .mul, .int n, .str s =>
      match repeatChecked s n with
      | .ok t => return .str t
      | .error e => throw e
    | _, _, _ =>
      match l.asInt?, r.asInt? with
      | some a, some b =>
          match intArith op l r a b with
          | .ok v => pure v
          | .error e => throw e
      | _, _ => throw (unsupportedOperands op l r)

end Run

end Espalier
