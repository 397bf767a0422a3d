/-!
# JSON

JSON values with object members in the order they were written, a compact and an indented
printer, and a reader. An integer written without a fraction or an exponent is kept as a
whole number; every other number (and `-0`) is kept as written, since nothing this library
reads takes a fraction. A string may escape half of a UTF-16 surrogate pair without the
other half: that is still JSON, but it is not a string of characters, and is kept apart.

The indented form puts each array element and object member on a line of its own, two
blanks deeper than its container, and writes empty containers as `[]` and `{}`. Strings
escape the quote, the backslash and the control characters, using the short escapes where
they exist and `\u00XX` with lower-case hex digits otherwise; every other character is
written as it is.
-/

namespace Espalier

/-- A JSON value; object members keep their order. -/
inductive Json where
  | null
  | bool (b : Bool)
  | num (n : Int)
  /-- A number with a fraction or an exponent, or negative zero, as written. -/
  | float (text : String)
  | str (s : String)
  /-- A string with an escaped surrogate that has no partner; each such surrogate is
  U+FFFD in `text`. -/
  | unpaired (text : String)
  | arr (items : List Json)
  | obj (members : List (String × Json))
deriving Inhabited, Repr

namespace Json

/-- The member `key` of an object. -/
def get? (j : Json) (key : String) : Option Json :=
  match j with
  | .obj ms => (ms.find? (·.1 == key)).map (·.2)
  | _ => none

/-- An optional value: `null` when absent. -/
def opt {α : Type} (f : α → Json) : Option α → Json
  | some a => f a
  | none => .null

/-- A hexadecimal digit, lower case. -/
def hexDigit (n : Nat) : Char :=
  if n < 10 then Char.ofNat ('0'.toNat + n) else Char.ofNat ('a'.toNat + n - 10)

/-- The escaped form of one character inside a string. -/
def escapeChar (c : Char) : List Char :=
  if c = '"' then ['\\', '"']
  else if c = '\\' then ['\\', '\\']
  else if c = '\n' then ['\\', 'n']
  else if c = '\r' then ['\\', 'r']
  else if c = '\t' then ['\\', 't']
  else if c = '\x08' then ['\\', 'b']
  else if c = '\x0c' then ['\\', 'f']
  else if c.toNat < 0x20 then ['\\', 'u', '0', '0', hexDigit (c.toNat / 16), hexDigit (c.toNat % 16)]
  else [c]

/-- A string as a JSON string literal. -/
def quote (s : String) : String :=
  String.ofList ('"' :: (s.toList.flatMap escapeChar ++ ['"']))

mutual
/-- The compact text of a value. -/
def render : Json → String
  | .null => "null"
  | .bool true => "true"
  | .bool false => "false"
  | .num n => toString n
  | .float t => t
  | .str s => quote s
  | .unpaired t => quote t
  | .arr items => "[" ++ ",".intercalate (renderList items) ++ "]"
  | .obj ms => "\x7b" ++ ",".intercalate (renderMembers ms) ++ "\x7d"

/-- The compact texts of array elements. -/
def renderList : List Json → List String
  | [] => []
  | j :: js => render j :: renderList js

/-- The compact texts of object members. -/
def renderMembers : List (String × Json) → List String
  | [] => []
  | (k, v) :: ms => (quote k ++ ":" ++ render v) :: renderMembers ms
end

/-- Blanks for an indentation level. -/
def indentOf (level : Nat) : String := String.ofList (List.replicate (2 * level) ' ')

mutual
/-- The indented text of a value at nesting `level`. -/
def pretty (level : Nat) : Json → String
  | .arr [] => "[]"
  | .obj [] => "\x7b\x7d"
  | .arr items =>
      "[\n" ++ ",\n".intercalate (prettyList (level + 1) items) ++ "\n" ++ indentOf level ++ "]"
  | .obj ms =>
      "\x7b\n" ++ ",\n".intercalate (prettyMembers (level + 1) ms) ++ "\n" ++ indentOf level ++
        "\x7d"
  | j => render j

/-- The indented texts of array elements, each on its own line. -/
def prettyList (level : Nat) : List Json → List String
  | [] => []
  | j :: js => (indentOf level ++ pretty level j) :: prettyList level js

/-- The indented texts of object members, each on its own line. -/
def prettyMembers (level : Nat) : List (String × Json) → List String
  | [] => []
  | (k, v) :: ms => (indentOf level ++ quote k ++ ": " ++ pretty level v) :: prettyMembers level ms
end

mutual
/-- How deeply a value nests: scalars are flat, a container is one deeper than its
deepest element. -/
def depth : Json → Nat
  | .arr items => 1 + depthList items
  | .obj ms => 1 + depthMembers ms
  | _ => 0

/-- The greatest depth among array elements. -/
def depthList : List Json → Nat
  | [] => 0
  | j :: js => max j.depth (depthList js)

/-- The greatest depth among object members. -/
def depthMembers : List (String × Json) → Nat
  | [] => 0
  | (_, j) :: ms => max j.depth (depthMembers ms)
end

/-! ## Reading -/

/-- Skips JSON blanks. -/
def skipWs : List Char → List Char
  | c :: cs => if c = ' ' ∨ c = '\n' ∨ c = '\r' ∨ c = '\t' then skipWs cs else c :: cs
  | [] => []

/-- The value of a hexadecimal digit. -/
def hexValue (c : Char) : Option Nat :=
  if '0' ≤ c ∧ c ≤ '9' then some (c.toNat - '0'.toNat)
  else if 'a' ≤ c ∧ c ≤ 'f' then some (c.toNat - 'a'.toNat + 10)
  else if 'A' ≤ c ∧ c ≤ 'F' then some (c.toNat - 'A'.toNat + 10)
  else none

/-- The value of four hexadecimal digits. -/
def hex4 (a b c d : Char) : Option Nat := do
  let va ← hexValue a
  let vb ← hexValue b
  let vc ← hexValue c
  let vd ← hexValue d
  pure (((va * 16 + vb) * 16 + vc) * 16 + vd)

/-- Whether a code unit is the first half of a surrogate pair. -/
def isLeadSurrogate (u : Nat) : Bool := 0xD800 ≤ u && u < 0xDC00

/-- Whether a code unit is the second half of a surrogate pair. -/
def isTrailSurrogate (u : Nat) : Bool := 0xDC00 ≤ u && u < 0xE000

/-- The body of a string literal after its opening quote, characters collected last first;
`paired` stays true while every escaped surrogate has its partner. -/
def readString : List Char → List Char → Bool → Except String (String × Bool × List Char)
  | [], _, _ => .error "EOF while parsing a string"
  | '"' :: rest, acc, paired => .ok (String.ofList acc.reverse, paired, rest)
  | '\\' :: 'u' :: a :: b :: c :: d :: (tail@('\\' :: 'u' :: e :: f :: g :: h :: rest)), acc,
      paired =>
      match hex4 a b c d, hex4 e f g h with
      | some hi, some lo =>
          if isLeadSurrogate hi && isTrailSurrogate lo then
            readString rest (Char.ofNat (0x10000 + (hi - 0xD800) * 0x400 + (lo - 0xDC00)) :: acc)
              paired
          else if isLeadSurrogate hi || isTrailSurrogate hi then
            readString tail ('\uFFFD' :: acc) false
          else readString tail (Char.ofNat hi :: acc) paired
      | some hi, none =>
          if isLeadSurrogate hi then .error "invalid escape"
          else if isTrailSurrogate hi then readString tail ('\uFFFD' :: acc) false
          else readString tail (Char.ofNat hi :: acc) paired
      | none, _ => .error "invalid escape"
  | '\\' :: 'u' :: a :: b :: c :: d :: rest, acc, paired =>
      match hex4 a b c d with
      | some u =>
          if isLeadSurrogate u || isTrailSurrogate u then readString rest ('\uFFFD' :: acc) false
          else readString rest (Char.ofNat u :: acc) paired
      | none => .error "invalid escape"
  | '\\' :: e :: rest, acc, paired =>
      match e with
      | '"' => readString rest ('"' :: acc) paired
      | '\\' => readString rest ('\\' :: acc) paired
      | '/' => readString rest ('/' :: acc) paired
      | 'b' => readString rest ('\x08' :: acc) paired
      | 'f' => readString rest ('\x0c' :: acc) paired
      | 'n' => readString rest ('\n' :: acc) paired
      | 'r' => readString rest ('\r' :: acc) paired
      | 't' => readString rest ('\t' :: acc) paired
      | _ => .error "invalid escape"
  | c :: rest, acc, paired =>
      if c.toNat < 0x20 then .error "control character while parsing a string"
      else readString rest (c :: acc) paired
termination_by cs _ _ => cs.length
decreasing_by all_goals (subst_vars; simp only [List.length_cons]; omega)

/-- A string value: a string of characters, or one with an unpaired surrogate. -/
def stringValue (s : String) (paired : Bool) : Json := if paired then .str s else .unpaired s

/-- A number: an optional minus sign, an integer part without leading zeros, then an
optional fraction and an optional exponent, each with at least one digit. -/
def readNumber (cs : List Char) : Except String (Json × List Char) :=
  let (neg, body) := match cs with
    | '-' :: r => (true, r)
    | r => (false, r)
  let digits := body.takeWhile Char.isDigit
  let afterInt := body.dropWhile Char.isDigit
  if digits.isEmpty then .error "invalid number"
  else if digits.length > 1 && digits.head? == some '0' then .error "invalid number"
  else
    let (fraction, afterFraction) := match afterInt with
      | '.' :: r => (some (r.takeWhile Char.isDigit), r.dropWhile Char.isDigit)
      | r => (none, r)
    let (exponent, rest) := match afterFraction with
      | e :: r =>
          if e = 'e' || e = 'E' then
            let (sign, unsigned) := match r with
              | '+' :: r' => (['+'], r')
              | '-' :: r' => (['-'], r')
              | r' => ([], r')
            let ds := unsigned.takeWhile Char.isDigit
            (some (e :: sign ++ ds, ds), unsigned.dropWhile Char.isDigit)
          else (none, afterFraction)
      | [] => (none, [])
    if fraction.any List.isEmpty || exponent.any (·.2.isEmpty) then .error "invalid number"
    else if fraction.isNone && exponent.isNone && !(neg && digits == ['0']) then
      let v : Int := digits.foldl (fun n c => 10 * n + (c.toNat - '0'.toNat)) 0
      .ok (.num (if neg then -v else v), rest)
    else
      let text := (if neg then "-" else "") ++ String.ofList digits ++
        (match fraction with | some f => "." ++ String.ofList f | none => "") ++
        (match exponent with | some (e, _) => String.ofList e | none => "")
      .ok (.float text, rest)

mutual
/-- Reads one value; `fuel` bounds the nesting. -/
def readValue : Nat → List Char → Except String (Json × List Char)
  | 0, _ => .error "recursion limit exceeded"
  | n + 1, cs =>
    match skipWs cs with
    | 'n' :: 'u' :: 'l' :: 'l' :: rest => .ok (.null, rest)
    | 't' :: 'r' :: 'u' :: 'e' :: rest => .ok (.bool true, rest)
    | 'f' :: 'a' :: 'l' :: 's' :: 'e' :: rest => .ok (.bool false, rest)
    | '"' :: rest => do
        let (s, paired, rest) ← readString rest [] true
        pure (stringValue s paired, rest)
    | '[' :: rest =>
        match skipWs rest with
        | ']' :: rest' => .ok (.arr [], rest')
        | _ => do
            let (items, rest) ← readItems n rest []
            pure (.arr items, rest)
    | '\x7b' :: rest =>
        match skipWs rest with
        | '\x7d' :: rest' => .ok (.obj [], rest')
        | _ => do
            let (ms, rest) ← readMembers n rest []
            pure (.obj ms, rest)
    | cs' => readNumber cs'

/-- Reads array elements up to the closing bracket. -/
def readItems : Nat → List Char → List Json → Except String (List Json × List Char)
  | 0, _, _ => .error "recursion limit exceeded"
  | n + 1, cs, acc => do
      let (v, rest) ← readValue n cs
      match skipWs rest with
      | ',' :: rest' => readItems n rest' (v :: acc)
      | ']' :: rest' => pure ((v :: acc).reverse, rest')
      | _ => throw "expected , or ]"

/-- Reads object members up to the closing brace. -/
def readMembers : Nat → List Char → List (String × Json) →
    Except String (List (String × Json) × List Char)
  | 0, _, _ => .error "recursion limit exceeded"
  | n + 1, cs, acc =>
      match skipWs cs with
      | '"' :: rest => do
          let (k, _, rest) ← readString rest [] true
          match skipWs rest with
          | ':' :: rest => do
              let (v, rest) ← readValue n rest
              match skipWs rest with
              | ',' :: rest' => readMembers n rest' ((k, v) :: acc)
              | '\x7d' :: rest' => pure (((k, v) :: acc).reverse, rest')
              | _ => throw "expected , or \x7d"
          | _ => throw "expected :"
      | _ => .error "key must be a string"
end

/-- Reads a whole text as one JSON value. -/
def parse (s : String) : Except String Json := do
  let cs := s.toList
  let (v, rest) ← readValue (2 * cs.length + 2) cs
  if (skipWs rest).isEmpty then pure v else throw "trailing characters"

end Json

end Espalier
