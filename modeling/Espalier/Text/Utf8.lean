/-!
# UTF-8

Decoding bytes as UTF-8 text. A byte sequence is rejected at its first flaw, which is
described by how many bytes before it are valid and, unless the text simply stops in the
middle of a character, how many bytes the flawed sequence spans:

* a byte that cannot start a character spans one byte;
* a lead byte followed by a byte outside the range allowed after it spans the bytes
  read so far (overlong forms, surrogates and values past `U+10FFFF` are caught by the
  range of the second byte).
-/

namespace Espalier.Text

/-- Where decoding stopped: the length of the valid prefix, and the length of the flawed
sequence, or `none` when the input ends inside a character. -/
structure Utf8Flaw where
  validUpTo : Nat
  errorLen : Option Nat
deriving DecidableEq, Repr

/-- The usual description of a flaw. -/
def Utf8Flaw.describe (f : Utf8Flaw) : String :=
  match f.errorLen with
  | some n => "invalid utf-8 sequence of " ++ toString n ++ " bytes from index " ++ toString f.validUpTo
  | none => "incomplete utf-8 byte sequence from index " ++ toString f.validUpTo

/-- Whether a byte continues a multi-byte character. -/
def isContinuation (b : UInt8) : Bool := 0x80 ≤ b && b ≤ 0xBF

/-- The range allowed for the second byte after lead byte `b` of a three- or four-byte
character. -/
def secondRange (b : UInt8) : UInt8 × UInt8 :=
  if b = 0xE0 then (0xA0, 0xBF)
  else if b = 0xED then (0x80, 0x9F)
  else if b = 0xF0 then (0x90, 0xBF)
  else if b = 0xF4 then (0x80, 0x8F)
  else (0x80, 0xBF)

/-- The payload bits of a continuation byte. -/
def low6 (b : UInt8) : Nat := (b &&& 0x3F).toNat

/-- Decodes bytes, `pos` of them already decoded into `acc` (reversed). -/
def decodeFrom : List UInt8 → Nat → List Char → Except Utf8Flaw (List Char)
  | [], _, acc => .ok acc.reverse
  | b :: rest, pos, acc =>
    if b < 0x80 then decodeFrom rest (pos + 1) (Char.ofNat b.toNat :: acc)
    else if 0xC2 ≤ b ∧ b ≤ 0xDF then
      match rest with
      | [] => .error ⟨pos, none⟩
      | c :: rest' =>
          if isContinuation c then
            decodeFrom rest' (pos + 2) (Char.ofNat ((b &&& 0x1F).toNat * 64 + low6 c) :: acc)
          else .error ⟨pos, some 1⟩
    else if 0xE0 ≤ b ∧ b ≤ 0xEF then
      let (lo, hi) := secondRange b
      match rest with
      | [] => .error ⟨pos, none⟩
      | c :: rest' =>
          if lo ≤ c ∧ c ≤ hi then
            match rest' with
            | [] => .error ⟨pos, none⟩
            | d :: rest'' =>
                if isContinuation d then
                  decodeFrom rest'' (pos + 3)
                    (Char.ofNat ((b &&& 0x0F).toNat * 4096 + low6 c * 64 + low6 d) :: acc)
                else .error ⟨pos, some 2⟩
          else .error ⟨pos, some 1⟩
    else if 0xF0 ≤ b ∧ b ≤ 0xF4 then
      let (lo, hi) := secondRange b
      match rest with
      | [] => .error ⟨pos, none⟩
      | c :: rest' =>
          if lo ≤ c ∧ c ≤ hi then
            match rest' with
            | [] => .error ⟨pos, none⟩
            | d :: rest'' =>
                if isContinuation d then
                  match rest'' with
                  | [] => .error ⟨pos, none⟩
                  | e :: rest''' =>
                      if isContinuation e then
                        decodeFrom rest''' (pos + 4)
                          (Char.ofNat ((b &&& 0x07).toNat * 262144 + low6 c * 4096 + low6 d * 64 + low6 e) :: acc)
                      else .error ⟨pos, some 3⟩
                else .error ⟨pos, some 2⟩
          else .error ⟨pos, some 1⟩
    else .error ⟨pos, some 1⟩

/-- Decodes UTF-8 bytes into text, or describes the first flaw. -/
def decodeUtf8 (bytes : List UInt8) : Except Utf8Flaw String :=
  String.ofList <$> decodeFrom bytes 0 []

/-- The UTF-8 bytes of a text. -/
def encodeUtf8 (s : String) : List UInt8 := s.toUTF8.toList

end Espalier.Text
