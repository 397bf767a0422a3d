/-!
# Escaped quoting

A text written between double quotes so that every character in it can be seen. The quote
and the backslash get a backslash in front; the line feed, carriage return, tab and NUL are
written `\n`, `\r`, `\t` and `\0`; a character that does not print is written by its code
point as `\u{hex}`, in lowercase hexadecimal without leading zeros. Every other character
stands for itself.

A character does not print when its general category is a separator other than the space
(`Zs`, `Zl`, `Zp`), a control, format, surrogate or private-use character, or unassigned
(`Cc`, `Cf`, `Cs`, `Co`, `Cn`); nor does a character that extends the grapheme before it
(the combining marks, the variation selectors, the tag characters and the like), since it
would otherwise merge with the quote or the character in front of it; nor do the four Hangul
fillers, letters that show nothing. The table of all three kinds follows Unicode 16.0.
-/

namespace Espalier.Text

/-- The code points that do not print, as ranges in increasing order. An entry is two
hexadecimal numbers: how far the range's first code point is above the last one of the range
before it (above zero for the first range), and how far its last code point is above its
first. -/
def hiddenRangesText : String :=
  "0 1F,60 21,D 0,253 6F,9 1,7 3,8 0,2 0,15 0,E1 6,A7 0,27 1,33 1,4 2D,2 0,2 1,2 1,2 8," ++
  "1C 3,7 10,B A,2 0,2F 14,11 0,66 7,2 5,3 1,2 3,21 1,2 0,1F 1C,5A A,2 D,2C 8,8 2,19 3," ++
  "2 8,2 2,2 6,10 0,1A 4,2 0,C 4,20 10,2B 38,38 0,2 0,5 7,5 0,4 6,B 1,1E 0,3 0,9 1,3 1," ++
  "17 0,8 0,2 2,5 2,2 0,3 5,3 1,3 0,2 C,3 0,4 3,19 4,2 0,7 3,3 1,17 0,8 0,3 0,3 0,3 3," ++
  "4 17,5 0,2 6,B 1,4 0,2 B,2 0,A 0,4 0,17 0,8 0,3 0,6 2,5 7,2 0,3 2,2 E,3 3,D 6,2 7,3 0," ++
  "9 1,3 1,17 0,8 0,3 0,6 2,2 1,2 5,3 1,3 E,3 0,4 3,13 A,2 0,7 2,4 0,5 2,3 0,2 0,3 2,3 2," ++
  "4 2,D 4,2 0,3 2,4 0,4 2,2 14,16 5,4 0,9 0,4 0,18 0,11 2,2 2,5 12,4 1,2 1,3 3,B 6,B 0," ++
  "C 0,4 0,18 0,B 0,6 2,3 0,3 0,3 1,3 0,3 10,3 0,3 3,B 0,4 D,C 0,4 0,2A 1,2 0,3 4,4 0," ++
  "4 0,3 3,4 0,B 3,1B 1,3 0,13 2,19 0,A 0,2 1,8 8,3 5,8 6,B 1,4 B,31 0,3 A,9 7,E 24,3 0," ++
  "2 0,6 0,19 0,2 0,B 0,3 8,2 1,6 0,2 8,B 1,5 1F,19 1,1C 0,2 0,2 0,F 0,25 11,2 4,2 1," ++
  "6 30,9 0,7 0,E 24,2E 3,2 5,2 1,3 1,1A 1,5 2,11 3,E 0,3 1,7 0,10 0,29 0,2 4,2 1,90 1," ++
  "E9 0,5 1,8 0,2 0,5 1,2A 0,5 1,22 0,5 1,8 0,2 0,5 1,10 0,3A 0,5 1,44 4,1E 2,1B 5,57 1," ++
  "7 1,281 0,1D 2,5A 6,13 C,14 2,3 8,13 D,E 0,4 E,35 1,2 6,9 0,3 A,A 2,B 5,B 5,C 4,B 5," ++
  "5A 6,6 1,23 0,2 4,47 9,20 3,5 1,4 3,3 0,7 6,2 2,2B 1,6 A,2D 3,1B 5,C 2,3A 1,3 2,39 0," ++
  "2 8,2 0,3 7,7 C,B 5,B 5,F 55,31 9,5 2,9 0,1E 8,D 1,21 3,3 5,39 0,2 1,4 0,2 C,31 7,3 4," ++
  "10 2,3F 4,2C 1,C A,2 C,2 6,5 0,7 0,4 1,2 4,C1 3F,117 1,7 1,27 1,7 1,9 0,2 0,2 0,2 0," ++
  "20 1,36 0,10 0,F 1,7 0,14 1,4 0,A 10,19 7,30 10,3 1,1C 0,E 2,22 3E,8D 3,29B 15,C 14," ++
  "715 1,21 0,159 2,3 4,2E 0,2 4,2 1,39 6,3 E,18 8,8 0,8 0,8 0,8 0,8 0,8 0,8 0,8 20," ++
  "5F 21,1B 0,5A B,D7 19,11 0,2A 5,11 0,57 3,66 4,2C 0,34 0,2B 0,57 8,31 0,726E 2,38 8," ++
  "15D 13,30 3,2 9,21 1,51 1,7 7,CF 1,3 0,2 0,9 14,11 0,4 0,5 0,1A 1,6 3,B 5,39 7,45 9," ++
  "D 17,E 0,27 7,1A A,2 B,1F 5,31 0,3 3,3 1,3 0,E 0,C 3,8 0,1A 0,2A 5,3 1,3 A,4 0,9 0," ++
  "2 1,B 1,21 0,34 0,2 2,3 1,6 1,2 0,2 17,12 1,9 A,7 1,7 1,7 8,8 0,8 0,3D 3,76 0,3 0,5 2," ++
  "B 5,2BA5 B,18 3,32 2103,16F 1,6B 25,8 B,6 4,2 0,19 0,6 0,2 0,3 0,3 0,7E F,1BE 1,37 6," ++
  "2 1F,11 F,B 15,24 0,14 0,5 3,6 0,88 3,9E 2,1F 2,7 1,7 1,7 1,4 2,8 0,8 C,3 1,D 0,1B 0," ++
  "14 0,3 0,10 1,F 21,7C 4,4 3,2E 2,59 0,E 2,2 2E,2E 82,1E 2,32 F,1C 3,25 8,1F 4,27 9," ++
  "1F 0,26 3,F 29,9F 1,B 5,25 3,25 3,29 7,35 A,D 0,10 0,8 0,3 0,C 0,10 0,8 0,3 2,35 B," ++
  "138 8,17 9,9 17,7 0,2B 0,A 44,7 1,2 0,2D 0,3 2,2 1,18 0,49 7,A 2F,14 0,3 4,22 2,1C 4," ++
  "2 3F,39 3,15 1,30 E,5 0,4 0,1E 9,A 6,A 6,41 1F,26 5,D 8,37 2,1E 1,1C 4,1B 6,5 B,8 4F," ++
  "4A 36,34 C,34 6,2B B,B 5,27 7,19 7,3 CF,20 0,2B 2,2 1,3 F,4 3A,29 7,17 A,A 15,13 3," ++
  "5 25,1D 13,18 8,2 0,37 E,8 3,1F 0,3 1,2 B,32 3,3 1,3 0,5 D,1A 6,B 8,25 4,2 8,13 7," ++
  "24 0,4 A,35 8,2 0,9 3,3 0,11 0,15 A,13 0,1D 2,3 3,7 0,3 3E,8 0,2 0,5 0,10 0,C 5,30 0," ++
  "4 C,B 7,3 0,9 1,3 1,17 0,8 0,3 0,6 2,2 0,2 0,5 1,3 1,3 2,2 B,8 1B,B 0,2 1,2 0,27 0," ++
  "2 0,3 E,2 0,3 2,2 0,4 0,3 26,39 7,3 2,2 0,16 0,2 0,4 1D,31 0,3 5,2 0,3 0,2 1,2 1,5 7," ++
  "B A5,30 0,3 5,5 1,2 1,1C 23,34 7,3 0,2 1,5 A,B 5,E 12,2C 0,2 0,3 7,3 5,B 5,15 1B,1C 4," ++
  "3 3,2 8,18 B8,30 8,2 1,2 63,54 B,9 1,2 1,9 0,3 0,19 0,6 0,3 5,5 0,4 8,B 45,9 1,2B 7," ++
  "5 0,5 1A,2 9,29 5,3 3,9 8,2 5,3 2,2F C,2 1,A C,4A 6,B B5,23 D,B 5,A 0,27 D,2 0,7 9," ++
  "1E 2,21 18,2 6,2 1,2 4A,8 0,3 0,27 14,2 8,B 5,7 0,3 0,26 3,3 0,2 0,2 6,B 135,14 1,5 8," ++
  "10 0,25 7,3 2,18 55,2 E,33 C,39C 65,70 0,6 A,C5 A4B,64 C,431 10,7 18,F9C 4,248 1AB8," ++
  "1F B,4 2,B 6C5,23A 6,20 0,B 3,52 0,B 5,1F 6,2 9,31 6,10 9,B 0,8 0,16 4,14 1AF,3B C5," ++
  "5C 64,4C 4,39 A,E 3F,5 1B,17F9 7,4D7 28,B 22E6,5 0,8 0,3 0,124 E,2 1C,4 1,2 D,5 7," ++
  "18D 903,6C 4,E 2,A 6,B 1,2 1,2 F5F,FB 5,1B5 9B,75 3B,F7 9,28 1,3D 4,4 15,3 6,1F 3," ++
  "3E 14,43 2,2 79,15 B,15 B,58 8,1A 86,56 0,48 0,3 1,2 1,3 1,5 0,D 0,2 0,8 0,42 0,5 1," ++
  "9 0,8 0,1D 0,5 0,6 0,2 2,8 0,155 1,125 1,233 36,5 31,9 0,F 0,8 473,20 5,7 104,3F 91," ++
  "2E 9,8 1,B 3,3 13F,1F 11,2D 3,B 4,2 1CF,1D 3,B D5,1F 1,C 3,2 1DF,8 0,5 0,3 0,10 0," ++
  "C6 1,A 2F,45 6,2 3,B 3,3 310,45 4B,3E C1,5 0,1C 0,3 0,2 1,2 0,B 0,5 0,2 0,2 5,2 3,2 0," ++
  "2 0,2 0,4 0,3 0,2 1,2 0,2 0,2 0,2 0,2 0,3 0,2 1,5 0,8 0,5 0,5 0,2 0,B 0,12 4,4 0,6 0," ++
  "12 33,3 10D,2D 3,65 B,10 1,10 0,10 0,26 9,AF 37,1E C,2D 3,A 6,3 D,7 99,3D9 3,12 2,E 2," ++
  "78 3,60 5,D 3,2 E,D 3,39 7,B 5,29 7,1F 1,D 3,3 3D,155 B,F 1,E 2,B 4,39 6,10 1,C 5,A 6," ++
  "94 0,67 405,A6E1 1F,103B 5,DF 1,1683 D,1D32 E,26F 9A1,21F 5E1,134C 4,1061 DDC4F"

/-- The value of a hexadecimal numeral in capitals; a character that is not a digit counts as
zero. -/
def hexNumeral (s : String) : Nat :=
  s.foldl (fun n c => n * 16 + if c ≤ '9' then c.toNat - '0'.toNat else c.toNat - 'A'.toNat + 10)
    0

/-- The ranges of `hiddenRangesText`, each as its first and last code point. -/
def hiddenRanges : Array (Nat × Nat) :=
  let step := fun (acc : Array (Nat × Nat) × Nat) (entry : String) =>
    match entry.splitOn " " with
    | [gap, width] =>
        let first := acc.2 + hexNumeral gap
        let last := first + hexNumeral width
        (acc.1.push (first, last), last)
    | _ => acc
  ((hiddenRangesText.splitOn ",").foldl step (#[], 0)).1

/-- Whether `n` lies in one of the ranges at positions `lo` to `hi - 1` of `table`, which are
disjoint and in increasing order: halving the positions, a range above `n` leaves those
before it and a range below `n` those after it. -/
def inRanges (table : Array (Nat × Nat)) (n lo hi : Nat) : Bool :=
  if lo < hi then
    let mid := (lo + hi) / 2
    let r := table.getD mid (1, 0)
    if n < r.1 then inRanges table n lo mid
    else if r.2 < n then inRanges table n (mid + 1) hi
    else true
  else false
termination_by hi - lo
decreasing_by all_goals omega

/-- Whether a character does not print, by the table above. -/
def isHidden (c : Char) : Bool :=
  inRanges hiddenRanges c.toNat 0 hiddenRanges.size

/-- A character written by its code point. -/
def codePoint (c : Char) : String :=
  "\\u" ++ "\x7b" ++ String.ofList (Nat.toDigits 16 c.toNat) ++ "\x7d"

/-- The escaped form of one character. -/
def escapeChar (c : Char) : String :=
  if c = '"' then "\\\"" else if c = '\\' then "\\\\" else if c = '\n' then "\\n"
  else if c = '\t' then "\\t" else if c = '\r' then "\\r" else if c = '\x00' then "\\0"
  else if isHidden c then codePoint c
  else c.toString

/-- A text between double quotes, every character escaped as it needs. -/
def quoteEscaped (t : String) : String :=
  "\"" ++ String.join (t.toList.map escapeChar) ++ "\""

end Espalier.Text
