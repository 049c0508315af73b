import StackScript.Floating.Decimal
import StackScript.Text.Numeric

/-!
# Numbers written as text

An integer is an optional sign and decimal digits. A real is an optional sign and either a word for
an infinity or the NaN, in any case, or decimal digits with an optional point and an optional power
of ten. Blanks around a number are ignored, digits of every script count, and a single underscore
may stand between two digits. Integers of more than `Numeral.maxDigits` digits are refused, so that
reading stays cheap.

## Main definitions

* `Numeral.natOfDigits`: the value of a list of decimal digits.
* `Numeral.integer?`: the integer that a text denotes.
* `Numeral.real?`: the double nearest to the real that a text denotes.
* `Numeral.isBare`: a sign and digits, with nothing else.
-/

namespace StackScript

namespace Numeral

/-- The largest number of digits an integer may have. -/
def maxDigits : Nat := 4300

/-- The blanks beyond ASCII. -/
def isForeignBlank (c : Char) : Bool :=
  let n := c.toNat
  n == 0x85 || n == 0xa0 || n == 0x1680 || (0x2000 ≤ n && n ≤ 0x200a) || n == 0x2028 ||
    n == 0x2029 || n == 0x202f || n == 0x205f || n == 0x3000

/-- A character beyond ASCII as the blank or the digit it stands for. -/
def fold (c : Char) : Char :=
  if c.toNat < 0x80 then c
  else if isForeignBlank c then ' '
  else match decimalDigit? c with
    | some d => Char.ofNat ('0'.toNat + d)
    | none => c

/-- The blanks that may surround a number. -/
def isBlank (c : Char) : Bool :=
  c == ' ' || (9 ≤ c.toNat && c.toNat ≤ 13)

/-- A text without the blanks around it. -/
def trim (text : List Char) : List Char :=
  ((text.dropWhile isBlank).reverse.dropWhile isBlank).reverse

/-- A number without its underscores, each of which must stand between two digits. -/
def joinDigits : (previous : Char) → List Char → Option (List Char)
  | _, [] => some []
  | previous, '_' :: c :: rest =>
    if previous.isDigit && c.isDigit then (joinDigits c rest).map (c :: ·) else none
  | _, ['_'] => none
  | _, c :: rest => (joinDigits c rest).map (c :: ·)

/-- Splits off an optional sign; `true` stands for a minus. -/
def splitSign : List Char → Bool × List Char
  | '+' :: rest => (false, rest)
  | '-' :: rest => (true, rest)
  | text => (false, text)

/-- The value of a list of ASCII digits. -/
def natOfDigits (digits : List Char) : Nat :=
  digits.foldl (fun n c => 10 * n + (c.toNat - '0'.toNat)) 0

/-- The characters of a number, with blanks and underscores resolved. -/
def normalize (text : List Char) : Option (List Char) :=
  -- no digit stands before the first character
  joinDigits ' ' (trim (text.map fold))

/-- The integer that a text denotes. -/
def integer? (text : String) : Option Int := do
  let (negative, digits) := splitSign (← normalize text.toList)
  if digits.isEmpty || !digits.all Char.isDigit || maxDigits < digits.length then none
  else
    let n : Int := natOfDigits digits
    some (if negative then -n else n)

/-- The power of ten at the end of a real: nothing, or a mark, an optional sign and digits. -/
def exponent? : List Char → Option Int
  | [] => some 0
  | mark :: rest =>
    let (negative, digits) := splitSign rest
    if mark.toLower == 'e' && !digits.isEmpty && digits.all Char.isDigit then
      let n : Int := natOfDigits digits
      some (if negative then -n else n)
    else none

/-- The digits after the point, and what follows them. -/
def splitFraction : List Char → List Char × List Char
  | '.' :: rest => (rest.takeWhile Char.isDigit, rest.dropWhile Char.isDigit)
  | rest => ([], rest)

/-- The decimal that unsigned digits, a point and a power of ten denote. -/
def decimal? (text : List Char) : Option Decimal := do
  let whole := text.takeWhile Char.isDigit
  let (fraction, rest) := splitFraction (text.dropWhile Char.isDigit)
  if whole.isEmpty && fraction.isEmpty then none
  else
    let exponent ← exponent? rest
    some ⟨natOfDigits (whole ++ fraction), exponent - fraction.length⟩

/-- The double nearest to the real that a text denotes. -/
def real? (text : String) : Option Double := do
  let (negative, magnitude) := splitSign (← normalize text.toList)
  let word := String.ofList (magnitude.map Char.toLower)
  if word == "inf" || word == "infinity" then some (.infinite negative)
  else if word == "nan" then some .nan
  else
    let decimal ← decimal? magnitude
    some (.ofDecimal negative decimal)

/-- Whether a text is an optional sign and decimal digits of any script, with nothing else. -/
def isBare (text : String) : Bool :=
  let digits := (splitSign text.toList).2
  !digits.isEmpty && digits.all fun c => (decimalDigit? c).isSome

end Numeral

end StackScript
