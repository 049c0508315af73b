import StackScript.Text.Basic
import StackScript.Text.Printable

/-!
# Quoted text

Text is shown between single quotes, or between double quotes when it holds a single quote and no
double one. Inside, the backslash, the quote in use, the unprintable characters and the lone
surrogates are escaped. Byte strings are shown in the same way with a mark in front, where only the
printable ASCII characters stand for themselves.

## Main definitions

* `hexDigits`: a number in lower-case hexadecimal, padded to a width.
* `quoteFor`: the quote that surrounds a text.
* `quoted`: a text between quotes.
* `quotedBytes`: a byte string between quotes.
* `Text.escaped`: a text in which only the lone surrogates are escaped.
-/

namespace StackScript

/-- A string of bytes. -/
abbrev Bytes := List UInt8

/-- The lower-case hexadecimal digits of a number, padded with zeros to a width. -/
def hexDigits (width n : Nat) : List Char :=
  let digits := Nat.toDigits 16 n
  List.replicate (width - digits.length) '0' ++ digits

/-- The quote around some characters: single, unless a single quote and no double one is among
them. -/
def quoteFor (characters : List Char) : Char :=
  if characters.contains '\'' && !characters.contains '"' then '"' else '\''

namespace Quoted

/-- An unprintable character, by two, four or eight hexadecimal digits as its code point needs. -/
def codePoint (n : Nat) : List Char :=
  if n < 0x100 then '\\' :: 'x' :: hexDigits 2 n
  else if n < 0x10000 then '\\' :: 'u' :: hexDigits 4 n
  else '\\' :: 'U' :: hexDigits 8 n

/-- One character of a text between the quotes `quote`. -/
def character (quote c : Char) : List Char :=
  if c = quote || c = '\\' then ['\\', c]
  else if c = '\n' then ['\\', 'n']
  else if c = '\r' then ['\\', 'r']
  else if c = '\t' then ['\\', 't']
  else if isPrintable c then [c]
  else codePoint c.toNat

/-- One code point of a text between the quotes `quote`. -/
def point (quote : Char) : CodePoint → List Char
  | .char c => character quote c
  | .surrogate half => codePoint (CodePoint.surrogate half).toNat

/-- One byte of a byte string between the quotes `quote`. -/
def byte (quote : Char) (b : UInt8) : List Char :=
  let c := Char.ofNat b.toNat
  if b.toNat < 0x80 then character quote c else codePoint b.toNat

end Quoted

/-- A text between quotes. -/
def quoted (text : Text) : String :=
  let points := text.points
  let quote := quoteFor (points.filterMap CodePoint.char?)
  String.ofList (quote :: points.flatMap (Quoted.point quote) ++ [quote])

/-- A text as it is shown where characters alone can be: the lone surrogates are escaped. -/
def Text.escaped (text : Text) : String :=
  String.ofList <| text.points.flatMap fun
    | .char c => [c]
    | .surrogate half => Quoted.codePoint (CodePoint.surrogate half).toNat

/-- A byte string between quotes, marked by a leading `b`. -/
def quotedBytes (data : Bytes) : String :=
  let quote := quoteFor (data.map fun b => Char.ofNat b.toNat)
  String.ofList ('b' :: quote :: data.flatMap (Quoted.byte quote) ++ [quote])

end StackScript
