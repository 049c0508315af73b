import StackScript.Text.Quoted

/-!
# Text as bytes

Text is stored in UTF-8, which has bytes for every character and none for a lone surrogate.

## Main definitions

* `utf8`: the bytes of a string.
* `CodePoint.utf8?`, `Text.utf8?`: the bytes of a code point and of a text, if there are any.
* `ofUtf8?`: the string of bytes, if there is one.
-/

namespace StackScript

/-- The UTF-8 bytes of a list of characters. -/
def utf8Characters (characters : List Char) : Bytes :=
  characters.flatMap String.utf8EncodeChar

/-- The UTF-8 bytes of a string. -/
def utf8 (text : String) : Bytes :=
  utf8Characters text.toList

/-- The UTF-8 bytes of a code point. A lone surrogate has none. -/
def CodePoint.utf8? : CodePoint → Option Bytes
  | char c => some (String.utf8EncodeChar c)
  | surrogate _ => none

/-- The UTF-8 bytes of a text. One with a lone surrogate has none. -/
def Text.utf8? (text : Text) : Option Bytes :=
  text.string?.map utf8

/-- The string whose UTF-8 bytes are given. -/
def ofUtf8? (bytes : Bytes) : Option String :=
  String.fromUTF8? ⟨bytes.toArray⟩

end StackScript
