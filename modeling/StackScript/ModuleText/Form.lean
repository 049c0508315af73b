import StackScript.ModuleText.Token

/-!
# Nested forms

Parentheses nest the tokens of a text into forms: an atom, a string, or a list of forms.

## Main definitions

* `Form`: the forms.
* `formsOf`: the forms that tokens nest into.
* `Form.describe`: a form as it appears in a message.
-/

namespace StackScript

/-- A form of module text. -/
inductive Form where
  | atom (name : Text)
  | string (data : Bytes)
  | list (items : List Form)

namespace Form

instance : Inhabited Form := ⟨list []⟩

/-- The word that a list of forms starts with. -/
def headOf? : List Form → Option Text
  | atom name :: _ => some name
  | _ => none

/-- The word that a form starts with. -/
def head? : Form → Option Text
  | list items => headOf? items
  | _ => none

mutual

/-- A form as it appears in a message. -/
def describe : Form → String
  | atom name => quoted name
  | string data => "WatString(data=" ++ quotedBytes data ++ ")"
  | list items => "[" ++ ", ".intercalate (describeAll items) ++ "]"

/-- Forms as they appear in a message. -/
def describeAll : List Form → List String
  | [] => []
  | form :: rest => describe form :: describeAll rest

end

end Form

/-- Nests tokens: `current` holds the forms of the innermost open list, the latest first, and
`outer` those of the lists around it. -/
def nestTokens (outer : List (List Form)) (current : List Form) :
    List TextToken → Except ReadError (List Form)
  | [] => if outer.isEmpty then .ok current.reverse else .error .unbalancedOpen
  | .lparen :: rest => nestTokens (current :: outer) [] rest
  | .rparen :: rest =>
    match outer with
    | [] => .error .unbalancedClose
    | around :: outer => nestTokens outer (.list current.reverse :: around) rest
  | .atom name :: rest => nestTokens outer (.atom name :: current) rest
  | .string data :: rest => nestTokens outer (.string data :: current) rest

/-- The forms that tokens nest into. -/
def formsOf (tokens : List TextToken) : Except ReadError (List Form) :=
  nestTokens [] [] tokens

end StackScript
