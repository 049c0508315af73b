/-!
# Line ends in files

A text file may end its lines with a line feed, a carriage return, or the two together. Reading a
file turns each of the three into one line feed.

## Main definitions

* `unifyNewlines`: the text with every line end written as a line feed.
-/

namespace StackScript

namespace Newline

/-- Every line end of a text as a line feed. -/
def unify : List Char → List Char
  | [] => []
  | '\r' :: '\n' :: rest => '\n' :: unify rest
  | '\r' :: rest => '\n' :: unify rest
  | c :: rest => c :: unify rest

/-- A text without carriage returns is read as it stands. -/
theorem unify_eq_self {text : List Char} (h : '\r' ∉ text) : unify text = text := by
  fun_induction unify text <;> simp_all

end Newline

/-- The text with every line end written as a line feed. -/
def unifyNewlines (text : String) : String :=
  String.ofList (Newline.unify text.toList)

end StackScript
