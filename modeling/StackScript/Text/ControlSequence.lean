/-!
# Control sequences of terminals

A terminal takes its orders, such as a change of colour, from control sequences in the text it
shows: an escape character and an opening bracket, parameters, intermediate characters, and a final
character that says what to do. Each of these parts is a range of ASCII of its own, so a sequence
can be read in one way only. Text for a reader that is no terminal leaves control sequences out.

## Main definitions

* `isParameter`, `isIntermediate`, `isFinal`: the parts of a control sequence.
* `afterControl?`: the text after a control sequence.
* `plainText`: a text without control sequences.

## Main results

* `dropControls_eq_self`: a text without escape characters is plain.
-/

namespace StackScript

/-- The character that starts a control sequence. -/
def escapeCharacter : Char := '\x1b'

/-- The characters of the parameters: the digits and `:`, `;`, `<`, `=`, `>`, `?`. -/
def isParameter (c : Char) : Bool :=
  '0' ≤ c && c ≤ '?'

/-- The characters between the parameters and the end: the blank and the signs up to the slash. -/
def isIntermediate (c : Char) : Bool :=
  ' ' ≤ c && c ≤ '/'

/-- The characters that end a control sequence: the letters and the signs around them. -/
def isFinal (c : Char) : Bool :=
  '@' ≤ c && c ≤ '~'

/-- The text after a control sequence whose opening bracket has been read, if it is one. -/
def afterControl? (text : List Char) : Option (List Char) :=
  match (text.dropWhile isParameter).dropWhile isIntermediate with
  | c :: after => if isFinal c then some after else none
  | [] => none

theorem length_afterControl?_lt {text after : List Char} (h : afterControl? text = some after) :
    after.length < text.length := by
  have hparameters := (List.dropWhile_suffix isParameter (l := text)).length_le
  have hrest :=
    (List.dropWhile_suffix isIntermediate (l := text.dropWhile isParameter)).length_le
  unfold afterControl? at h
  split at h
  · rename_i c rest heq
    rw [heq, List.length_cons] at hrest
    split at h
    · simp only [Option.some.injEq] at h
      rw [← h]
      omega
    · simp at h
  · simp at h

/-- A list of characters without its control sequences. What is left is not looked at again. -/
def dropControls (text : List Char) : List Char :=
  match text with
  | [] => []
  | [c] => [c]
  | c :: d :: rest =>
    if c = escapeCharacter && d = '[' then
      match h : afterControl? rest with
      | some after =>
        have := length_afterControl?_lt h
        dropControls after
      | none => c :: dropControls (d :: rest)
    else c :: dropControls (d :: rest)
termination_by text.length
decreasing_by all_goals simp only [List.length_cons]; omega

/-- A text without escape characters is plain. -/
theorem dropControls_eq_self {text : List Char} (h : escapeCharacter ∉ text) :
    dropControls text = text := by
  fun_induction dropControls text with
  | case1 => rfl
  | case2 => rfl
  | case3 c d rest hcd => simp_all
  | case4 c d rest hcd => simp_all
  | case5 c d rest _ ih =>
    rw [ih fun hmem => h (List.mem_cons_of_mem c hmem)]

/-- A text without control sequences. -/
def plainText (text : String) : String :=
  String.ofList (dropControls text.toList)

end StackScript
