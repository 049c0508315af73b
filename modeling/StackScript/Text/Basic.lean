/-!
# Text

A text is a sequence of code points. Most of them are characters, but the code points that UTF-16
sets aside for its surrogate pairs may occur on their own too, and these stand for no character. A
text without them is a string.

## Main definitions

* `CodePoint`: a character or a lone surrogate.
* `Text`: a string, or strings with lone surrogates between them.
* `Text.points`, `Text.ofPoints`: a text as the list of its code points, and back.
* `Text.string?`: the string that a text is, if it is one.

## Main results

* `Text.points_ofPoints`, `Text.ofPoints_points`: a text and its code points determine each other.
-/

namespace StackScript

/-- A code point: a character, or half of a surrogate pair without the other half. -/
inductive CodePoint where
  | char (c : Char)
  /-- The code point at this distance from the first surrogate. -/
  | surrogate (half : Fin 0x800)
  deriving DecidableEq, Repr

namespace CodePoint

instance : Coe Char CodePoint := ⟨char⟩

instance : Inhabited CodePoint := ⟨char default⟩

/-- The number of a code point. -/
def toNat : CodePoint → Nat
  | char c => c.toNat
  | surrogate half => 0xd800 + half

/-- The character that a code point is, if it is one. -/
def char? : CodePoint → Option Char
  | char c => some c
  | surrogate _ => none

/-- Whether a code point is one of some characters. -/
def satisfies (p : Char → Bool) : CodePoint → Bool
  | char c => p c
  | surrogate _ => false

end CodePoint

/-- A text: a string, or a string, a lone surrogate and the text behind them. -/
inductive Text where
  | plain (string : String)
  | broken (before : String) (half : Fin 0x800) (after : Text)
  deriving DecidableEq, Repr

namespace Text

instance : Coe String Text := ⟨plain⟩

instance : Inhabited Text := ⟨plain ""⟩

/-- The string that a text is, if it is one. -/
def string? : Text → Option String
  | plain s => some s
  | broken .. => none

/-- The code points of a text. -/
def points : Text → List CodePoint
  | plain s => s.toList.map .char
  | broken before half after => before.toList.map .char ++ .surrogate half :: after.points

/-- The text of code points, behind the characters of `before` in reverse. -/
def gather (before : List Char) : List CodePoint → Text
  | [] => plain (String.ofList before.reverse)
  | .char c :: rest => gather (c :: before) rest
  | .surrogate half :: rest => broken (String.ofList before.reverse) half (gather [] rest)

/-- The text of some code points. -/
def ofPoints (points : List CodePoint) : Text :=
  gather [] points

/-- The number of code points. -/
def length (text : Text) : Nat := text.points.length

/-- One text after another. -/
def append : Text → Text → Text
  | plain s, plain t => plain (s ++ t)
  | plain s, broken before half after => broken (s ++ before) half after
  | broken before half after, t => broken before half (append after t)

instance : Append Text := ⟨append⟩

/-! ### Texts and their code points -/

theorem points_gather (before : List Char) (points : List CodePoint) :
    (gather before points).points = before.reverse.map .char ++ points := by
  fun_induction gather before points with
  | case1 before => simp [Text.points]
  | case2 before c rest ih => simp [ih]
  | case3 before half rest ih => simp [Text.points, ih]

/-- The code points of a text that is made of them. -/
@[simp] theorem points_ofPoints (points : List CodePoint) : (ofPoints points).points = points := by
  simp [ofPoints, points_gather]

theorem gather_map_char (before characters : List Char) (points : List CodePoint) :
    gather before (characters.map .char ++ points) =
      gather (characters.reverse ++ before) points := by
  induction characters generalizing before with
  | nil => rfl
  | cons c rest ih => simp [gather, ih]

/-- The text of characters is a string. -/
@[simp] theorem ofPoints_map_char (characters : List Char) :
    ofPoints (characters.map .char) = plain (String.ofList characters) := by
  have h := gather_map_char [] characters []
  simpa [ofPoints, gather] using h

/-- A text is made of its code points. -/
@[simp] theorem ofPoints_points (text : Text) : ofPoints text.points = text := by
  induction text with
  | plain s => rw [points, ofPoints_map_char, String.ofList_toList]
  | broken before half after ih =>
    have h := gather_map_char [] before.toList (.surrogate half :: after.points)
    have hafter : gather [] after.points = after := ih
    simpa [ofPoints, points, gather, hafter] using h

theorem points_inj {s t : Text} : s.points = t.points ↔ s = t :=
  ⟨fun h => by rw [← ofPoints_points s, h, ofPoints_points], fun h => h ▸ rfl⟩

@[simp] theorem string?_plain (s : String) : (plain s).string? = some s := rfl

@[simp] theorem points_plain (s : String) : (plain s).points = s.toList.map .char := rfl

@[simp] theorem points_append (s t : Text) : (s ++ t).points = s.points ++ t.points := by
  change (append s t).points = _
  fun_induction append s t with
  | case1 s t => simp
  | case2 s before half after => simp [points]
  | case3 before half after t ih => simp [points, ih]

@[simp] theorem plain_append_plain (s t : String) : plain s ++ plain t = plain (s ++ t) := rfl

end Text

end StackScript
