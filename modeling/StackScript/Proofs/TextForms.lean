import StackScript.ModuleText.Form
import StackScript.Proofs.TextTokens

/-!
# Spelling forms

Pieces of text spell forms if their tokens are those of the forms. Nesting the tokens of some forms
gives back the forms, so that text is read as the forms that its pieces spell, however it is divided
into lines.

## Main definitions

* `Form.tokens`, `Form.allTokens`: the tokens of forms.
* `Spells`: pieces whose tokens are those of some forms.

## Main results

* `formsOf_allTokens`: the tokens of forms nest into these forms.
* `allTokens_of_formsOf`: forms have the tokens that they were nested from.
* `Form.exists_of_allTokens_append`: a list whose tokens start with those of forms starts with them.
* `Spells.formsOf_renderLines`: the text of lines is read as the forms that they spell.
-/

namespace StackScript

namespace Form

mutual

/-- The tokens of a form. -/
def tokens : Form → List TextToken
  | atom name => [.atom name]
  | string data => [.string data]
  | list items => .lparen :: allTokens items ++ [.rparen]

/-- The tokens of forms in order. -/
def allTokens : List Form → List TextToken
  | [] => []
  | form :: rest => tokens form ++ allTokens rest

end

theorem allTokens_append (forms more : List Form) :
    allTokens (forms ++ more) = allTokens forms ++ allTokens more := by
  induction forms with
  | nil => rfl
  | cons form forms ih => rw [List.cons_append, allTokens, allTokens, ih, List.append_assoc]

end Form

open Form

mutual

/-- The tokens of a form nest into the form. -/
theorem nestTokens_tokens : ∀ (form : Form) (outer : List (List Form)) (current : List Form)
    (rest : List TextToken),
    nestTokens outer current (form.tokens ++ rest) = nestTokens outer (form :: current) rest
  | atom name, outer, current, rest => by rfl
  | string data, outer, current, rest => by rfl
  | list items, outer, current, rest => by
    have hitems := nestTokens_allTokens items (current :: outer) [] (.rparen :: rest)
    rw [List.append_nil] at hitems
    rw [tokens, List.cons_append, List.cons_append, List.append_assoc, List.singleton_append,
      nestTokens, hitems, nestTokens, List.reverse_reverse]

theorem nestTokens_allTokens : ∀ (forms : List Form) (outer : List (List Form))
    (current : List Form) (rest : List TextToken),
    nestTokens outer current (allTokens forms ++ rest) =
      nestTokens outer (forms.reverse ++ current) rest
  | [], outer, current, rest => by rfl
  | form :: forms, outer, current, rest => by
    rw [allTokens, List.append_assoc, nestTokens_tokens form, nestTokens_allTokens forms,
      List.reverse_cons, List.append_assoc, List.singleton_append]

end

/-- The tokens of forms nest into these forms. -/
theorem formsOf_allTokens (forms : List Form) : formsOf (allTokens forms) = .ok forms := by
  have h := nestTokens_allTokens forms [] [] []
  rw [List.append_nil, List.append_nil] at h
  rw [formsOf, h, nestTokens, List.isEmpty_nil, if_pos rfl, List.reverse_reverse]

/-- The tokens of open lists: `current` holds the forms of the innermost one, the latest first, and
`outer` those of the lists around it. -/
def openTokens : (outer : List (List Form)) → (current : List Form) → List TextToken
  | [], current => allTokens current.reverse
  | around :: outer, current => openTokens outer around ++ .lparen :: allTokens current.reverse

theorem openTokens_cons (outer : List (List Form)) (form : Form) (current : List Form) :
    openTokens outer (form :: current) = openTokens outer current ++ form.tokens := by
  cases outer <;> simp [openTokens, allTokens_append, allTokens]

theorem allTokens_of_nestTokens {tokens : List TextToken} {outer : List (List Form)}
    {current forms : List Form} (h : nestTokens outer current tokens = .ok forms) :
    allTokens forms = openTokens outer current ++ tokens := by
  -- What is open and what is still to be read make up the text at every step.
  induction tokens generalizing outer current with
  | nil =>
    cases outer with
    | nil =>
      cases h
      exact (List.append_nil _).symm
    | cons around outer => cases h
  | cons token rest ih =>
    cases token with
    | lparen =>
      rw [ih h, openTokens, List.append_assoc]
      rfl
    | rparen =>
      cases outer with
      | nil => cases h
      | cons around outer =>
        rw [ih h, openTokens_cons, openTokens, tokens]
        simp
    | atom name =>
      rw [ih h, openTokens_cons, List.append_assoc]
      rfl
    | string data =>
      rw [ih h, openTokens_cons, List.append_assoc]
      rfl

/-- Forms have the tokens that they were nested from. -/
theorem allTokens_of_formsOf {tokens : List TextToken} {forms : List Form}
    (h : formsOf tokens = .ok forms) : allTokens forms = tokens :=
  allTokens_of_nestTokens h

/-! ### Forms from their tokens -/

namespace Form

section

variable {forms : List Form} {tokens more : List TextToken}

theorem exists_of_allTokens_atom {text : Text}
    (h : allTokens forms ++ .rparen :: more = .atom text :: tokens) :
    ∃ rest, forms = .atom text :: rest ∧ allTokens rest ++ .rparen :: more = tokens := by
  rcases forms with _ | ⟨_ | _ | _, rest⟩
  · cases h
  · cases h
    exact ⟨rest, rfl, rfl⟩
  · cases h
  · cases h

theorem exists_of_allTokens_string {data : Bytes}
    (h : allTokens forms ++ .rparen :: more = .string data :: tokens) :
    ∃ rest, forms = .string data :: rest ∧ allTokens rest ++ .rparen :: more = tokens := by
  rcases forms with _ | ⟨_ | _ | _, rest⟩
  · cases h
  · cases h
  · cases h
    exact ⟨rest, rfl, rfl⟩
  · cases h

theorem exists_of_allTokens_lparen (h : allTokens forms ++ .rparen :: more = .lparen :: tokens) :
    ∃ items rest, forms = .list items :: rest ∧
      allTokens items ++ .rparen :: (allTokens rest ++ .rparen :: more) = tokens := by
  rcases forms with _ | ⟨_ | _ | items, rest⟩
  · cases h
  · cases h
  · cases h
  · refine ⟨items, rest, rfl, ?_⟩
    rw [allTokens, Form.tokens, List.cons_append, List.cons_append, List.cons_append] at h
    cases h
    simp

/-- No form starts with a closing parenthesis. -/
theorem eq_nil_of_allTokens_rparen (h : allTokens forms ++ .rparen :: more = .rparen :: tokens) :
    forms = [] ∧ more = tokens := by
  rcases forms with _ | ⟨_ | _ | _, rest⟩
  · cases h
    exact ⟨rfl, rfl⟩
  · cases h
  · cases h
  · cases h

end

mutual

/-- If the tokens of a list start with those of a form, so does the list. -/
theorem exists_of_allTokens_form {forms : List Form} {more rest : List TextToken} : ∀ first : Form,
    allTokens forms ++ .rparen :: more = first.tokens ++ rest →
    ∃ others, forms = first :: others ∧ allTokens others ++ .rparen :: more = rest
  | atom name, h => exists_of_allTokens_atom h
  | string data, h => exists_of_allTokens_string h
  | list items, h => by
    rw [tokens, List.cons_append, List.cons_append, List.append_assoc] at h
    obtain ⟨found, others, rfl, hitems⟩ := exists_of_allTokens_lparen h
    obtain ⟨extra, rfl, hextra⟩ := exists_of_allTokens_append items hitems
    obtain ⟨rfl, hrest⟩ := eq_nil_of_allTokens_rparen hextra
    exact ⟨others, by rw [List.append_nil], hrest⟩

/-- If the tokens of a list start with those of some forms, so does the list. -/
theorem exists_of_allTokens_append {forms : List Form} {more rest : List TextToken} :
    ∀ first : List Form, allTokens forms ++ .rparen :: more = allTokens first ++ rest →
    ∃ others, forms = first ++ others ∧ allTokens others ++ .rparen :: more = rest
  | [], h => ⟨forms, rfl, h⟩
  | form :: first, h => by
    rw [allTokens, List.append_assoc] at h
    obtain ⟨found, rfl, hfound⟩ := exists_of_allTokens_form form h
    obtain ⟨others, rfl, hothers⟩ := exists_of_allTokens_append first hfound
    exact ⟨others, rfl, hothers⟩

end

end Form

/-! ### Pieces that spell forms -/

/-- Pieces whose tokens are those of some forms. -/
def Spells (pieces : List TextPiece) (forms : List Form) : Prop :=
  List.Forall₂ TextPiece.Reads pieces (allTokens forms)

namespace Spells

variable {pieces more : List TextPiece} {forms others : List Form} {text : Text}

theorem nil : Spells [] [] := List.Forall₂.nil

theorem append (h : Spells pieces forms) (hmore : Spells more others) :
    Spells (pieces ++ more) (forms ++ others) := by
  rw [Spells, allTokens_append]
  exact List.rel_append h hmore

theorem word (htext : IsWord text) (h : Spells pieces forms) :
    Spells (.word text :: pieces) (.atom text :: forms) :=
  .cons (.word htext) h

theorem quote {data : Bytes}
    (htext : ∀ rest, readString (text.points ++ .char '"' :: rest) = .ok (data, rest))
    (h : Spells pieces forms) : Spells (.quote text :: pieces) (.string data :: forms) :=
  .cons (.quote htext) h

theorem parens (h : Spells pieces forms) : Spells (TextPiece.parens pieces) [.list forms] := by
  rw [Spells, allTokens, allTokens, tokens, List.append_nil]
  exact .cons .lparen (List.rel_append h (.cons .rparen .nil))

/-- The text of lines is read as the forms that they spell. -/
theorem formsOf_renderLines {lines : List TextLine}
    (h : Spells (lines.flatMap TextLine.pieces) forms) :
    (tokenizeText (renderLines lines) >>= formsOf) = .ok forms := by
  rw [tokenizeText_renderLines h]
  exact formsOf_allTokens forms

end Spells

/-! ### Words -/

theorem isAtomCharacter_of_isNumberCharacter {c : Char} (h : isNumberCharacter c = true) :
    isAtomCharacter c = true := by
  rcases isNumberCharacter_cases h with h | rfl | rfl | rfl | rfl
  · exact isAtomCharacter_of_class (by decide) h
  all_goals decide

/-- A name with its mark is a word. -/
theorem isWord_name {name : Text} (h : ∀ c ∈ name.points, isAtomPoint c = true) :
    IsWord ("$" ++ name) := by
  have htext : ("$" ++ name : Text).points = .char '$' :: name.points := Text.points_append _ _
  refine ⟨by simp [htext], ?_⟩
  rw [htext]
  exact List.forall_mem_cons.mpr ⟨rfl, h⟩

theorem isWord_typeName (t : ValueType) : IsWord t.name := by
  cases t <;> decide

theorem isWord_const (t : ValueType) : IsWord (t.mnemonic "const") := by
  cases t <;> decide

theorem Numeral.IsMagnitude.isWord_signedText {text : List Char} (h : Numeral.IsMagnitude text)
    (negative : Bool) : IsWord (String.ofList (Numeral.signedText negative text)) := by
  obtain ⟨hcharacters, c, rest, rfl, -⟩ := h
  have hatom : ∀ x ∈ c :: rest, isAtomCharacter x = true := fun x hx =>
    isAtomCharacter_of_isNumberCharacter (hcharacters x hx)
  rw [isWord_plain_iff, String.toList_ofList]
  cases negative with
  | true => exact ⟨by simp [Numeral.signedText], List.forall_mem_cons.mpr ⟨rfl, hatom⟩⟩
  | false => exact ⟨by simp [Numeral.signedText], hatom⟩

theorem isWord_toString (n : Int) : IsWord (toString n) := by
  have hword := (Numeral.isMagnitude_toDigits n.natAbs).isWord_signedText (decide (n < 0))
  rwa [← Numeral.toList_toString, String.ofList_toList] at hword

theorem isWord_floatText (x : Double) : IsWord (floatText x) := by
  match x with
  | .nan => decide
  | .infinite false => decide
  | .infinite true => decide
  | .finite negative m e h =>
    unfold floatText
    dsimp only
    split
    · split
      · cases negative <;> decide
      · exact isWord_toString _
    · exact (Numeral.isMagnitude_render _ _).isWord_signedText negative

end StackScript
