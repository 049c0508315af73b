import StackScript.Proofs.TextTokens

/-!
# Layout of module text does not matter

Tokens can be written with any separators before, between and after them. A separator is empty, or
it starts with a blank or a line end and goes on with blanks and comments. Only two atoms have to be
kept apart: every other pair of tokens may stand side by side.

## Main definitions

* `IsTextSpacing`: blanks, comments that end with their lines and comments between parentheses.
* `IsTextSeparator`: what may stand between two tokens.
* `TextToken.piece`: how a token is written.
* `TextToken.layOut`, `TextToken.IsLayout`: tokens that are written with a separator behind each.

## Main results

* `tokenizeText_layOut`: tokens are read back from any layout of them.
-/

namespace StackScript

/-! ### Separators -/

/-- Blanks, comments that end with their lines and comments between parentheses. -/
inductive IsTextSpacing : List CodePoint → Prop
  | nil : IsTextSpacing []
  | blank {c : CodePoint} {more : List CodePoint} : c.satisfies isSeparator = true →
      IsTextSpacing more →
      IsTextSpacing (c :: more)
  | lineComment {body more : List CodePoint} : .char '\n' ∉ body → IsTextSpacing more →
      IsTextSpacing (.char ';' :: .char ';' :: (body ++ .char '\n' :: more))
  | blockComment {body more : List CodePoint} : ¬ [.char ';', .char ')'] <:+: body →
      IsTextSpacing more →
      IsTextSpacing (.char '(' :: .char ';' :: (body ++ .char ';' :: .char ')' :: more))

/-- What may stand between two tokens: nothing, or spacing that starts with a blank. -/
inductive IsTextSeparator : List CodePoint → Prop
  | empty : IsTextSeparator []
  | spaced {c : CodePoint} {more : List CodePoint} : c.satisfies isSeparator = true →
      IsTextSpacing more → IsTextSeparator (c :: more)

/-- A comment ends at the first end mark behind its start. -/
theorem afterComment?_append {body : List CodePoint} (h : ¬ [.char ';', .char ')'] <:+: body)
    (rest : List CodePoint) :
    afterComment? (body ++ .char ';' :: .char ')' :: rest) = some rest := by
  induction body with
  | nil => rfl
  | cons c body ih =>
    have hbody : ¬ [.char ';', .char ')'] <:+: body := fun hinfix => h (List.infix_cons hinfix)
    rw [List.cons_append, afterComment?.eq_3, ih hbody]
    -- an end mark here would begin in the body
    rintro more rfl hmore
    cases body with
    | nil => exact absurd (List.head_eq_of_cons_eq hmore) (by decide)
    | cons d body =>
      obtain rfl : d = .char ')' := List.head_eq_of_cons_eq hmore
      exact h ⟨[], body, rfl⟩

section Skipping

variable {total : Nat} {body rest : List CodePoint}

theorem textTokens_lineComment (h : .char '\n' ∉ body) :
    textTokens total (.char ';' :: .char ';' :: (body ++ .char '\n' :: rest)) =
      textTokens total rest := by
  have hbody : ∀ c ∈ .char ';' :: body, (c != .char '\n') = true := by
    refine List.forall_mem_cons.mpr ⟨rfl, fun c hc => bne_iff_ne.mpr ?_⟩
    rintro rfl
    exact h hc
  have hend : ∀ c ∈ (.char '\n' :: rest).head?, (c != .char '\n') = false := by simp
  obtain ⟨-, hdrop⟩ := takeWhile_dropWhile_append hbody hend
  have hpiece : nextPiece total (.char ';') (.char ';' :: (body ++ .char '\n' :: rest)) =
      .ok (none, .char '\n' :: rest) := by
    change Except.ok (none, (.char ';' :: body ++ .char '\n' :: rest).dropWhile
      (· != CodePoint.char '\n')) = _
    rw [hdrop]
  exact (textTokens_of_none hpiece).trans (textTokens_separator rfl)

theorem textTokens_blockComment (h : ¬ [.char ';', .char ')'] <:+: body) :
    textTokens total (.char '(' :: .char ';' :: (body ++ .char ';' :: .char ')' :: rest)) =
      textTokens total rest := by
  refine textTokens_of_none ?_
  unfold nextPiece
  rw [if_neg (by decide), if_neg (by decide), if_pos rfl]
  split
  · rename_i more hmore
    obtain rfl := List.tail_eq_of_cons_eq hmore
    rw [afterComment?_append h]
  · rename_i hne
    exact absurd rfl (hne _)

end Skipping

namespace IsTextSpacing

variable {total : Nat} {spacing : List CodePoint}

/-- There are no tokens in spacing. -/
theorem textTokens_append (h : IsTextSpacing spacing) (rest : List CodePoint) :
    textTokens total (spacing ++ rest) = textTokens total rest := by
  induction h with
  | nil => rfl
  | blank hc _ ih => rw [List.cons_append, textTokens_separator hc, ih]
  | lineComment hbody _ ih =>
    rw [List.cons_append, List.cons_append, List.append_assoc, List.cons_append,
      textTokens_lineComment hbody, ih]
  | blockComment hbody _ ih =>
    rw [List.cons_append, List.cons_append, List.append_assoc, List.cons_append, List.cons_append,
      textTokens_blockComment hbody, ih]

end IsTextSpacing

namespace IsTextSeparator

variable {total : Nat} {separator : List CodePoint}

theorem isTextSpacing (h : IsTextSeparator separator) : IsTextSpacing separator := by
  cases h with
  | empty => exact .nil
  | spaced hc hmore => exact .blank hc hmore

/-- A separator that is not empty ends the token before it. -/
theorem endsBefore (h : IsTextSeparator separator) (hne : separator ≠ []) (piece : TextPiece)
    (rest : List CodePoint) : piece.EndsBefore (separator ++ rest) := by
  cases h with
  | empty => exact absurd rfl hne
  | @spaced c _ hc _ =>
    cases piece with
    | lparen =>
      rintro ⟨rfl⟩
      exact absurd hc (by decide)
    | word =>
      rintro d ⟨rfl⟩
      cases c with
      | char c => simp [isAtomPoint, isAtomCharacter, show isSeparator c = true from hc]
      | surrogate half => cases hc
    | rparen => trivial
    | quote => trivial

end IsTextSeparator

/-! ### Layout -/

namespace TextToken

/-- How a token is written. -/
def piece : TextToken → TextPiece
  | lparen => .lparen
  | rparen => .rparen
  | atom name => .word name
  | string data => .quote (.plain (String.ofList (escapeBytes data)))

/-- Whether a token is an atom. -/
def isAtom : TextToken → Bool
  | atom _ => true
  | _ => false

/-- Tokens that are written with a text behind each. -/
def layOut : List (TextToken × List CodePoint) → List CodePoint
  | [] => []
  | (token, behind) :: spaced => token.piece.render ++ behind ++ layOut spaced

/-- A layout that keeps its tokens apart. -/
structure IsLayout (spaced : List (TextToken × List CodePoint)) : Prop where
  isWord : ∀ name, atom name ∈ spaced.map Prod.fst → IsWord name
  isTextSeparator : ∀ behind ∈ spaced.map Prod.snd, IsTextSeparator behind
  apart : spaced.IsChain fun left right =>
    left.1.isAtom = true → right.1.isAtom = true → left.2 ≠ []

theorem reads_piece {token : TextToken} (h : ∀ name, token = atom name → IsWord name) :
    token.piece.Reads token := by
  cases token with
  | lparen => exact .lparen
  | rparen => exact .rparen
  | atom name => exact .word (h name rfl)
  | string data =>
    refine .quote fun rest => ?_
    rw [Text.points_plain, String.toList_ofList, readString_escapeBytes]

/-- Two tokens may stand side by side if one of them is no atom. -/
theorem endsBefore_piece {token next : TextToken} (hnext : next.piece.Reads next)
    (h : token.isAtom = true → next.isAtom = false) (rest : List CodePoint) :
    token.piece.EndsBefore (next.piece.render ++ rest) := by
  cases token with
  | lparen => exact hnext.head?_render_ne
  | rparen => trivial
  | string => trivial
  | atom name =>
    rintro c hc
    cases next with
    | atom => cases h rfl
    | lparen => cases hc; rfl
    | rparen => cases hc; rfl
    | string => cases hc; rfl

namespace IsLayout

variable {token : TextToken} {behind : List CodePoint} {spaced : List (TextToken × List CodePoint)}

theorem tail (h : IsLayout ((token, behind) :: spaced)) : IsLayout spaced :=
  ⟨fun name hname => h.isWord name (List.mem_cons_of_mem _ hname),
    fun behind hbehind => h.isTextSeparator behind (List.mem_cons_of_mem _ hbehind), h.apart.tail⟩

theorem reads (h : IsLayout ((token, behind) :: spaced)) : token.piece.Reads token :=
  reads_piece fun name htoken => h.isWord name (htoken ▸ List.mem_cons_self)

/-- The first token ends where it has been written. -/
theorem endsBefore (h : IsLayout ((token, behind) :: spaced)) :
    token.piece.EndsBefore (behind ++ layOut spaced) := by
  by_cases hne : behind = []
  · subst hne
    cases spaced with
    | nil => cases token <;> simp [piece, TextPiece.EndsBefore, layOut]
    | cons entry spaced =>
      have hapart := (List.isChain_cons_cons.mp h.apart).1
      rw [List.nil_append, layOut, List.append_assoc]
      refine endsBefore_piece h.tail.reads (fun htoken => ?_) _
      exact Bool.eq_false_iff.mpr fun hnext => hapart htoken hnext rfl
  · exact (h.isTextSeparator behind List.mem_cons_self).endsBefore hne _ _

theorem textTokens_eq {total : Nat} (h : IsLayout spaced) :
    textTokens total (layOut spaced) = .ok (spaced.map Prod.fst) := by
  induction spaced with
  | nil => simp [layOut, textTokens]
  | cons entry spaced ih =>
    obtain ⟨token, behind⟩ := entry
    have hbehind := (h.isTextSeparator behind List.mem_cons_self).isTextSpacing
    rw [layOut, List.append_assoc, h.reads.textTokens_eq h.endsBefore, hbehind.textTokens_append,
      ih h.tail]
    rfl

end IsLayout

end TextToken

/-- Tokens are read back from any layout of them. -/
theorem tokenizeText_layOut {before : List CodePoint} {spaced : List (TextToken × List CodePoint)}
    (hbefore : IsTextSeparator before) (hspaced : TextToken.IsLayout spaced) :
    tokenizeText (.ofPoints (before ++ TextToken.layOut spaced)) =
      .ok (spaced.map Prod.fst) := by
  rw [tokenizeText, Text.points_ofPoints, hbefore.isTextSpacing.textTokens_append,
    hspaced.textTokens_eq]

/-- Tokens with comments behind some of them. Neither of the comments between parentheses ends at
the first semicolon or parenthesis in it. -/
def commentedTokens : List (TextToken × List CodePoint) :=
  [(.lparen, []),
    (.atom (.plain "data"),
      .char ' ' :: .char ';' :: .char ';' :: ([.char '('] ++ .char '\n' :: [])),
    (.atom (.plain "$x"), []), (.string [34, 97, 0, 255], []), (.string [], []),
    (.rparen, .char '\t' :: .char '(' :: .char ';' ::
      ([.char ')', .char ';'] ++ .char ';' :: .char ')' :: []))]

theorem isLayout_commentedTokens : TextToken.IsLayout commentedTokens where
  isWord := by
    intro name hname
    simp only [commentedTokens, List.map_cons, List.map_nil, List.mem_cons, List.not_mem_nil,
      or_false, reduceCtorEq, false_or, TextToken.atom.injEq] at hname
    rcases hname with rfl | rfl
    · decide
    · decide
  isTextSeparator := by
    have hcomment : ¬ [CodePoint.char ';', .char ')'] <:+: [.char ')', .char ';'] := by decide
    simp only [commentedTokens, List.map_cons, List.map_nil, List.forall_mem_cons]
    exact ⟨.empty, .spaced rfl (.lineComment (by decide) .nil), .empty, .empty, .empty,
      .spaced rfl (.blockComment hcomment .nil), nofun⟩
  apart := by
    simp [commentedTokens, TextToken.isAtom]

theorem tokenizeText_layOut_commentedTokens :
    TextToken.IsLayout commentedTokens ∧
      tokenizeText "\r;;\n(data ;;(\n$x\"\\22a\\00\\ff\"\"\")\t(;);;)" =
        .ok [.lparen, .atom (.plain "data"), .atom (.plain "$x"), .string [34, 97, 0, 255],
          .string [], .rparen] := by
  have hbefore : IsTextSeparator
      (.char '\r' :: .char ';' :: .char ';' :: ([] ++ .char '\n' :: [])) :=
    .spaced rfl (.lineComment nofun .nil)
  have htext : Text.ofPoints (.char '\r' :: .char ';' :: .char ';' :: ([] ++ .char '\n' :: []) ++
      TextToken.layOut commentedTokens) = "\r;;\n(data ;;(\n$x\"\\22a\\00\\ff\"\"\")\t(;);;)" := by
    decide +kernel
  exact ⟨isLayout_commentedTokens, htext ▸ tokenizeText_layOut hbefore isLayout_commentedTokens⟩

end StackScript
