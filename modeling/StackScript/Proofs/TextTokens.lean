import StackScript.ModuleText.Writer
import StackScript.Proofs.NumeralReading

/-!
# Reading the tokens of written text

Text that has been laid out from pieces is read as the tokens of these pieces. Blanks and line ends
separate tokens and are nothing else, and between two pieces that stand side by side one is a
parenthesis. A string is read as the bytes that have been escaped, or as the bytes of its characters
if none of them is special. A lone surrogate has no bytes, so a string with one cannot be read.

## Main definitions

* `Text.IsString`, `IsUnquoted`: a text without lone surrogates, and one without special characters.
* `IsPlain`: a text that stands for itself between quotes.
* `IsWord`: a text that is read as one atom.
* `TextPiece.Reads`: the token that a piece is read as.

## Main results

* `readString_escapeBytes`, `readString_utf8`: the bytes that a string is read as.
* `tokenizeText_renderLines`: the tokens of lines.
* `tokenizeText_eq_loneSurrogate`: lines with a string that has no bytes have no tokens.
-/

namespace StackScript

/-! ### Strings -/

/-- A text without lone surrogates. -/
def Text.IsString (text : Text) : Prop := text.string?.isSome = true

instance : DecidablePred Text.IsString := fun text =>
  inferInstanceAs (Decidable (text.string?.isSome = true))

/-- A text of one code point, which is no character. -/
def Text.loneSurrogate : Text := .ofPoints [.surrogate 0]

@[simp] theorem Text.isString_plain (s : String) : (Text.plain s).IsString := rfl

/-- A text in which no quote and no backslash stands. -/
def IsUnquoted (text : Text) : Prop :=
  ∀ c ∈ text.points, c ≠ .char '"' ∧ c ≠ .char '\\'

instance : DecidablePred IsUnquoted := fun text =>
  -- The instance is named, since instance search may find one that tries every character there is.
  List.decidableBAll (fun c => c ≠ CodePoint.char '"' ∧ c ≠ CodePoint.char '\\') text.points

/-- A text that stands for itself between quotes: it has no quote, no backslash and no lone
surrogate. -/
structure IsPlain (text : Text) : Prop where
  isUnquoted : IsUnquoted text
  isString : text.IsString

theorem isPlain_iff {text : Text} : IsPlain text ↔ IsUnquoted text ∧ text.IsString :=
  ⟨fun h => ⟨h.isUnquoted, h.isString⟩, fun h => ⟨h.1, h.2⟩⟩

instance : DecidablePred IsPlain := fun _ => decidable_of_iff _ isPlain_iff.symm

theorem isUnquoted_plain_iff {s : String} :
    IsUnquoted (.plain s) ↔ ∀ c ∈ s.toList, c ≠ '"' ∧ c ≠ '\\' := by
  simp [IsUnquoted]

theorem isPlain_plain_iff {s : String} :
    IsPlain (.plain s) ↔ ∀ c ∈ s.toList, c ≠ '"' ∧ c ≠ '\\' := by
  simp [isPlain_iff, isUnquoted_plain_iff]

theorem IsPlain.exists_eq_plain {text : Text} (h : IsPlain text) :
    ∃ s, text = .plain s ∧ ∀ c ∈ s.toList, c ≠ '"' ∧ c ≠ '\\' := by
  cases text with
  | plain s => exact ⟨s, rfl, isPlain_plain_iff.mp h⟩
  | broken => cases h.isString

theorem readString_character {c : Char} (hquote : c ≠ '"') (hbackslash : c ≠ '\\')
    (rest : List CodePoint) : readString (.char c :: rest) = (readString rest).map fun read =>
      (String.utf8EncodeChar c ++ read.1, read.2) := by
  rw [readString]
  · change (readString rest >>= fun read => _) = _
    cases readString rest <;> rfl
  · exact fun h => hquote (CodePoint.char.inj h)
  · exact fun h _ => hbackslash (CodePoint.char.inj h)
  · exact fun _ _ h _ => hbackslash (CodePoint.char.inj h)

/-- Characters that are not special are read as their bytes. -/
theorem readString_utf8 {text : List Char} (h : ∀ c ∈ text, c ≠ '"' ∧ c ≠ '\\')
    (rest : List CodePoint) :
    readString (text.map .char ++ .char '"' :: rest) = .ok (utf8Characters text, rest) := by
  induction text with
  | nil => rfl
  | cons c text ih =>
    obtain ⟨hc, htext⟩ := List.forall_mem_cons.mp h
    rw [List.map_cons, List.cons_append, readString_character hc.1 hc.2, ih htext]
    rfl

/-- A string ends with an error at the first lone surrogate that no quote and no backslash comes
before. -/
theorem readString_surrogate {text : List Char} (h : ∀ c ∈ text, c ≠ '"' ∧ c ≠ '\\')
    (half : Fin 0x800) (rest : List CodePoint) :
    readString (text.map .char ++ .surrogate half :: rest) = .error .loneSurrogate := by
  induction text with
  | nil =>
    rw [List.map_nil, List.nil_append, readString]
    · rfl
    · exact CodePoint.noConfusion
    · rintro ⟨⟩
    · rintro _ _ ⟨⟩
  | cons c text ih =>
    obtain ⟨hc, htext⟩ := List.forall_mem_cons.mp h
    rw [List.map_cons, List.cons_append, readString_character hc.1 hc.2, ih htext]
    rfl

/-- A text that is no string cannot be read as one, whatever follows it. -/
theorem IsUnquoted.readString_eq_loneSurrogate {text : Text} (h : IsUnquoted text)
    (hbroken : ¬ text.IsString) (rest : List CodePoint) :
    readString (text.points ++ rest) = .error .loneSurrogate := by
  cases text with
  | plain s => exact absurd (Text.isString_plain s) hbroken
  | broken before half after =>
    have hbefore : ∀ c ∈ before.toList, c ≠ '"' ∧ c ≠ '\\' := by
      intro c hc
      have hpoint := h (.char c) (by simp [Text.points, hc])
      simpa using hpoint
    rw [Text.points, List.append_assoc]
    exact readString_surrogate hbefore half _

theorem hexDigits_two {n : Nat} (h : n < 256) :
    hexDigits 2 n = [Nat.digitChar (n / 16), Nat.digitChar (n % 16)] := by
  unfold hexDigits
  by_cases hsmall : n < 16
  · rw [Nat.toDigits_of_lt_base hsmall, Nat.div_eq_of_lt hsmall, Nat.mod_eq_of_lt hsmall]
    rfl
  · have hhigh : n / 16 < 16 := by omega
    rw [Nat.toDigits_of_base_le (by decide) (by omega), Nat.toDigits_of_lt_base hhigh]
    rfl

theorem hexDigit?_digitChar : ∀ d < 16, hexDigit? (Nat.digitChar d) = some d := by decide

/-- No digit is the letter of an escape. -/
theorem namedEscape?_digitChar : ∀ d < 16, namedEscape? (.char (Nat.digitChar d)) = none := by
  decide

theorem utf8EncodeChar_ofNat {b : UInt8} (h : b < 0x7f) :
    String.utf8EncodeChar (Char.ofNat b.toNat) = [b] := by
  have hb : b.toNat < 0x7f := UInt8.lt_iff_toNat_lt.mp h
  have hvalid : b.toNat.isValidChar := Or.inl (by omega)
  have hval : (Char.ofNat b.toNat).val.toNat = b.toNat := by
    rw [Char.ofNat, dif_pos hvalid]
    rfl
  unfold String.utf8EncodeChar
  dsimp only
  rw [hval, if_pos (by omega), UInt8.ofNat_toNat]

/-- A byte is read back from the way it is written. -/
theorem readString_escapeByte (b : UInt8) (rest : List CodePoint) :
    readString ((escapeByte b).map .char ++ rest) = (readString rest).map fun read =>
      (b :: read.1, read.2) := by
  have hb : b.toNat < 256 := b.toNat_lt
  unfold escapeByte
  dsimp only
  split
  · -- two hexadecimal digits
    have hhigh : b.toNat / 16 < 16 := by omega
    have hlow : b.toNat % 16 < 16 := by omega
    have hescape : hexEscape? (.char (Nat.digitChar (b.toNat / 16)))
        (.char (Nat.digitChar (b.toNat % 16))) = some b := by
      rw [hexEscape?, CodePoint.char?, CodePoint.char?, Option.bind_some, Option.bind_some,
        hexDigit?_digitChar _ hhigh, hexDigit?_digitChar _ hlow]
      change some (UInt8.ofNat (16 * (b.toNat / 16) + b.toNat % 16)) = some b
      rw [Nat.div_add_mod, UInt8.ofNat_toNat]
    rw [hexDigits_two hb]
    simp only [List.map_cons, List.map_nil, List.cons_append, List.nil_append, readString,
      namedEscape?_digitChar _ hhigh, hescape]
    cases readString rest <;> rfl
  · -- any other byte is a character of its own
    rename_i hplain
    simp only [Bool.or_eq_true, decide_eq_true_eq, not_or] at hplain
    obtain ⟨⟨⟨hquote, hbackslash⟩, -⟩, hlarge⟩ := hplain
    rw [List.map_singleton, List.singleton_append, readString_character hquote hbackslash,
      utf8EncodeChar_ofNat (UInt8.not_le.mp hlarge)]
    rfl

/-- Bytes are read back from the way they are written. -/
theorem readString_escapeBytes (data : Bytes) (rest : List CodePoint) :
    readString ((escapeBytes data).map .char ++ .char '"' :: rest) = .ok (data, rest) := by
  induction data with
  | nil => rfl
  | cons b data ih =>
    rw [escapeBytes, List.flatMap_cons, List.map_append, List.append_assoc, readString_escapeByte,
      ← escapeBytes, ih]
    rfl

/-! ### Single tokens -/

/-- A text that is read as one atom. -/
structure IsWord (text : Text) : Prop where
  ne_nil : text.points ≠ []
  points : ∀ c ∈ text.points, isAtomPoint c = true

theorem isWord_iff {text : Text} :
    IsWord text ↔ text.points ≠ [] ∧ text.points.all isAtomPoint = true :=
  ⟨fun h => ⟨h.ne_nil, List.all_eq_true.mpr h.points⟩,
    fun h => ⟨h.1, List.all_eq_true.mp h.2⟩⟩

instance (text : Text) : Decidable (IsWord text) :=
  decidable_of_iff _ isWord_iff.symm

theorem isWord_plain_iff {s : String} :
    IsWord (.plain s) ↔ s.toList ≠ [] ∧ ∀ c ∈ s.toList, isAtomCharacter c = true := by
  simp [isWord_iff, isAtomPoint]

/-- No character of an atom starts or ends anything else. -/
theorem isAtomCharacter_iff {c : Char} : isAtomCharacter c = true ↔
    isSeparator c = false ∧ c ≠ '(' ∧ c ≠ ')' ∧ c ≠ '"' ∧ c ≠ ';' := by
  simp [isAtomCharacter, and_assoc]

/-- No code point of an atom starts or ends anything else. -/
theorem isAtomPoint_iff {c : CodePoint} : isAtomPoint c = true ↔
    c.satisfies isSeparator = false ∧ c ≠ .char '(' ∧ c ≠ .char ')' ∧ c ≠ .char '"' ∧
      c ≠ .char ';' := by
  cases c with
  | char c => simpa [isAtomPoint, CodePoint.satisfies] using isAtomCharacter_iff
  | surrogate half => simp [isAtomPoint, CodePoint.satisfies]

/-- The characters that end an atom. -/
def delimiters : List Char := [' ', '\t', '\n', '\r', '(', ')', '"', ';']

/-- A class of characters that has no delimiter in it. -/
theorem isAtomCharacter_of_class {p : Char → Bool} (hp : delimiters.any p = false) {c : Char}
    (hc : p c = true) : isAtomCharacter c = true := by
  have hne : ∀ d ∈ delimiters, c ≠ d := by
    rintro d hd rfl
    exact List.any_eq_false.mp hp c hd hc
  simp only [delimiters, List.forall_mem_cons] at hne
  simp [isAtomCharacter, isSeparator, hne]

section Tokens

variable {total : Nat} {c : CodePoint} {rest after : List CodePoint} {t : TextToken}

theorem textTokens_of_none (h : nextPiece total c rest = .ok (none, after)) :
    textTokens total (c :: rest) = textTokens total after := by
  rw [textTokens]
  split
  · simp_all
  · simp_all
  · simp_all

theorem textTokens_of_some (h : nextPiece total c rest = .ok (some t, after)) :
    textTokens total (c :: rest) = (textTokens total after).map (t :: ·) := by
  rw [textTokens]
  split
  · simp_all
  · simp_all
  · simp_all

theorem textTokens_of_error {e : ReadError} (h : nextPiece total c rest = .error e) :
    textTokens total (c :: rest) = .error e := by
  rw [textTokens]
  split
  · simp_all
  · simp_all
  · simp_all

theorem textTokens_separator (h : c.satisfies isSeparator = true) :
    textTokens total (c :: rest) = textTokens total rest :=
  textTokens_of_none (if_pos h)

theorem textTokens_blanks (count : Nat) :
    textTokens total (List.replicate count (.char ' ') ++ rest) = textTokens total rest := by
  induction count with
  | zero => rfl
  | succ count ih =>
    rw [List.replicate_succ, List.cons_append, textTokens_separator rfl, ih]

theorem textTokens_lparen (h : rest.head? ≠ some (.char ';')) :
    textTokens total (.char '(' :: rest) = (textTokens total rest).map (.lparen :: ·) := by
  refine textTokens_of_some ?_
  unfold nextPiece
  rw [if_neg (by decide), if_neg (by decide), if_pos rfl]
  split
  · exact absurd rfl h
  · rfl

theorem textTokens_rparen :
    textTokens total (.char ')' :: rest) = (textTokens total rest).map (.rparen :: ·) :=
  textTokens_of_some rfl

theorem textTokens_word {text : Text} (h : IsWord text)
    (hrest : ∀ c ∈ rest.head?, isAtomPoint c = false) :
    textTokens total (text.points ++ rest) = (textTokens total rest).map (.atom text :: ·) := by
  obtain ⟨c, text', htext⟩ := List.exists_cons_of_ne_nil h.ne_nil
  obtain ⟨hc, htext'⟩ := List.forall_mem_cons.mp (htext ▸ h.points)
  obtain ⟨hseparator, hopen, hclose, hquote, hsemicolon⟩ := isAtomPoint_iff.mp hc
  obtain ⟨htake, hdrop⟩ := takeWhile_dropWhile_append htext' hrest
  rw [htext, List.cons_append]
  refine textTokens_of_some ?_
  unfold nextPiece
  rw [hseparator, if_neg Bool.false_ne_true, if_neg hsemicolon, if_neg hopen, if_neg hclose,
    if_neg hquote, htake, hdrop, ← htext, Text.ofPoints_points]

theorem nextPiece_quote : nextPiece total (.char '"') rest =
    readString rest >>= fun read => .ok (some (.string read.1), read.2) :=
  rfl

theorem textTokens_quote {text : List CodePoint} {data : Bytes}
    (h : readString (text ++ .char '"' :: rest) = .ok (data, rest)) :
    textTokens total (.char '"' :: text ++ .char '"' :: rest) =
      (textTokens total rest).map (.string data :: ·) := by
  rw [List.cons_append]
  refine textTokens_of_some ?_
  rw [nextPiece_quote, h]
  rfl

theorem textTokens_brokenQuote {text : Text} (h : IsUnquoted text)
    (hbroken : ¬ text.IsString) :
    textTokens total ((TextPiece.quote text).render ++ rest) = .error .loneSurrogate := by
  rw [TextPiece.render, List.append_assoc, List.cons_append]
  refine textTokens_of_error ?_
  rw [nextPiece_quote, h.readString_eq_loneSurrogate hbroken]
  rfl

end Tokens

/-! ### Layout -/

/-- The token that a piece is read as. -/
inductive TextPiece.Reads : TextPiece → TextToken → Prop
  | lparen : Reads .lparen .lparen
  | rparen : Reads .rparen .rparen
  | word {text : Text} : IsWord text → Reads (.word text) (.atom text)
  | quote {text : Text} {data : Bytes} :
      (∀ rest, readString (text.points ++ .char '"' :: rest) = .ok (data, rest)) →
      Reads (.quote text) (.string data)

/-- What may follow a piece, so that it ends there. -/
def TextPiece.EndsBefore (piece : TextPiece) (rest : List CodePoint) : Prop :=
  match piece with
  | lparen => rest.head? ≠ some (.char ';')
  | word _ => ∀ c ∈ rest.head?, isAtomPoint c = false
  | _ => True

namespace TextPiece.Reads

variable {total : Nat} {piece next : TextPiece} {token token' : TextToken}
  {rest : List CodePoint}

theorem textTokens_eq (h : piece.Reads token) (hrest : piece.EndsBefore rest) :
    textTokens total (piece.render ++ rest) = (textTokens total rest).map (token :: ·) := by
  cases h with
  | lparen => exact textTokens_lparen hrest
  | rparen => exact textTokens_rparen
  | word hword => exact textTokens_word hword hrest
  | quote hquote =>
    rw [render, List.append_assoc]
    exact textTokens_quote (hquote rest)

/-- No piece starts with a semicolon. -/
theorem head?_render_ne (h : piece.Reads token) :
    (piece.render ++ rest).head? ≠ some (.char ';') := by
  cases h with
  | lparen => exact fun h => by cases h
  | rparen => exact fun h => by cases h
  | quote => exact fun h => by cases h
  | word hword =>
    obtain ⟨c, text, htext⟩ := List.exists_cons_of_ne_nil hword.ne_nil
    obtain ⟨hc, -⟩ := List.forall_mem_cons.mp (htext ▸ hword.points)
    obtain ⟨-, -, -, -, hsemicolon⟩ := isAtomPoint_iff.mp hc
    rw [render, htext]
    exact fun h => hsemicolon (Option.some.inj h)

end TextPiece.Reads

/-- A piece ends before the next, with what separates them. -/
theorem TextPiece.endsBefore_gap (piece next : TextPiece) {rest : List CodePoint}
    (hnext : (next.render ++ rest).head? ≠ some (.char ';')) :
    piece.EndsBefore (piece.gap next ++ (next.render ++ rest)) := by
  cases piece with
  | lparen => exact hnext
  | rparen => trivial
  | quote => trivial
  | word =>
    intro c hc
    cases next <;> cases hc <;> rfl

theorem TextPiece.textTokens_gap {total : Nat} (piece next : TextPiece) (rest : List CodePoint) :
    textTokens total (piece.gap next ++ rest) = textTokens total rest := by
  unfold gap
  split
  · rfl
  · rfl
  · exact textTokens_separator rfl

/-- Pieces start with the first of them. -/
theorem exists_renderPieces_cons (piece : TextPiece) (pieces : List TextPiece) :
    ∃ rest, renderPieces (piece :: pieces) = piece.render ++ rest := by
  cases pieces with
  | nil => exact ⟨[], (List.append_nil _).symm⟩
  | cons next pieces => exact ⟨_, by rw [renderPieces, List.append_assoc]⟩

/-- Pieces with what separates them, up to the end of the line. -/
theorem textTokens_renderPieces {total : Nat} {pieces : List TextPiece} {tokens : List TextToken}
    (h : List.Forall₂ TextPiece.Reads pieces tokens) (rest : List CodePoint) :
    textTokens total (renderPieces pieces ++ .char '\n' :: rest) =
      (textTokens total rest).map (tokens ++ ·) := by
  induction h with
  | nil =>
    rw [renderPieces, List.nil_append, textTokens_separator rfl]
    cases textTokens total rest <;> rfl
  | @cons piece token pieces tokens hpiece hpieces ih =>
    have hmap : (textTokens total rest).map (token :: tokens ++ ·) =
        ((textTokens total rest).map (tokens ++ ·)).map (token :: ·) := by
      cases textTokens total rest <;> rfl
    rw [hmap, ← ih]
    cases hpieces with
    | nil =>
      -- the line ends after the last piece
      refine hpiece.textTokens_eq ?_
      cases hpiece with
      | lparen => exact fun h => by cases h
      | word =>
        intro c hc
        cases hc
        rfl
      | rparen => trivial
      | quote => trivial
    | @cons next _ pieces _ hnext _ =>
      obtain ⟨more, hmore⟩ := exists_renderPieces_cons next pieces
      rw [renderPieces, List.append_assoc, List.append_assoc, hpiece.textTokens_eq,
        TextPiece.textTokens_gap]
      rw [hmore, List.append_assoc]
      exact piece.endsBefore_gap next hnext.head?_render_ne

/-- Pieces with a broken text between quotes among them have no tokens. -/
theorem textTokens_renderPieces_broken {total : Nat} {before after : List TextPiece}
    {tokens : List TextToken} {text : Text} (hbefore : List.Forall₂ TextPiece.Reads before tokens)
    (h : IsUnquoted text) (hbroken : ¬ text.IsString) (rest : List CodePoint) :
    textTokens total (renderPieces (before ++ .quote text :: after) ++ rest) =
      .error .loneSurrogate := by
  induction hbefore with
  | nil =>
    obtain ⟨more, hmore⟩ := exists_renderPieces_cons (.quote text) after
    rw [List.nil_append, hmore, List.append_assoc, textTokens_brokenQuote h hbroken]
  | @cons piece token before tokens hpiece hbefore ih =>
    -- what follows is a piece that is read or the broken text, and neither starts with a semicolon
    obtain ⟨next, pieces, hpieces, hhead⟩ : ∃ next pieces,
        before ++ .quote text :: after = next :: pieces ∧
          ∀ rest, (next.render ++ rest).head? ≠ some (.char ';') := by
      cases hbefore with
      | nil => exact ⟨_, _, rfl, fun rest => by simp [TextPiece.render]⟩
      | cons hnext _ => exact ⟨_, _, rfl, fun rest => hnext.head?_render_ne⟩
    rw [hpieces] at ih
    obtain ⟨more, hmore⟩ := exists_renderPieces_cons next pieces
    rw [List.cons_append, hpieces, renderPieces, List.append_assoc, List.append_assoc,
      hpiece.textTokens_eq, TextPiece.textTokens_gap, ih]
    · rfl
    · rw [hmore, List.append_assoc]
      exact piece.endsBefore_gap next (hhead _)

theorem exists_of_forall₂_append {first second : List TextPiece} {tokens : List TextToken}
    (h : List.Forall₂ TextPiece.Reads (first ++ second) tokens) :
    ∃ before after, tokens = before ++ after ∧ List.Forall₂ TextPiece.Reads first before ∧
      List.Forall₂ TextPiece.Reads second after := by
  induction first generalizing tokens with
  | nil => exact ⟨[], tokens, rfl, .nil, h⟩
  | cons piece first ih =>
    cases h with
    | cons hpiece hrest =>
      obtain ⟨before, after, rfl, hbefore, hafter⟩ := ih hrest
      exact ⟨_ :: before, after, rfl, .cons hpiece hbefore, hafter⟩

/-- Lines are read as the tokens of their pieces. -/
theorem tokenizeText_renderLines {lines : List TextLine} {tokens : List TextToken}
    (h : List.Forall₂ TextPiece.Reads (lines.flatMap TextLine.pieces) tokens) :
    tokenizeText (renderLines lines) = .ok tokens := by
  unfold tokenizeText renderLines
  rw [Text.points_ofPoints]
  generalize Text.length _ = total
  induction lines generalizing tokens with
  | nil =>
    cases h
    rw [List.flatMap_nil, textTokens]
  | cons line lines ih =>
    rw [List.flatMap_cons] at h
    obtain ⟨before, after, rfl, hline, hlines⟩ := exists_of_forall₂_append h
    rw [List.flatMap_cons, TextLine.render, List.append_assoc, List.append_assoc,
      textTokens_blanks, List.singleton_append, textTokens_renderPieces hline, ih hlines]
    rfl

/-- Lines that are read up to a broken text between quotes have no tokens. -/
theorem tokenizeText_eq_loneSurrogate {lines : List TextLine} {before after : List TextPiece}
    {tokens : List TextToken} {text : Text}
    (hlines : lines.flatMap TextLine.pieces = before ++ .quote text :: after)
    (hbefore : List.Forall₂ TextPiece.Reads before tokens) (h : IsUnquoted text)
    (hbroken : ¬ text.IsString) :
    tokenizeText (renderLines lines) = .error .loneSurrogate := by
  unfold tokenizeText renderLines
  rw [Text.points_ofPoints]
  generalize Text.length _ = total
  induction lines generalizing before tokens with
  | nil => simp at hlines
  | cons line lines ih =>
    rw [List.flatMap_cons] at hlines ⊢
    rw [TextLine.render, List.append_assoc, List.append_assoc, textTokens_blanks,
      List.singleton_append]
    rcases List.append_eq_append_iff.mp hlines with ⟨later, rfl, hlater⟩ | ⟨rest, hline, hrest⟩
    · -- the broken text is in a later line
      obtain ⟨_, _, rfl, hfirst, hlater'⟩ := exists_of_forall₂_append hbefore
      rw [textTokens_renderPieces hfirst, ih hlater hlater']
      rfl
    · cases rest with
      | nil =>
        -- it is the first piece of a later line
        rw [List.append_nil] at hline
        have hlater : lines.flatMap TextLine.pieces = [] ++ .quote text :: after := hrest.symm
        rw [hline, textTokens_renderPieces hbefore, ih hlater .nil]
        rfl
      | cons piece rest =>
        cases hrest
        rw [hline, textTokens_renderPieces_broken hbefore h hbroken]

end StackScript
