import StackScript.Proofs.ScanCrossing

/-!
# Layout does not matter

The tokens of a source can be written again with other spacing before and between them. If a
separator stands behind each token, the text is scanned to tokens of the same kinds and texts: a
separator continues no token, and comments that end with their lines hide nothing.

## Main definitions

* `Gap`: what stands behind a token.
* `Token.writing`: how a token is written.
* `layOut`: tokens that are written with a gap behind each.

## Main results

* `tokenize_layOut`: the tokens of a source are read from any layout of them.
-/

namespace StackScript

/-- What stands behind a token: a separator, and spacing behind that. -/
structure Gap where
  first : Char
  more : List Char
  isSeparator_first : isSeparator first = true
  isSpacing_more : IsSpacing more

/-- The characters of a gap. -/
def Gap.text (gap : Gap) : List Char := gap.first :: gap.more

theorem Gap.isSpacing_text (gap : Gap) : IsSpacing gap.text :=
  .separator gap.isSeparator_first gap.isSpacing_more

namespace Token

/-- How a token is written: by its text, which stands between quotes for a string. -/
def writing (t : Token) : List Char :=
  if t.kind = .string then '"' :: t.lexeme.toList ++ ['"'] else t.lexeme.toList

/-- The text of a token is one of its kind. -/
structure IsWritten (t : Token) : Prop where
  quoted : t.kind = .string → '"' ∉ t.lexeme.toList
  written : t.kind ≠ .string → t.kind.WrittenAs t.lexeme.toList

theorem IsMatch.isWritten {source : List Char} {t : Token} (h : t.IsMatch source)
    (hkind : t.kind ≠ .eof) : t.IsWritten :=
  ⟨fun hstring => (h.quoted hstring).2.2.2, fun hstring => h.written hstring hkind⟩

/-- A token is crossed where it is written before a separator. -/
theorem IsWritten.crosses {t : Token} (h : t.IsWritten) {c : Char} (hc : isSeparator c = true)
    {s : Scanner} {after : List Char} (hrest : s.rest = t.writing ++ c :: after) :
    ∃ s', s'.rest = c :: after ∧ s.Crosses t.writing [t.toLexeme] s' := by
  unfold writing at hrest ⊢
  by_cases hstring : t.kind = .string
  · rw [if_pos hstring] at hrest ⊢
    rw [List.append_assoc] at hrest
    have hcrosses := Scanner.exists_crosses_string hrest (h.quoted hstring)
    rwa [String.ofList_toList, ← hstring] at hcrosses
  · rw [if_neg hstring] at hrest ⊢
    have hcrosses := Scanner.exists_crosses_written hrest (h.written hstring)
      (maximalBefore_separator hc _ _ _) (List.cons_ne_nil _ _)
    rwa [String.ofList_toList] at hcrosses

end Token

/-- Tokens that are written with a gap behind each. -/
def layOut : List (Token × Gap) → List Char
  | [] => []
  | (t, gap) :: spaced => t.writing ++ gap.text ++ layOut spaced

/-- A layout is crossed, and its lexemes are those of its tokens. -/
theorem crosses_layOut {spaced : List (Token × Gap)}
    (h : ∀ t ∈ spaced.map Prod.fst, t.IsWritten) {s : Scanner} {after : List Char}
    (hrest : s.rest = layOut spaced ++ after) : ∃ s', s'.rest = after ∧
      s.Crosses (layOut spaced) ((spaced.map Prod.fst).map Token.toLexeme) s' := by
  induction spaced generalizing s with
  | nil => exact ⟨s, hrest, .refl s⟩
  | cons entry spaced ih =>
    obtain ⟨t, gap⟩ := entry
    obtain ⟨ht, hspaced⟩ := List.forall_mem_cons.mp h
    -- the gap starts with a separator, which ends the token before it
    rw [layOut, List.append_assoc, List.append_assoc] at hrest
    obtain ⟨s₁, hrest₁, htoken⟩ := ht.crosses gap.isSeparator_first hrest
    obtain ⟨s₂, hrest₂, hgap⟩ := gap.isSpacing_text.crosses hrest₁
    obtain ⟨s', hafter, hcrosses⟩ := ih hspaced hrest₂
    exact ⟨s', hafter, (htoken.trans hgap).trans hcrosses⟩

/-- The tokens of a source are read from any layout of them. -/
theorem tokenize_layOut {source : String} {spaced : List (Token × Gap)} {last : Token}
    (h : tokenize source = .ok (spaced.map Prod.fst ++ [last])) {before : List Char}
    (hbefore : IsSpacing before) :
    ∃ tokens, tokenize (String.ofList (before ++ layOut spaced)) = .ok tokens ∧
      tokens.map Token.toLexeme = (spaced.map Prod.fst ++ [last]).map Token.toLexeme := by
  have htiles := tilesFrom_tokenize h
  obtain ⟨front, last', happend, hend, hfront⟩ := htiles.ended
  obtain ⟨rfl, hlast⟩ := List.append_inj' happend rfl
  obtain rfl := List.singleton_inj.mp hlast
  have hwritten : ∀ t ∈ spaced.map Prod.fst, t.IsWritten := fun t ht =>
    (htiles.matched t (List.mem_append_left _ ht)).isWritten (hfront t ht)
  have hrest : (Scanner.ofSource (String.ofList (before ++ layOut spaced))).rest =
      before ++ (layOut spaced ++ []) := by
    rw [List.append_nil]
    exact String.toList_ofList
  obtain ⟨s₁, hrest₁, hspacing⟩ := hbefore.crosses hrest
  obtain ⟨s₂, hrest₂, hlaid⟩ := crosses_layOut hwritten hrest₁
  have hlexemes := (hspacing.trans hlaid).lexemes
  rw [Scanner.lexemes_of_rest_nil hrest₂] at hlexemes
  obtain ⟨tokens, htokens, heq⟩ := exists_tokens_of_lexemes hlexemes
  refine ⟨tokens, htokens, heq.trans ?_⟩
  rw [List.map_append, List.map_singleton, Token.toLexeme, hend.kind, hend.lexeme]
  rfl

/-- The tokens of a comparison with gaps behind them, one of which has a comment. -/
def spreadTokens : List (Token × Gap) :=
  [(⟨.identifier, "x", 0, 1, 1⟩, ⟨'\t', [' '], rfl, .separator rfl .nil⟩),
    (⟨.lessEqual, "<=", 1, 3, 1⟩, ⟨' ', '/' :: '/' :: ['='] ++ '\n' :: [], rfl,
      .comment (by decide) .nil⟩),
    (⟨.string, "a b", 4, 7, 1⟩, ⟨'\n', [], rfl, .nil⟩)]

/-- A comment of the source is gone and another one is new. -/
theorem tokenize_layOut_spreadTokens :
    tokenize "x<=\"a b\"//1" = .ok (spreadTokens.map Prod.fst ++ [⟨.eof, "", 11, 11, 1⟩]) ∧
      ∃ tokens, tokenize "\r\nx\t <= //=\n\"a b\"\n" = .ok tokens ∧
        tokens.map Token.toLexeme = [(.identifier, "x"), (.lessEqual, "<="), (.string, "a b"),
          (.eof, "")] := by
  have htokens : tokenize "x<=\"a b\"//1" =
      .ok (spreadTokens.map Prod.fst ++ [⟨.eof, "", 11, 11, 1⟩]) := by
    decide +kernel
  have htext : String.ofList (['\r', '\n'] ++ layOut spreadTokens) =
      "\r\nx\t <= //=\n\"a b\"\n" := by
    decide +kernel
  have hbefore : IsSpacing ['\r', '\n'] := .separator rfl (.separator rfl .nil)
  exact ⟨htokens, htext ▸ tokenize_layOut htokens hbefore⟩

end StackScript
