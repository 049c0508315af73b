import Mathlib.Data.List.Chain
import StackScript.Proofs.LongestMatch

/-!
# Scanning tiles the source

The tokens of a source stand in it one after another, with only separators and comments between
them, and each is the longest match at its place. No other list of tokens does: what stands at a
place is layout or the start of one token, and the length of both is determined by what follows.

Places are counted in characters. The writing of a string includes its quotes, its span does not.

## Main definitions

* `Layout`: only separators and comments stand between some characters and a rest of them.
* `Token.IsMatch`: a token stands in a source at its span and is not continued there.
* `IsTiling`: tokens that make up a source.
* `TilesFrom`: tokens that make up a source from a place on.

## Main results

* `Layout.unique`, `Token.IsMatch.unique`: layout and tokens are determined by where they start.
* `TilesFrom.unique`: so are the tokens of a source.
* `Scanner.tilesFrom_run`: the tokens that are scanned make up what was left of the source.
* `isTiling_iff_of_tokenize`: the tokens of a source are the only ones that make it up.
-/

namespace StackScript

/-! ### Layout -/

/-- Only separators and comments stand between some characters and a rest of them. A comment runs up
to the end of its line or of the source. -/
inductive Layout : List Char → List Char → Prop
  | done (rest : List Char) : Layout rest rest
  | separator {c : Char} {characters rest : List Char} : isSeparator c = true →
      Layout characters rest → Layout (c :: characters) rest
  | comment {text characters rest : List Char} : '\n' ∉ text →
      (∀ c ∈ characters.head?, c = '\n') → Layout characters rest →
      Layout ('/' :: '/' :: (text ++ characters)) rest

/-- A separator or a comment starts here. -/
def StartsLayout : List Char → Prop
  | '/' :: '/' :: _ => True
  | c :: _ => isSeparator c = true
  | [] => False

theorem StartsLayout.append {characters : List Char} (h : StartsLayout characters)
    (more : List Char) : StartsLayout (characters ++ more) := by
  unfold StartsLayout at h
  split at h
  · trivial
  · unfold StartsLayout
    split
    · trivial
    · rename_i heq
      cases heq
      exact h
    · rename_i heq
      cases heq
  · cases h

namespace Layout

theorem trans {characters between rest : List Char} (h : Layout characters between)
    (h' : Layout between rest) : Layout characters rest := by
  induction h with
  | done => exact h'
  | separator hc _ ih => exact .separator hc (ih h')
  | comment htext hend _ ih => exact .comment htext hend (ih h')

theorem startsLayout_of_separator {c : Char} (h : isSeparator c = true) (rest : List Char) :
    StartsLayout (c :: rest) := by
  unfold StartsLayout
  split
  · trivial
  · rename_i heq
    cases heq
    exact h
  · rename_i heq
    cases heq

theorem dropWhile_isSeparator (characters : List Char) :
    Layout characters (characters.dropWhile isSeparator) := by
  induction characters with
  | nil => exact .done _
  | cons c rest ih =>
    by_cases hc : isSeparator c = true
    · rw [List.dropWhile_cons_of_pos hc]
      exact .separator hc ih
    · rw [List.dropWhile_cons_of_neg hc]
      exact .done _

/-- Layout that is followed by none is determined by where it starts. -/
theorem unique {characters rest rest' : List Char} (h : Layout characters rest)
    (h' : Layout characters rest') (hrest : ¬ StartsLayout rest) (hrest' : ¬ StartsLayout rest') :
    rest = rest' := by
  have hslash : isSeparator '/' = false := rfl
  induction h with
  | done =>
    cases h' with
    | done => rfl
    | separator hc _ => exact absurd (startsLayout_of_separator hc _) hrest
    | comment => exact absurd trivial hrest
  | @separator c more rest hc hmore ih =>
    cases h' with
    | done => exact absurd (startsLayout_of_separator hc _) hrest'
    | separator _ hmore' => exact ih hmore' hrest
    | comment => exact absurd hc (Bool.eq_false_iff.mp hslash)
  | @comment text more rest htext hend hmore ih =>
    generalize heq : '/' :: '/' :: (text ++ more) = all at h'
    cases h' with
    | done =>
      rw [← heq] at hrest'
      exact absurd trivial hrest'
    | separator hc =>
      cases heq
      exact absurd hc (Bool.eq_false_iff.mp hslash)
    | @comment text' more' rest' htext' hend' hmore' =>
      -- the two comments end at the same line end
      have hsame : text ++ more = text' ++ more' :=
        List.tail_eq_of_cons_eq (List.tail_eq_of_cons_eq heq)
      have hinside {text : List Char} (h : '\n' ∉ text) : ∀ c ∈ text, (c != '\n') = true :=
        fun c hc => bne_iff_ne.mpr (ne_of_mem_of_not_mem hc h)
      have hstop {more : List Char} (h : ∀ c ∈ more.head?, c = '\n') :
          ∀ c ∈ more.head?, (c != '\n') = false := fun c hc => by simp [h c hc]
      have hmore_eq : more = more' := by
        rw [← (takeWhile_dropWhile_append (hinside htext) (hstop hend)).2, hsame,
          (takeWhile_dropWhile_append (hinside htext') (hstop hend')).2]
      rw [← hmore_eq] at hmore'
      exact ih hmore' hrest

end Layout

/-! ### Tokens -/

namespace Token

/-- Where the writing of a token starts, for a string at its opening quote. -/
def outerStart (t : Token) : Nat :=
  if t.kind = .string then t.span.start - 1 else t.span.start

/-- Where the writing of a token stops, for a string behind its closing quote. -/
def outerStop (t : Token) : Nat :=
  if t.kind = .string then t.span.stop + 1 else t.span.stop

/-- The places between which a token is written. -/
def extent (t : Token) : Nat × Nat :=
  (t.outerStart, t.outerStop)

/-- A token stands in a source at its span, as a token of its kind that is not continued there, and
its line is that of its last character. -/
structure IsMatch (source : List Char) (t : Token) : Prop where
  start_le : t.span.start ≤ t.span.stop
  stop_le : t.span.stop ≤ source.length
  lexeme_eq : t.lexeme.toList = (source.drop t.span.start).take (t.span.stop - t.span.start)
  quoted : t.kind = .string → 0 < t.span.start ∧ source[t.span.start - 1]? = some '"' ∧
    source[t.span.stop]? = some '"' ∧ '"' ∉ t.lexeme.toList
  written : t.kind ≠ .string → t.kind ≠ .eof → t.kind.WrittenAs t.lexeme.toList
  maximal : t.kind.MaximalBefore t.lexeme.toList (source.drop t.span.stop)
  line_eq : t.line = ((1 + (source.take t.span.stop).count '\n' : Nat) : Int)

/-- A token that marks the end of a source: an empty one behind the last character. -/
structure IsEnd (source : List Char) (t : Token) : Prop where
  kind : t.kind = .eof
  lexeme : t.lexeme = ""
  start : t.span.start = source.length
  stop : t.span.stop = source.length

theorem IsEnd.outerStart_eq {source : List Char} {t : Token} (h : t.IsEnd source) :
    t.outerStart = source.length := by
  rw [outerStart, if_neg (by rw [h.kind]; decide), h.start]

end Token

/-- Only layout stands between the two extents. -/
def LayoutBetween (source : List Char) (before after : Nat × Nat) : Prop :=
  Layout (source.drop before.2) (source.drop after.1)

/-- Tokens make up a source. -/
structure IsTiling (source : String) (tokens : List Token) : Prop where
  /-- The last token marks the end, and no other does. -/
  ended : ∃ front last, tokens = front ++ [last] ∧ last.IsEnd source.toList ∧
    ∀ t ∈ front, t.kind ≠ .eof
  /-- Tokens stand one after another and do not overlap. -/
  ordered : tokens.Pairwise fun t u => t.outerStop ≤ u.outerStart
  /-- Each is the longest match at its place. -/
  matched : ∀ t ∈ tokens, t.IsMatch source.toList
  /-- Only layout stands before the first token and between one token and the next. -/
  layout : ((0, 0) :: tokens.map Token.extent).IsChain (LayoutBetween source.toList)

/-! ### Tokens are determined by where they start -/

theorem TokenKind.WrittenAs.kind_ne {kind : TokenKind} {text : List Char}
    (h : kind.WrittenAs text) : kind ≠ .string ∧ kind ≠ .eof := by
  cases h with
  | fixed hspelling hkind =>
    refine ⟨?_, hkind⟩
    rintro rfl
    cases hspelling
  | identifier => decide
  | whole => decide
  | fraction => decide

theorem TokenKind.WrittenAs.text_ne_nil {kind : TokenKind} {text : List Char}
    (h : kind.WrittenAs text) : text ≠ [] := by
  cases h with
  | @fixed _ word hspelling hkind =>
    have hall : ∀ kind ∈ TokenKind.all, kind ≠ .eof → kind.spelling? ≠ some "" := by decide
    have hmem : kind ∈ TokenKind.all := by cases kind <;> decide
    intro hnil
    rw [String.toList_eq_nil_iff.mp hnil] at hspelling
    exact hall kind hmem hkind hspelling
  | identifier => exact List.cons_ne_nil _ _
  | whole hne => exact hne
  | fraction => simp

/-- What is recognized where the writing of a token starts, if that is followed by `after`. -/
def Token.recognized (t : Token) (after : List Char) : Recognized :=
  if t.kind = .string then .string t.lexeme.toList after
  else .token t.kind t.lexeme.toList after

/-- Where layout starts, no token does. -/
theorem recognized_ne_of_startsLayout {c : Char} {rest : List Char}
    (h : StartsLayout (c :: rest)) (t : Token) (after : List Char) :
    recognize c rest ≠ t.recognized after := by
  -- layout starts a comment, or with a character that starts nothing
  have hother : (∃ text more, recognize c rest = .comment text more) ∨
      recognize c rest = .unexpectedCharacter := by
    unfold StartsLayout at h
    split at h
    · rename_i heq
      cases heq
      exact .inl ⟨_, _, rfl⟩
    · rename_i heq
      cases heq
      simp only [isSeparator, Bool.or_eq_true, beq_iff_eq] at h
      rcases h with ((rfl | rfl) | rfl) | rfl <;> exact .inr rfl
    · cases h
  unfold Token.recognized
  rcases hother with ⟨text, more, hcomment⟩ | hunexpected
  · rw [hcomment]
    split <;> exact Recognized.noConfusion
  · rw [hunexpected]
    split <;> exact Recognized.noConfusion

namespace Token.IsMatch

variable {source : List Char} {t u : Token}

/-- The lexeme of a token and what follows it. -/
theorem drop_start (h : t.IsMatch source) :
    source.drop t.span.start = t.lexeme.toList ++ source.drop t.span.stop := by
  have hsplit := List.take_append_drop (t.span.stop - t.span.start) (source.drop t.span.start)
  rw [← h.lexeme_eq, List.drop_drop, Nat.add_sub_cancel' h.start_le] at hsplit
  exact hsplit.symm

theorem length_lexeme (h : t.IsMatch source) :
    t.span.start + t.lexeme.toList.length = t.span.stop := by
  have hle := h.start_le
  have hstop := h.stop_le
  rw [h.lexeme_eq, List.length_take, List.length_drop]
  omega

/-- At its start a token is recognized, with a blank behind the source. -/
theorem recognize_eq (h : t.IsMatch source) (hkind : t.kind ≠ .eof) :
    ∃ c rest, source.drop t.outerStart = c :: rest ∧
      recognize c (rest ++ [' ']) = t.recognized (source.drop t.outerStop ++ [' ']) := by
  by_cases hstring : t.kind = .string
  · -- a string is recognized from its opening quote on
    obtain ⟨hpos, hopening, hclosing, htext⟩ := h.quoted hstring
    obtain ⟨hlt, hopening⟩ := List.getElem?_eq_some_iff.mp hopening
    obtain ⟨hlt', hclosing⟩ := List.getElem?_eq_some_iff.mp hclosing
    have hdrop := List.drop_eq_getElem_cons hlt
    have hdrop' := List.drop_eq_getElem_cons hlt'
    rw [hopening, Nat.sub_add_cancel hpos, h.drop_start] at hdrop
    rw [hclosing] at hdrop'
    rw [outerStart, outerStop, recognized, if_pos hstring, if_pos hstring, if_pos hstring]
    refine ⟨_, _, hdrop, ?_⟩
    rw [hdrop', List.append_assoc, List.cons_append]
    exact recognize_string htext _
  · have hwritten := h.written hstring hkind
    rw [outerStart, outerStop, recognized, if_neg hstring, if_neg hstring, if_neg hstring,
      h.drop_start]
    obtain ⟨c, rest, htext⟩ := List.exists_cons_of_ne_nil hwritten.text_ne_nil
    refine ⟨c, rest ++ source.drop t.span.stop, by rw [htext, List.cons_append], ?_⟩
    refine recognize_eq_token hwritten (h.maximal.append_separator rfl) (by simp) ?_
    rw [htext, List.append_assoc, List.cons_append]

theorem not_startsLayout (h : t.IsMatch source) (hkind : t.kind ≠ .eof) :
    ¬ StartsLayout (source.drop t.outerStart) := by
  obtain ⟨c, rest, heq, hrecognize⟩ := h.recognize_eq hkind
  rw [heq]
  intro hstarts
  exact recognized_ne_of_startsLayout (hstarts.append [' ']) _ _ hrecognize

/-- Two tokens with the same place and the same text are the same. -/
theorem eq_of_lexeme (h : t.IsMatch source) (h' : u.IsMatch source) (hkind : t.kind = u.kind)
    (hlexeme : t.lexeme = u.lexeme) (hstart : t.span.start = u.span.start) : t = u := by
  have hstop : t.span.stop = u.span.stop := by
    rw [← h.length_lexeme, ← h'.length_lexeme, hlexeme, hstart]
  have hline : t.span.line = u.span.line := by
    have hline := h.line_eq
    rw [hstop, ← h'.line_eq] at hline
    exact hline
  obtain ⟨kind, lexeme, ⟨start, stop, line⟩⟩ := t
  obtain ⟨kind', lexeme', ⟨start', stop', line'⟩⟩ := u
  simp only at hkind hlexeme hstart hstop hline
  rw [hkind, hlexeme, hstart, hstop, hline]

/-- A token is determined by where its writing starts. -/
theorem unique (h : t.IsMatch source) (h' : u.IsMatch source) (hkind : t.kind ≠ .eof)
    (hkind' : u.kind ≠ .eof) (hstart : t.outerStart = u.outerStart) : t = u := by
  obtain ⟨c, rest, heq, hrecognize⟩ := h.recognize_eq hkind
  obtain ⟨c', rest', heq', hrecognize'⟩ := h'.recognize_eq hkind'
  rw [hstart, heq'] at heq
  obtain ⟨rfl, rfl⟩ := List.cons.inj heq
  -- what is recognized there tells a string from all other tokens
  have hsame := hrecognize.symm.trans hrecognize'
  rw [outerStart, outerStart] at hstart
  rw [recognized, recognized] at hsame
  by_cases hstring : t.kind = .string <;> by_cases hstring' : u.kind = .string
  · rw [if_pos hstring, if_pos hstring'] at hstart hsame
    obtain ⟨htext, -⟩ := Recognized.string.inj hsame
    have hpos := (h.quoted hstring).1
    have hpos' := (h'.quoted hstring').1
    exact h.eq_of_lexeme h' (hstring.trans hstring'.symm) (String.toList_injective htext) (by omega)
  · rw [if_pos hstring, if_neg hstring'] at hsame
    cases hsame
  · rw [if_neg hstring, if_pos hstring'] at hsame
    cases hsame
  · rw [if_neg hstring, if_neg hstring'] at hstart hsame
    obtain ⟨hsameKind, htext, -⟩ := Recognized.token.inj hsame
    exact h.eq_of_lexeme h' hsameKind (String.toList_injective htext) hstart

theorem outerStart_le (h : t.IsMatch source) : t.outerStart ≤ t.outerStop := by
  have hle := h.start_le
  unfold outerStart outerStop
  split <;> omega

end Token.IsMatch

/-! ### Tilings from a place on -/

/-- Tokens make up a source from a place on. -/
inductive TilesFrom (source : List Char) : Nat → List Token → Prop
  | finish {place : Nat} {t : Token} : t.IsMatch source → t.IsEnd source →
      place ≤ source.length → Layout (source.drop place) [] → TilesFrom source place [t]
  | next {place : Nat} {t : Token} {rest : List Token} : t.IsMatch source → t.kind ≠ .eof →
      place ≤ t.outerStart → Layout (source.drop place) (source.drop t.outerStart) →
      TilesFrom source t.outerStop rest → TilesFrom source place (t :: rest)

namespace TilesFrom

variable {source : List Char} {place : Nat} {tokens tokens' : List Token}

/-- The places that layout leads to from the same place are the same. -/
theorem start_unique {start start' : Nat}
    (h : Layout (source.drop place) (source.drop start)) (hlt : start ≤ source.length)
    (hstarts : ¬ StartsLayout (source.drop start))
    (h' : Layout (source.drop place) (source.drop start')) (hlt' : start' ≤ source.length)
    (hstarts' : ¬ StartsLayout (source.drop start')) : start = start' := by
  have hlength := congrArg List.length (h.unique h' hstarts hstarts')
  rw [List.length_drop, List.length_drop] at hlength
  omega

/-- The writing of a token has a first character. -/
theorem outerStart_lt {t : Token} (h : t.IsMatch source) (hkind : t.kind ≠ .eof) :
    t.outerStart < source.length := by
  obtain ⟨c, rest, heq, -⟩ := h.recognize_eq hkind
  have hlength := congrArg List.length heq
  rw [List.length_drop, List.length_cons] at hlength
  omega

/-- Where the end is reached, no token follows. -/
theorem not_layout_nil {t : Token} (h : t.IsMatch source) (hkind : t.kind ≠ .eof)
    (hlayout : Layout (source.drop place) (source.drop t.outerStart))
    (hend : Layout (source.drop place) []) : False := by
  have hlt := outerStart_lt h hkind
  have hend : Layout (source.drop place) (source.drop source.length) := by
    rwa [List.drop_length]
  have hnone : ¬ StartsLayout (source.drop source.length) := by
    rw [List.drop_length]
    exact id
  have heq := start_unique hlayout hlt.le (h.not_startsLayout hkind) hend le_rfl hnone
  omega

/-- The tokens that make up a source from a place on are determined by it. -/
theorem unique (h : TilesFrom source place tokens) (h' : TilesFrom source place tokens') :
    tokens = tokens' := by
  induction h generalizing tokens' with
  | @finish place t hmatch hend _ hlayout =>
    cases h' with
    | @finish _ u hmatch' hend' _ _ =>
      rw [hmatch.eq_of_lexeme hmatch' (hend.kind.trans hend'.kind.symm)
        (hend.lexeme.trans hend'.lexeme.symm) (hend.start.trans hend'.start.symm)]
    | next hmatch' hkind' _ hlayout' =>
      exact absurd hlayout (not_layout_nil hmatch' hkind' hlayout')
  | @next place t rest hmatch hkind _ hlayout _ ih =>
    cases h' with
    | finish _ _ _ hlayout' => exact absurd hlayout' (not_layout_nil hmatch hkind hlayout)
    | @next _ u rest' hmatch' hkind' _ hlayout' hrest' =>
      -- layout leads to the same place, and there only one token starts
      have hstart := start_unique hlayout (outerStart_lt hmatch hkind).le
        (hmatch.not_startsLayout hkind) hlayout' (outerStart_lt hmatch' hkind').le
        (hmatch'.not_startsLayout hkind')
      obtain rfl := hmatch.unique hmatch' hkind hkind' hstart
      rw [ih hrest']

/-- Every token stands at the place or behind it. -/
theorem le_outerStart (h : TilesFrom source place tokens) : ∀ t ∈ tokens, place ≤ t.outerStart := by
  induction h with
  | @finish place t _ hend hle _ =>
    intro u hu
    rw [List.mem_singleton.mp hu, hend.outerStart_eq]
    exact hle
  | @next place t rest hmatch _ hle _ _ ih =>
    intro u hu
    rcases List.mem_cons.mp hu with rfl | hu
    · exact hle
    · exact hle.trans (hmatch.outerStart_le.trans (ih u hu))

theorem ordered (h : TilesFrom source place tokens) :
    tokens.Pairwise fun t u => t.outerStop ≤ u.outerStart := by
  induction h with
  | finish => exact List.pairwise_singleton _ _
  | next _ _ _ _ hrest ih => exact List.pairwise_cons.mpr ⟨hrest.le_outerStart, ih⟩

theorem ended (h : TilesFrom source place tokens) :
    ∃ front last, tokens = front ++ [last] ∧ last.IsEnd source ∧ ∀ t ∈ front, t.kind ≠ .eof := by
  induction h with
  | finish _ hend => exact ⟨[], _, rfl, hend, fun _ h => absurd h List.not_mem_nil⟩
  | @next place t rest _ hkind _ _ _ ih =>
    obtain ⟨front, last, rfl, hend, hfront⟩ := ih
    exact ⟨t :: front, last, rfl, hend, List.forall_mem_cons.mpr ⟨hkind, hfront⟩⟩

theorem matched (h : TilesFrom source place tokens) : ∀ t ∈ tokens, t.IsMatch source := by
  induction h with
  | finish hmatch => exact List.forall_mem_singleton.mpr hmatch
  | next hmatch _ _ _ _ ih => exact List.forall_mem_cons.mpr ⟨hmatch, ih⟩

theorem layout (h : TilesFrom source place tokens) (before : Nat) :
    ((before, place) :: tokens.map Token.extent).IsChain (LayoutBetween source) := by
  induction h generalizing before with
  | @finish place t _ hend _ hlayout =>
    refine .cons_cons ?_ (.singleton _)
    rwa [LayoutBetween, Token.extent, hend.outerStart_eq, List.drop_length]
  | next _ _ _ hlayout _ ih => exact .cons_cons hlayout (ih _)

/-- Layout in front belongs to the first gap. -/
theorem prepend {place' : Nat} (h : TilesFrom source place' tokens) (hle : place ≤ place')
    (hlayout : Layout (source.drop place) (source.drop place')) :
    TilesFrom source place tokens := by
  cases h with
  | finish hmatch hend hle' hlayout' =>
    exact .finish hmatch hend (hle.trans hle') (hlayout.trans hlayout')
  | next hmatch hkind hle' hlayout' hrest =>
    exact .next hmatch hkind (hle.trans hle') (hlayout.trans hlayout') hrest

end TilesFrom

/-- The two ways to say that tokens make up a source agree. -/
theorem isTiling_iff_tilesFrom {source : String} {tokens : List Token} :
    IsTiling source tokens ↔ TilesFrom source.toList 0 tokens := by
  refine ⟨fun h => ?_, fun h => ⟨h.ended, h.ordered, h.matched, h.layout 0⟩⟩
  obtain ⟨⟨front, last, rfl, hend, hfront⟩, hordered, hmatched, hlayout⟩ := h
  -- the place is where the token before stops, which all tokens that are left stand behind
  suffices hfrom : ∀ before place, (∀ t ∈ front ++ [last], place ≤ t.outerStart) →
      ((before, place) :: (front ++ [last]).map Token.extent).IsChain
        (LayoutBetween source.toList) →
      TilesFrom source.toList place (front ++ [last]) from
    hfrom 0 0 (fun _ _ => Nat.zero_le _) hlayout
  clear hlayout
  induction front with
  | nil =>
    intro before place hplace hchain
    have hle := hplace last (by simp)
    have hlayout := (List.isChain_cons_cons.mp hchain).1
    rw [hend.outerStart_eq] at hle
    rw [LayoutBetween, Token.extent, hend.outerStart_eq, List.drop_length] at hlayout
    exact .finish (hmatched last (by simp)) hend hle hlayout
  | cons t front ih =>
    intro before place hplace hchain
    obtain ⟨hlayout, hchain⟩ := List.isChain_cons_cons.mp hchain
    obtain ⟨hbehind, hordered⟩ := List.pairwise_cons.mp hordered
    obtain ⟨hmatch, hmatched⟩ := List.forall_mem_cons.mp hmatched
    obtain ⟨hkind, hfront⟩ := List.forall_mem_cons.mp hfront
    exact .next hmatch hkind (hplace t (by simp)) hlayout
      (ih hordered hmatched hfront _ _ hbehind hchain)

/-! ### The scanner -/

namespace Scanner

/-- A scanner stands in a source. -/
structure StandsIn (s : Scanner) (source : List Char) : Prop where
  rest : s.rest = source.drop s.position
  position : s.position ≤ source.length
  line : s.line = 1 + (source.take s.position).count '\n'

variable {s s' : Scanner} {source : List Char}

theorem StandsIn.moveTo (h : s.StandsIn source) {text rest : List Char}
    (heq : s.rest = text ++ rest) : (s.moveTo text rest).StandsIn source := by
  have hdrop : source.drop s.position = text ++ rest := h.rest.symm.trans heq
  have hlength := congrArg List.length hdrop
  rw [List.length_drop, List.length_append] at hlength
  refine ⟨?_, ?_, ?_⟩
  · simp only [Scanner.moveTo]
    rw [← List.drop_drop, hdrop, List.drop_left]
  · have hposition := h.position
    simp only [Scanner.moveTo]
    omega
  · simp only [Scanner.moveTo]
    rw [List.take_add, hdrop, List.take_left, List.count_append, h.line]
    omega

theorem StandsIn.skipSeparators (h : s.StandsIn source) : s.skipSeparators.StandsIn source :=
  h.moveTo List.takeWhile_append_dropWhile.symm

/-- A token that is not continued, read where a scanner stands. -/
theorem StandsIn.isMatch_token (h : s.StandsIn source) {kind : TokenKind} {text after : List Char}
    (hrest : s.rest = text ++ after) (hwritten : kind.WrittenAs text)
    (hmaximal : kind.MaximalBefore text after) :
    Token.IsMatch source ⟨kind, String.ofList text, ⟨s.position, (s.moveTo text after).position,
      (s.moveTo text after).line⟩⟩ := by
  have hmoved := h.moveTo hrest
  refine ⟨Nat.le_add_right _ _, hmoved.position, ?_, fun hkind => absurd hkind hwritten.kind_ne.1,
    fun _ _ => ?_, ?_, congrArg Int.ofNat hmoved.line⟩
  · simp only [Scanner.moveTo, String.toList_ofList]
    rw [← h.rest, hrest, Nat.add_sub_cancel_left, List.take_left]
  · rwa [String.toList_ofList]
  · rw [← hmoved.rest, String.toList_ofList]
    exact hmaximal

/-- A string, read where a scanner stands. Its text stands between the quotes. -/
theorem StandsIn.isMatch_string (h : s.StandsIn source) {text after : List Char}
    (hrest : s.rest = '"' :: text ++ '"' :: after) (htext : '"' ∉ text) :
    Token.IsMatch source ⟨.string, String.ofList text, ⟨s.position + 1,
      (s.moveTo ('"' :: text ++ ['"']) after).position - 1,
      (s.moveTo ('"' :: text ++ ['"']) after).line⟩⟩ := by
  have hopened : (s.moveTo ['"'] (text ++ '"' :: after)).StandsIn source := h.moveTo hrest
  have hinside := hopened.moveTo rfl
  have hstop : (s.moveTo ('"' :: text ++ ['"']) after).position - 1 =
      s.position + 1 + text.length := by
    simp only [Scanner.moveTo, List.cons_append, List.length_cons, List.length_append,
      List.length_nil]
    omega
  -- the line is that of the closing quote
  have hline : (s.moveTo ('"' :: text ++ ['"']) after).line = s.line + text.count '\n' := by
    simp [Scanner.moveTo]
  have hopening : source[s.position]? = some '"' := by
    rw [← List.head?_drop, ← h.rest, hrest]
    rfl
  have hclosing : source[s.position + 1 + text.length]? = some '"' := by
    rw [← List.head?_drop]
    exact congrArg List.head? hinside.rest.symm
  have hmaximal : ∀ text after, TokenKind.string.MaximalBefore text after :=
    maximalBefore_other (by decide) (by decide) (by decide) (by decide)
  rw [hstop, hline]
  refine ⟨Nat.le_add_right _ _, hinside.position, ?_,
    fun _ => ⟨Nat.succ_pos _, hopening, hclosing, by rwa [String.toList_ofList]⟩,
    fun hkind => absurd rfl hkind, hmaximal _ _, congrArg Int.ofNat hinside.line⟩
  simp only [String.toList_ofList]
  rw [← show _ = source.drop (s.position + 1) from hopened.rest, Nat.add_sub_cancel_left]
  exact List.take_left.symm

/-- A token that is read stands between the places before and behind it. -/
theorem StandsIn.read_token (h : s.StandsIn source) {c : Char} {rest : List Char}
    (hrest : s.rest = c :: rest) {t : Token} (hread : s.read c rest = (.token t, s')) :
    t.IsMatch source ∧ t.kind ≠ .eof ∧ t.outerStart = s.position ∧ t.outerStop = s'.position ∧
      s'.StandsIn source := by
  have htaken := recognize_takenFrom c rest
  have hlongest := recognize_isLongest c rest
  have hbegin : ({ s with start := s.position } : Scanner).StandsIn source :=
    ⟨h.rest, h.position, h.line⟩
  unfold Scanner.read at hread
  split at hread
  all_goals
    rename_i heq
    rw [heq] at htaken hlongest
    obtain ⟨hstep, rfl⟩ := Prod.mk.inj hread
    cases hstep
  · -- a token is as long as its text
    obtain ⟨hwritten, hmaximal⟩ := hlongest
    obtain ⟨hstring, heof⟩ := hwritten.kind_ne
    have hsplit := hrest.trans htaken.1
    exact ⟨hbegin.isMatch_token hsplit hwritten hmaximal, heof, if_neg hstring, if_neg hstring,
      hbegin.moveTo hsplit⟩
  · -- a string's span leaves out the quotes, which the outer places count in
    have hsplit := hrest.trans htaken
    refine ⟨hbegin.isMatch_string hsplit hlongest, TokenKind.noConfusion, ?_, ?_, ?_⟩
    · exact Nat.add_sub_cancel _ _
    · exact Nat.sub_add_cancel (Nat.succ_pos _)
    · exact hbegin.moveTo (hsplit.trans (List.append_cons _ _ _))

/-- A comment that is read is layout. -/
theorem StandsIn.read_comment (h : s.StandsIn source) {c : Char} {rest : List Char}
    (hrest : s.rest = c :: rest) (hread : s.read c rest = (.comment, s')) :
    s'.StandsIn source ∧ s.position ≤ s'.position ∧ Layout s.rest s'.rest := by
  have htaken := recognize_takenFrom c rest
  have hlongest := recognize_isLongest c rest
  have hbegin : ({ s with start := s.position } : Scanner).StandsIn source :=
    ⟨h.rest, h.position, h.line⟩
  unfold Scanner.read at hread
  split at hread
  all_goals
    rename_i heq
    rw [heq] at htaken hlongest
    obtain ⟨hstep, rfl⟩ := Prod.mk.inj hread
    cases hstep
  obtain ⟨body, rfl, hbody, hend⟩ := hlongest
  have hsplit := hrest.trans htaken
  refine ⟨hbegin.moveTo hsplit, Nat.le_add_right _ _, ?_⟩
  rw [hsplit]
  exact .comment hbody hend (.done _)

/-- A step ends the scan or reads at the next character that is no separator. -/
theorem next_cases (s : Scanner) :
    (s.skipSeparators.rest = [] ∧ s.next = (.finish ⟨.eof, "", ⟨s.skipSeparators.position,
      s.skipSeparators.position, s.skipSeparators.line⟩⟩, s.skipSeparators)) ∨
    ∃ c rest, s.skipSeparators.rest = c :: rest ∧ s.next = s.skipSeparators.read c rest := by
  unfold next
  cases hrest : s.skipSeparators.rest with
  | nil => exact .inl ⟨rfl, by simp only [hrest]⟩
  | cons c rest => exact .inr ⟨c, rest, rfl, by simp only [hrest]⟩

theorem read_ne_finish (c : Char) (rest : List Char) (t : Token) :
    s.read c rest ≠ (.finish t, s') := by
  intro h
  unfold read at h
  split at h <;> cases h

/-- The token at the end of a source. -/
theorem StandsIn.isMatch_eof (h : s.StandsIn source) :
    Token.IsMatch source ⟨.eof, "", ⟨s.position, s.position, s.line⟩⟩ where
  start_le := le_rfl
  stop_le := h.position
  lexeme_eq := by simp
  quoted := fun hkind => absurd hkind TokenKind.noConfusion
  written := fun _ hkind => absurd rfl hkind
  maximal := show TokenKind.eof.MaximalBefore _ _ from
    maximalBefore_other (by decide) (by decide) (by decide) (by decide) _ _
  line_eq := congrArg Int.ofNat h.line

/-- The separators in front belong to the first gap. -/
theorem StandsIn.tilesFrom_skipSeparators (h : s.StandsIn source) {tokens : List Token}
    (htiles : TilesFrom source s.skipSeparators.position tokens) :
    TilesFrom source s.position tokens := by
  refine htiles.prepend (Nat.le_add_right _ _) ?_
  rw [← h.rest, ← h.skipSeparators.rest]
  exact Layout.dropWhile_isSeparator _

/-- A scan without a failure finds tokens that make up what was left of the source. -/
theorem tilesFrom_run (s : Scanner) (h : s.StandsIn source) (hfailure : s.run.failure = none) :
    TilesFrom source s.position (s.run.found.filterMap id) := by
  have hhere := h.skipSeparators
  fun_induction Scanner.run s with
  | case1 s t s' hnext _ ih =>
    rcases s.next_cases with ⟨-, heq⟩ | ⟨c, rest, hrest, heq⟩
    · rw [heq] at hnext
      cases hnext
    obtain ⟨hmatch, hkind, hstart, hstop, hstands⟩ := hhere.read_token hrest (heq.symm.trans hnext)
    have htiles := ih hstands hfailure hstands.skipSeparators
    rw [← hstop] at htiles
    refine h.tilesFrom_skipSeparators (.next hmatch hkind hstart.ge ?_ htiles)
    rw [hstart]
    exact .done _
  | case2 s s' hnext _ ih =>
    rcases s.next_cases with ⟨-, heq⟩ | ⟨c, rest, hrest, heq⟩
    · rw [heq] at hnext
      cases hnext
    -- the comment belongs to the gap before the next token
    obtain ⟨hstands, hle, hlayout⟩ := hhere.read_comment hrest (heq.symm.trans hnext)
    have htiles := ih hstands hfailure hstands.skipSeparators
    rw [hhere.rest, hstands.rest] at hlayout
    exact h.tilesFrom_skipSeparators (htiles.prepend hle hlayout)
  | case3 s t s' hnext =>
    rcases s.next_cases with ⟨hrest, heq⟩ | ⟨c, rest, hrest, heq⟩
    · rw [heq] at hnext
      cases hnext
      have hlength : s.skipSeparators.position = source.length := by
        have hlength := congrArg List.length (hhere.rest.symm.trans hrest)
        rw [List.length_drop, List.length_nil] at hlength
        exact le_antisymm hhere.position (Nat.le_of_sub_eq_zero hlength)
      refine h.tilesFrom_skipSeparators ?_
      refine .finish hhere.isMatch_eof ⟨rfl, rfl, hlength, hlength⟩ hhere.position ?_
      rw [← hhere.rest, hrest]
      exact .done _
    · exact absurd (heq.symm.trans hnext) (read_ne_finish c rest t)
  | case4 s e s' hnext => cases hfailure

end Scanner

theorem tilesFrom_tokenize {source : String} {tokens : List Token}
    (h : tokenize source = .ok tokens) : TilesFrom source.toList 0 tokens := by
  have hstands : (Scanner.ofSource source).StandsIn source.toList := ⟨rfl, Nat.zero_le _, rfl⟩
  unfold tokenize Scan.tokens at h
  split at h
  · cases h
  · rename_i hfailure
    cases h
    exact Scanner.tilesFrom_run _ hstands hfailure

/-- A source that can be scanned has one tiling, its tokens. -/
theorem isTiling_iff_of_tokenize {source : String} {tokens : List Token}
    (h : tokenize source = .ok tokens) (list : List Token) :
    IsTiling source list ↔ list = tokens := by
  rw [isTiling_iff_tilesFrom]
  constructor
  · intro hlist
    exact hlist.unique (tilesFrom_tokenize h)
  · rintro rfl
    exact tilesFrom_tokenize h

/-- A string over two lines, a comment, a fraction and an operator of two characters. -/
theorem isTiling_iff_comparison :
    tokenize "x != \"a\nb\" // no\n12.5.7" = .ok [
        ⟨.identifier, "x", 0, 1, 1⟩, ⟨.bangEqual, "!=", 2, 4, 1⟩, ⟨.string, "a\nb", 6, 9, 2⟩,
        ⟨.number, "12.5", 17, 21, 3⟩, ⟨.dot, ".", 21, 22, 3⟩, ⟨.number, "7", 22, 23, 3⟩,
        ⟨.eof, "", 23, 23, 3⟩] ∧
      ∀ list, IsTiling "x != \"a\nb\" // no\n12.5.7" list ↔ list = [
        ⟨.identifier, "x", 0, 1, 1⟩, ⟨.bangEqual, "!=", 2, 4, 1⟩, ⟨.string, "a\nb", 6, 9, 2⟩,
        ⟨.number, "12.5", 17, 21, 3⟩, ⟨.dot, ".", 21, 22, 3⟩, ⟨.number, "7", 22, 23, 3⟩,
        ⟨.eof, "", 23, 23, 3⟩] :=
  ⟨by decide +kernel, isTiling_iff_of_tokenize (by decide +kernel)⟩

end StackScript
