import StackScript.ModuleText.Reader
import StackScript.Proofs.Code
import StackScript.Proofs.TextForms

/-!
# Function bodies as text

A body is a flat list of instructions, and its text is nested: a conditional is a form with its parts
inside. Written lines and read forms meet in the code that the body writes. By recursion over the
code, its lines spell forms that are read as the body, apart from constants of the module's type,
which are always read as such.

## Main definitions

* `IsName`, `FewDigits`: names and integers that can be written.
* `Instr.WellFormed`: instructions that can be written.
* `Instr.normalized`: an instruction as it is read.
* `Code.Spelled`: the pieces of code, and the forms that they are read as.

## Main results

* `Code.exists_spelled`: code whose instructions can be written is read as it was.
-/

namespace StackScript

open TextPiece (lparen rparen parens)

/-! ### Words -/

/-- A name that can be written: it has no blank, no parenthesis, no quote and no semicolon. -/
def IsName (name : Text) : Prop :=
  ∀ c ∈ name.points, isAtomPoint c = true

instance : DecidablePred IsName := fun name =>
  List.decidableBAll (fun c => isAtomPoint c = true) name.points

theorem IsName.asName {name : Text} : (Form.atom ("$" ++ name)).asName = .ok name := by
  have htext : ("$" ++ name : Text).points = .char '$' :: name.points := Text.points_append _ _
  unfold Form.asName
  dsimp only
  rw [htext]
  exact congrArg Except.ok name.ofPoints_points

/-- An integer with no more digits than can be read back. -/
def FewDigits (n : Int) : Prop :=
  n.natAbs < 10 ^ Numeral.maxDigits

theorem Numeral.lt_pow_maxDigits {n : Nat} (digits : Nat) (h : n < 10 ^ digits)
    (hdigits : digits ≤ maxDigits) : n < 10 ^ maxDigits :=
  h.trans_le (Nat.pow_le_pow_right (by decide) hdigits)

theorem FewDigits.of_lt {n : Int} (digits : Nat) (h : n.natAbs < 10 ^ digits)
    (hdigits : digits ≤ Numeral.maxDigits) : FewDigits n :=
  Numeral.lt_pow_maxDigits digits h hdigits

theorem FewDigits.integerText {n : Int} (h : FewDigits n) : integerText n = .ok (toString n) := by
  unfold FewDigits at h
  rw [StackScript.integerText, Nat.pow_eq, if_pos h]

theorem FewDigits.readNumber {n : Int} (h : FewDigits n) :
    readNumber false (toString n) = .ok (.int n) := by
  unfold StackScript.readNumber
  rw [Text.string?_plain, Option.bind_eq_bind, Option.bind_some, if_neg Bool.false_ne_true,
    if_pos (Numeral.isBare_toString n), Numeral.integer?_toString h]
  rfl

/-- The data that constants of a type hold: integers, or floats. -/
inductive Datum.IsConstant (t : ValueType) : Datum → Prop
  | int {n : Int} : t.isFloat = false → FewDigits n → IsConstant t (.int n)
  | real {x : Double} : t.isFloat = true → IsConstant t (.real x)

/-- A constant is written as a word that is read as the constant. -/
theorem Datum.IsConstant.exists_word {t : ValueType} {d : Datum} (h : d.IsConstant t) :
    ∃ text : String, numberText d = .ok text ∧ operandPieces d = .ok [.word text] ∧ IsWord text ∧
      readNumber t.isFloat text = .ok d := by
  cases h with
  | @int n hfloat hn =>
    have htext : numberText (.int n) = .ok (toString n) := hn.integerText
    refine ⟨toString n, htext, ?_, isWord_toString n, hfloat ▸ hn.readNumber⟩
    rw [operandPieces, htext]
    · rfl
    · exact fun h => by cases h
    · exact fun _ h => by cases h
  | @real x hfloat =>
    refine ⟨floatText x, rfl, rfl, isWord_floatText x, ?_⟩
    rw [hfloat]
    unfold readNumber
    rw [Text.string?_plain, Option.bind_eq_bind, Option.bind_some, if_pos rfl,
      Numeral.real?_floatText]
    rfl

/-! ### Instructions -/

/-- An instruction that can be written in a module of a type. A mnemonic has an immediate if it takes
one, and of the kind that it takes. -/
inductive Instr.WellFormed (t : ValueType) : Instr → Prop
  | const {d : Datum} : d.IsConstant t → WellFormed t (.const d)
  | call {name : Text} : IsName name → WellFormed t (.call name)
  | bare {mnemonic : Text} : IsWord mnemonic → takesImmediate mnemonic = false →
      WellFormed t (.bare mnemonic)
  | named {mnemonic name : Text} : mnemonic ∈ namedMnemonics → IsName name →
      WellFormed t (.named mnemonic name)
  | constant {u : ValueType} {d : Datum} : d.IsConstant u →
      WellFormed t (.plain (u.mnemonic "const") d)
  | openIf : WellFormed t .openIf
  | openElse : WellFormed t .openElse
  | closeIf : WellFormed t .closeIf

/-- An instruction as it is read in a module of a type: a constant of the type is always read as
such. -/
def Instr.normalized (t : ValueType) : Instr → Instr
  | plain mnemonic operand =>
    if mnemonic = t.mnemonic "const" then .const operand else .plain mnemonic operand
  | instr => instr

theorem lookup_constMnemonics (t : ValueType) :
    constMnemonics.lookup (t.mnemonic "const") = some t := by
  cases t <;> decide

theorem eq_mnemonic_of_lookup {mnemonic : Text} {t : ValueType}
    (h : constMnemonics.lookup mnemonic = some t) : mnemonic = t.mnemonic "const" := by
  obtain ⟨before, after, heq, -⟩ := List.lookup_eq_some_iff.mp h
  have hmem : (mnemonic, t) ∈ constMnemonics := heq ▸ List.mem_append_right _ List.mem_cons_self
  obtain ⟨u, -, hu⟩ := List.mem_map.mp hmem
  cases hu
  rfl

theorem takesImmediate_const (t : ValueType) : takesImmediate (t.mnemonic "const") = true := by
  cases t <;> decide

theorem mnemonic_const_ne_call (t : ValueType) : t.mnemonic "const" ≠ "call" := by
  cases t <;> decide

theorem mnemonic_const_inj {t u : ValueType} (h : t.mnemonic "const" = u.mnemonic "const") :
    t = u := by
  have hlookup := lookup_constMnemonics t
  rw [h, lookup_constMnemonics u] at hlookup
  exact (Option.some.inj hlookup).symm

theorem takesImmediate_named {mnemonic : Text} (h : mnemonic ∈ namedMnemonics) :
    takesImmediate mnemonic = true := by
  simp [takesImmediate, h]

theorem named_not_const : ∀ mnemonic ∈ namedMnemonics,
    mnemonic ≠ "call" ∧ constMnemonics.lookup mnemonic = none := by
  decide

/-- Constants of any type, read in a module of a type. -/
theorem readImmediate_const (t u : ValueType) {d : Datum} {text : Text}
    (h : readNumber u.isFloat text = .ok d) :
    readImmediate t (u.mnemonic "const") text =
      .ok ((Instr.plain (u.mnemonic "const") d).normalized t) := by
  unfold readImmediate Instr.normalized
  rw [if_neg (mnemonic_const_ne_call u), lookup_constMnemonics]
  dsimp only
  rw [h]
  by_cases hu : u = t
  · subst hu
    rw [if_pos rfl]
    exact congrArg Except.ok (if_pos rfl)
  · rw [if_neg fun heq => hu (mnemonic_const_inj heq)]
    exact congrArg Except.ok (if_neg hu)

theorem readImmediate_named (t : ValueType) {mnemonic name : Text}
    (h : mnemonic ∈ namedMnemonics) :
    readImmediate t mnemonic ("$" ++ name) = .ok (.named mnemonic name) := by
  obtain ⟨hcall, hlookup⟩ := named_not_const mnemonic h
  unfold readImmediate
  rw [if_neg hcall, hlookup]
  dsimp only
  rw [IsName.asName]
  rfl

theorem readInstructions_immediate (t : ValueType) {mnemonic text : Text} {instr : Instr}
    (htakes : takesImmediate mnemonic = true) (h : readImmediate t mnemonic text = .ok instr)
    (rest : List Form) :
    readInstructions t (.atom mnemonic :: .atom text :: rest) =
      (readInstructions t rest).map (instr :: ·) := by
  rw [readInstructions, if_pos htakes, h]
  cases readInstructions t rest <;> rfl

theorem readInstructions_bare (t : ValueType) {mnemonic : Text}
    (htakes : takesImmediate mnemonic = false) (rest : List Form) :
    readInstructions t (.atom mnemonic :: rest) =
      (readInstructions t rest).map (.bare mnemonic :: ·) := by
  rw [readInstructions.eq_def]
  dsimp only
  rw [htakes, if_neg Bool.false_ne_true]
  cases readInstructions t rest <;> rfl

theorem readInstructions_list (t : ValueType) {items : List Form} {instrs : List Instr}
    (h : readConditional t items = .ok instrs) (rest : List Form) :
    readInstructions t (.list items :: rest) = (readInstructions t rest).map (instrs ++ ·) := by
  rw [readInstructions, h]
  cases readInstructions t rest <;> rfl

theorem readConditional_then (t : ValueType) {body : List Form} {instrs : List Instr}
    (h : readInstructions t body = .ok instrs) :
    readConditional t [.atom "if", .list (.atom "then" :: body)] =
      .ok (.openIf :: instrs ++ [Instr.closeIf]) := by
  rw [readConditional, h]
  rfl

theorem readConditional_else (t : ValueType) {body otherwise : List Form}
    {instrs instrs' : List Instr} (h : readInstructions t body = .ok instrs)
    (h' : readInstructions t otherwise = .ok instrs') :
    readConditional t
        [.atom "if", .list (.atom "then" :: body), .list (.atom "else" :: otherwise)] =
      .ok (.openIf :: instrs ++ .openElse :: instrs' ++ [Instr.closeIf]) := by
  rw [readConditional, h]
  change (do let otherwise ← readInstructions t otherwise; _) = _
  rw [h']
  rfl

theorem normalized_const (t : ValueType) (d : Datum) :
    (Instr.plain (t.mnemonic "const") d).normalized t = .const d :=
  if_pos rfl

theorem normalized_of_ne {t : ValueType} {mnemonic : Text} {operand : Datum}
    (h : mnemonic ≠ t.mnemonic "const") :
    (Instr.plain mnemonic operand).normalized t = .plain mnemonic operand :=
  if_neg h

theorem ne_const_of_takesImmediate {mnemonic : Text} (h : takesImmediate mnemonic = false)
    (t : ValueType) : mnemonic ≠ t.mnemonic "const" := by
  rintro rfl
  rw [takesImmediate_const] at h
  cases h

theorem ne_const_of_mem_namedMnemonics {mnemonic : Text} (h : mnemonic ∈ namedMnemonics)
    (t : ValueType) : mnemonic ≠ t.mnemonic "const" := by
  rintro rfl
  have hlookup := (named_not_const _ h).2
  rw [lookup_constMnemonics] at hlookup
  cases hlookup

/-- An instruction is written as what it is read as. -/
theorem instrLines_normalized {t : ValueType} {instr : Instr} (h : instr.WellFormed t) (depth : Int) :
    instrLines t depth (instr.normalized t) = instrLines t depth instr := by
  cases h with
  | bare hword htakes =>
    unfold Instr.bare
    rw [normalized_of_ne (ne_const_of_takesImmediate htakes t)]
  | named hmnemonic hname =>
    unfold Instr.named
    rw [normalized_of_ne (ne_const_of_mem_namedMnemonics hmnemonic t)]
  | @constant u d hd =>
    by_cases hu : u = t
    · subst hu
      obtain ⟨text, htext, hpieces, -, -⟩ := hd.exists_word
      rw [normalized_const, instrLines, instrLines, htext, hpieces]
      rfl
    · rw [normalized_of_ne fun heq => hu (mnemonic_const_inj heq)]
  | _ => rfl

theorem bodyLines_normalized {t : ValueType} {body : List Instr}
    (h : ∀ instr ∈ body, instr.WellFormed t) (depth : Int) :
    bodyLines t depth (body.map (Instr.normalized t)) = bodyLines t depth body := by
  induction body generalizing depth with
  | nil => rfl
  | cons instr body ih =>
    obtain ⟨hinstr, hbody⟩ := List.forall_mem_cons.mp h
    rw [List.map_cons, bodyLines, bodyLines, instrLines_normalized hinstr]
    cases instrLines t depth instr with
    | error e => rfl
    | ok lines =>
      change (do let others ← bodyLines t lines.2 (body.map (Instr.normalized t)); _) = _
      rw [ih hbody]
      rfl

/-- The pieces of the line of an action, and the atoms that they are read as. -/
structure Action.Spelled (t : ValueType) (action : Action) (pieces : List TextPiece)
    (forms : List Form) : Prop where
  line : ∀ depth, instrLines t depth action.instr = .ok ([⟨depth, pieces⟩], depth)
  spells : Spells pieces forms
  reads : ∀ rest, readInstructions t (forms ++ rest) =
    (readInstructions t rest).map (action.instr.normalized t :: ·)
  atoms : ∀ items, Form.list items ∉ forms

theorem isWord_of_mem_namedMnemonics : ∀ mnemonic ∈ namedMnemonics, IsWord mnemonic := by
  decide

theorem Action.exists_spelled {t : ValueType} (action : Action)
    (h : action.instr.WellFormed t) : ∃ pieces forms, action.Spelled t pieces forms := by
  cases action with
  | const d =>
    cases h with
    | const hd =>
      obtain ⟨text, htext, -, hword, hread⟩ := hd.exists_word
      refine ⟨_, _, fun depth => ?_, .word (isWord_const t) (.word hword .nil), fun rest => ?_,
        by simp⟩
      · rw [Action.instr, instrLines, htext]
        rfl
      -- of the module's own type, the constant read with its mnemonic is the one without it
      · have himmediate := readImmediate_const t t hread
        rw [normalized_const] at himmediate
        exact readInstructions_immediate t (takesImmediate_const t) himmediate rest
  | call name =>
    cases h with
    | call hname =>
      refine ⟨_, _, fun depth => rfl, .word (by decide) (.word (isWord_name hname) .nil),
        fun rest => ?_, by simp⟩
      refine readInstructions_immediate t (by decide) ?_ rest
      rw [readImmediate, if_pos rfl, IsName.asName]
      rfl
  | plain mnemonic operand =>
    -- which rule made the instruction decides how its operand is written
    generalize hinstr : (Action.plain mnemonic operand).instr = instr at h
    cases h with
    | bare hword htakes =>
      cases hinstr
      refine ⟨_, _, fun depth => rfl, .word hword .nil, fun rest => ?_, by simp⟩
      rw [Action.instr, normalized_of_ne (ne_const_of_takesImmediate htakes t)]
      exact readInstructions_bare t htakes rest
    | named hmnemonic hname =>
      cases hinstr
      refine ⟨_, _, fun depth => rfl,
        .word (isWord_of_mem_namedMnemonics _ hmnemonic) (.word (isWord_name hname) .nil),
        fun rest => ?_, by simp⟩
      rw [Action.instr, normalized_of_ne (ne_const_of_mem_namedMnemonics hmnemonic t)]
      exact readInstructions_immediate t (takesImmediate_named hmnemonic)
        (readImmediate_named t hmnemonic) rest
    | @constant u _ hd =>
      cases hinstr
      obtain ⟨text, -, hpieces, hword, hread⟩ := hd.exists_word
      refine ⟨_, _, fun depth => ?_, .word (isWord_const u) (.word hword .nil), fun rest => ?_,
        by simp⟩
      · rw [Action.instr, instrLines, hpieces]
        rfl
      · exact readInstructions_immediate t (takesImmediate_const u) (readImmediate_const t u hread)
          rest
    | _ => cases hinstr

/-- The pieces of code and the forms that they are read as. The lines depend on the depth, and after
them the depth is what it was. -/
structure Code.Spelled (t : ValueType) (c : Code) (pieces : List TextPiece) (forms : List Form) :
    Prop where
  lines : ∀ depth, ∃ lines : List TextLine, lines.flatMap TextLine.pieces = pieces ∧
    ∀ after, bodyLines t depth (c.flatten ++ after) = (bodyLines t depth after).map (lines ++ ·)
  spells : Spells pieces forms
  reads : ∀ rest, readInstructions t (forms ++ rest) =
    (readInstructions t rest).map (c.flatten.map (Instr.normalized t) ++ ·)
  conditionals : ∀ items, Form.list items ∈ forms → Form.headOf? items = some "if"

theorem bodyLines_cons {t : ValueType} {depth depth' : Int} {instr : Instr} {lines : List TextLine}
    (h : instrLines t depth instr = .ok (lines, depth')) (rest : List Instr) :
    bodyLines t depth (instr :: rest) = (bodyLines t depth' rest).map (lines ++ ·) := by
  rw [bodyLines, h]
  change (do return lines ++ (← bodyLines t depth' rest)) = _
  cases bodyLines t depth' rest <;> rfl

namespace Code

variable {t : ValueType} {action : Action} {first second rest : Code}
  {pieces pieces' pieces'' : List TextPiece} {forms forms' forms'' : List Form}

theorem Spelled.done (t : ValueType) : Code.done.Spelled t [] [] := by
  refine ⟨fun depth => ⟨[], rfl, fun after => ?_⟩, .nil, fun rest => ?_, by simp⟩
  · change bodyLines t depth after = _
    cases bodyLines t depth after <;> rfl
  · change readInstructions t rest = _
    cases readInstructions t rest <;> rfl

theorem Spelled.act (haction : action.Spelled t pieces forms) (hrest : rest.Spelled t pieces' forms') :
    (Code.act action rest).Spelled t (pieces ++ pieces') (forms ++ forms') := by
  refine ⟨fun depth => ?_, haction.spells.append hrest.spells, fun after => ?_, fun items hitems => ?_⟩
  · obtain ⟨lines, hpieces, hlines⟩ := hrest.lines depth
    refine ⟨⟨depth, pieces⟩ :: lines, by rw [List.flatMap_cons, hpieces], fun after => ?_⟩
    rw [flatten, List.cons_append, bodyLines_cons (haction.line depth), hlines]
    cases bodyLines t depth after <;> rfl
  · rw [List.append_assoc, haction.reads, hrest.reads]
    cases readInstructions t after <;> rfl
  · rcases List.mem_append.mp hitems with h | h
    · exact absurd h (haction.atoms items)
    · exact hrest.conditionals items h

/-- A whole body is read as its instructions. -/
theorem Spelled.readInstructions_eq {c : Code} (h : c.Spelled t pieces forms) :
    readInstructions t forms = .ok (c.flatten.map (Instr.normalized t)) := by
  have hreads := h.reads []
  rw [List.append_nil, readInstructions] at hreads
  rw [hreads]
  exact congrArg Except.ok (List.append_nil _)

theorem Spelled.ifThen (hfirst : first.Spelled t pieces forms)
    (hrest : rest.Spelled t pieces' forms') :
    (Code.ifThen first rest).Spelled t
      (parens (.word "if" :: parens (.word "then" :: pieces)) ++ pieces')
      (.list [.atom "if", .list (.atom "then" :: forms)] :: forms') := by
  refine ⟨fun depth => ?_, ?_, fun after => ?_, fun items hitems => ?_⟩
  -- each mark has a line of its own, and the body stands two levels deeper
  · obtain ⟨lines, hpieces, hlines⟩ := hfirst.lines (depth + 2)
    obtain ⟨lines', hpieces', hlines'⟩ := hrest.lines depth
    refine ⟨[⟨depth, [lparen, .word "if"]⟩, ⟨depth + 1, [lparen, .word "then"]⟩] ++ lines ++
      [⟨depth + 2 - 1, [rparen]⟩, ⟨depth + 2 - 2, [rparen]⟩] ++ lines', ?_, fun after => ?_⟩
    · simp [hpieces, hpieces', parens]
    · have hflatten : (Code.ifThen first rest).flatten ++ after =
          .openIf :: (first.flatten ++ .closeIf :: (rest.flatten ++ after)) := by
        simp [flatten]
      rw [hflatten, bodyLines_cons rfl, hlines, bodyLines_cons rfl, Int.add_sub_cancel, hlines']
      cases bodyLines t depth after with
      | error e => rfl
      | ok more => simp [Except.map]
  · have hthen : Spells (.word "then" :: pieces) (.atom "then" :: forms) :=
      hfirst.spells.word (by decide)
    exact (hthen.parens.word (by decide)).parens.append hrest.spells
  -- the conditional is one form; what stands behind it is read on its own
  · rw [List.cons_append, readInstructions_list t (readConditional_then t hfirst.readInstructions_eq),
      hrest.reads]
    cases readInstructions t after with
    | error e => rfl
    | ok more => simp [Except.map, flatten, Instr.normalized]
  · rcases List.mem_cons.mp hitems with h | h
    · cases h
      rfl
    · exact hrest.conditionals items h

theorem Spelled.ifElse (hfirst : first.Spelled t pieces forms)
    (hsecond : second.Spelled t pieces' forms') (hrest : rest.Spelled t pieces'' forms'') :
    (Code.ifElse first second rest).Spelled t
      (parens (.word "if" :: (parens (.word "then" :: pieces) ++ parens (.word "else" :: pieces'))) ++
        pieces'')
      (.list [.atom "if", .list (.atom "then" :: forms), .list (.atom "else" :: forms')] ::
        forms'') := by
  refine ⟨fun depth => ?_, ?_, fun after => ?_, fun items hitems => ?_⟩
  · obtain ⟨lines, hpieces, hlines⟩ := hfirst.lines (depth + 2)
    obtain ⟨lines', hpieces', hlines'⟩ := hsecond.lines (depth + 2)
    obtain ⟨lines'', hpieces'', hlines''⟩ := hrest.lines depth
    refine ⟨[⟨depth, [lparen, .word "if"]⟩, ⟨depth + 1, [lparen, .word "then"]⟩] ++ lines ++
      [⟨depth + 2 - 1, [rparen]⟩, ⟨depth + 2 - 1, [lparen, .word "else"]⟩] ++ lines' ++
      [⟨depth + 2 - 1, [rparen]⟩, ⟨depth + 2 - 2, [rparen]⟩] ++ lines'', ?_, fun after => ?_⟩
    · simp [hpieces, hpieces', hpieces'', parens]
    · have hflatten : (Code.ifElse first second rest).flatten ++ after =
          .openIf :: (first.flatten ++ .openElse ::
            (second.flatten ++ .closeIf :: (rest.flatten ++ after))) := by
        simp [flatten]
      rw [hflatten, bodyLines_cons rfl, hlines, bodyLines_cons rfl, hlines', bodyLines_cons rfl,
        Int.add_sub_cancel, hlines'']
      cases bodyLines t depth after with
      | error e => rfl
      | ok more => simp [Except.map]
  · have hthen : Spells (.word "then" :: pieces) (.atom "then" :: forms) :=
      hfirst.spells.word (by decide)
    have helse : Spells (.word "else" :: pieces') (.atom "else" :: forms') :=
      hsecond.spells.word (by decide)
    exact ((hthen.parens.append helse.parens).word (by decide)).parens.append hrest.spells
  · rw [List.cons_append, readInstructions_list t (readConditional_else t
      hfirst.readInstructions_eq hsecond.readInstructions_eq), hrest.reads]
    cases readInstructions t after with
    | error e => rfl
    | ok more => simp [Except.map, flatten, Instr.normalized]
  · rcases List.mem_cons.mp hitems with h | h
    · cases h
      rfl
    · exact hrest.conditionals items h

/-- Code whose instructions can be written is read as it was. -/
theorem exists_spelled (c : Code) (h : ∀ instr ∈ c.flatten, instr.WellFormed t) :
    ∃ pieces forms, c.Spelled t pieces forms := by
  induction c with
  | done => exact ⟨_, _, .done t⟩
  | act action rest ih =>
    obtain ⟨haction, hrest⟩ := List.forall_mem_cons.mp h
    obtain ⟨_, _, hspelled⟩ := action.exists_spelled haction
    obtain ⟨_, _, hspelled'⟩ := ih hrest
    exact ⟨_, _, .act hspelled hspelled'⟩
  | ifThen first rest ihfirst ihrest =>
    simp only [flatten, List.mem_cons, List.mem_append] at h
    obtain ⟨_, _, hfirst⟩ := ihfirst fun instr hmem => h instr (by simp [hmem])
    obtain ⟨_, _, hrest⟩ := ihrest fun instr hmem => h instr (by simp [hmem])
    exact ⟨_, _, .ifThen hfirst hrest⟩
  | ifElse first second rest ihfirst ihsecond ihrest =>
    simp only [flatten, List.mem_cons, List.mem_append] at h
    obtain ⟨_, _, hfirst⟩ := ihfirst fun instr hmem => h instr (by simp [hmem])
    obtain ⟨_, _, hsecond⟩ := ihsecond fun instr hmem => h instr (by simp [hmem])
    obtain ⟨_, _, hrest⟩ := ihrest fun instr hmem => h instr (by simp [hmem])
    exact ⟨_, _, .ifElse hfirst hsecond hrest⟩

end Code

end StackScript
