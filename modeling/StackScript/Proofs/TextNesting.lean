import StackScript.Proofs.ReadFailures
import StackScript.Proofs.StructuredCalls

/-!
# Nesting shows in the text

The markers of a function body are written as parentheses and words. A body that does not nest closes
its function too early or leaves it open, and the markers of another body can make up for that, so
that the parentheses of the whole text match. Such a text is still not read. Where a body ends in the
text is found by looking at its tokens alone, in the same way in what was written and in what is read,
and after a body that does not nest no field can follow.

So a text that was written is read exactly if every body has a jump table. If it is not read, there
are words for the fault: of what the reader has no words for, only a string without bytes is ever
written.

## Main definitions

* `BodyTokens`, `FunctionsTokens`: the tokens that bodies and functions are written with.
* `afterBody`: what follows the body of a function.
* `Guarded`: tokens of forms that have no fault without words.

## Main results

* `afterBody_forms`: what is read as instructions is passed over.
* `BodyTokens.afterBody_cases`: where a body ends, if it nests and if it does not.
* `FunctionsTokens.wellNested`: functions that are read have bodies that nest.
* `worded_of_readModule`: there are words for why a text that was written is not read.
* `readModule_writeModule_iff_jumpTable`: a text that was written is read exactly if every body has a
  jump table.
-/

namespace StackScript

open Form

/-! ### Tokens of functions -/

/-- The tokens that an instruction is written with. -/
inductive InstrTokens (t : ValueType) : Instr → List TextToken → Prop
  | act {action : Action} {pieces : List TextPiece} {forms : List Form} :
      action.Spelled t pieces forms → InstrTokens t action.instr (allTokens forms)
  | openIf : InstrTokens t .openIf [.lparen, .atom "if", .lparen, .atom "then"]
  | openElse : InstrTokens t .openElse [.rparen, .lparen, .atom "else"]
  | closeIf : InstrTokens t .closeIf [.rparen, .rparen]

/-- The tokens that a body is written with. -/
inductive BodyTokens (t : ValueType) : List Instr → List TextToken → Prop
  | nil : BodyTokens t [] []
  | cons {instr : Instr} {body : List Instr} {first tokens : List TextToken} :
      InstrTokens t instr first → BodyTokens t body tokens →
      BodyTokens t (instr :: body) (first ++ tokens)

/-- The tokens that functions are written with. -/
inductive FunctionsTokens (t : ValueType) : List Func → List TextToken → Prop
  | nil : FunctionsTokens t [] []
  | cons {f : Func} {functions : List Func} {body tokens : List TextToken} :
      BodyTokens t f.body body → FunctionsTokens t functions tokens →
      FunctionsTokens t (f :: functions) (.lparen :: .atom "func" ::
        (allTokens (functionForms t f []) ++ (body ++ .rparen :: tokens)))

section

variable {t : ValueType}

/-- An instruction has the same tokens at every depth. -/
theorem exists_instrTokens {instr : Instr} (h : instr.WellFormed t) :
    ∃ tokens, InstrTokens t instr tokens ∧ ∀ depth, ∃ lines depth',
      instrLines t depth instr = .ok (lines, depth') ∧
        List.Forall₂ TextPiece.Reads (lines.flatMap TextLine.pieces) tokens := by
  -- what is no marker stands on a line of atoms
  have haction (action : Action) (heq : action.instr = instr) :
      ∃ tokens, InstrTokens t instr tokens ∧ ∀ depth, ∃ lines depth',
        instrLines t depth instr = .ok (lines, depth') ∧
          List.Forall₂ TextPiece.Reads (lines.flatMap TextLine.pieces) tokens := by
    subst heq
    obtain ⟨pieces, forms, hspelled⟩ := action.exists_spelled h
    refine ⟨_, .act hspelled, fun depth => ⟨_, _, hspelled.line depth, ?_⟩⟩
    rw [List.flatMap_singleton]
    exact hspelled.spells
  cases instr with
  | const value => exact haction (.const value) rfl
  | call name => exact haction (.call name) rfl
  | plain mnemonic operand => exact haction (.plain mnemonic operand) rfl
  | openIf =>
    exact ⟨_, .openIf, fun depth => ⟨_, _, rfl, .cons .lparen (.cons (.word (by decide))
      (.cons .lparen (.cons (.word (by decide)) .nil)))⟩⟩
  | openElse =>
    exact ⟨_, .openElse, fun depth =>
      ⟨_, _, rfl, .cons .rparen (.cons .lparen (.cons (.word (by decide)) .nil))⟩⟩
  | closeIf =>
    exact ⟨_, .closeIf, fun depth => ⟨_, _, rfl, .cons .rparen (.cons .rparen .nil)⟩⟩

theorem exists_bodyTokens {body : List Instr} (h : ∀ instr ∈ body, instr.WellFormed t) :
    ∃ tokens, BodyTokens t body tokens ∧ ∀ depth, ∃ lines, bodyLines t depth body = .ok lines ∧
      List.Forall₂ TextPiece.Reads (lines.flatMap TextLine.pieces) tokens := by
  induction body with
  | nil => exact ⟨[], .nil, fun _ => ⟨[], rfl, .nil⟩⟩
  | cons instr body ih =>
    obtain ⟨hinstr, hbody⟩ := List.forall_mem_cons.mp h
    obtain ⟨first, hfirst, hlines⟩ := exists_instrTokens hinstr
    obtain ⟨tokens, htokens, hothers⟩ := ih hbody
    refine ⟨first ++ tokens, .cons hfirst htokens, fun depth => ?_⟩
    obtain ⟨lines, depth', hwritten, hreads⟩ := hlines depth
    obtain ⟨others, hrest, hreads'⟩ := hothers depth'
    refine ⟨lines ++ others, ?_, ?_⟩
    · rw [bodyLines_cons hwritten, hrest]
      rfl
    · rw [List.flatMap_append]
      exact List.rel_append hreads hreads'

theorem exists_functionsTokens {functions : List Func} (h : ∀ f ∈ functions, f.Writable t) :
    ∃ lines tokens, functionsLines t functions = .ok lines ∧
      List.Forall₂ TextPiece.Reads (lines.flatMap TextLine.pieces) tokens ∧
      FunctionsTokens t functions tokens := by
  induction functions with
  | nil => exact ⟨[], [], rfl, .nil, .nil⟩
  | cons f functions ih =>
    obtain ⟨hf, hfunctions⟩ := List.forall_mem_cons.mp h
    obtain ⟨bodyTokens, hbodyTokens, hbodies⟩ := exists_bodyTokens hf.instructions
    obtain ⟨body, hbody, hbodyReads⟩ := hbodies 2
    obtain ⟨first, hfirst, hfirstReads⟩ :=
      exists_functionLines hf.name hf.params hf.locals hbody hbodyReads
    obtain ⟨others, tokens, hothers, hreads, htokens⟩ := ih hfunctions
    refine ⟨first ++ others, _, ?_, ?_, .cons hbodyTokens htokens⟩
    · rw [functionsLines, hfirst, hothers]
      rfl
    · rw [List.flatMap_append]
      convert List.rel_append hfirstReads hreads using 1
      simp

end

/-! ### The end of a body -/

/-- What follows the parenthesis that closes a function, from inside its body on. For each open
conditional, from the inside out, `opened` tells whether its second part has started. -/
def afterBody (opened : List Bool) : List TextToken → Option (List TextToken)
  | .atom _ :: rest => afterBody opened rest
  | .lparen :: .atom head :: .lparen :: .atom first :: rest =>
    if head = "if" ∧ first = "then" then afterBody (false :: opened) rest else none
  | .rparen :: rest =>
    match opened, rest with
    | [], rest => some rest
    | _ :: outer, .rparen :: rest => afterBody outer rest
    | false :: outer, .lparen :: .atom second :: rest =>
      if second = "else" then afterBody (true :: outer) rest else none
    | _, _ => none
  | _ => none

section

variable (opened : List Bool) (rest : List TextToken)

theorem afterBody_openIf :
    afterBody opened (.lparen :: .atom "if" :: .lparen :: .atom "then" :: rest) =
      afterBody (false :: opened) rest := by
  rw [afterBody, if_pos ⟨rfl, rfl⟩]

theorem afterBody_openElse :
    afterBody (false :: opened) (.rparen :: .lparen :: .atom "else" :: rest) =
      afterBody (true :: opened) rest := by
  rw [afterBody, if_pos rfl]

theorem afterBody_closeIf (second : Bool) :
    afterBody (second :: opened) (.rparen :: .rparen :: rest) = afterBody opened rest := by
  rw [afterBody]

theorem afterBody_rparen : afterBody [] (.rparen :: rest) = some rest := by
  rw [afterBody]

end

mutual

/-- What is read as instructions is passed over. -/
theorem afterBody_forms {t : ValueType} : ∀ {forms : List Form} {body : List Instr},
    readInstructions t forms = .ok body → ∀ (opened : List Bool) (rest : List TextToken),
    afterBody opened (allTokens forms ++ rest) = afterBody opened rest
  | [], _, _, opened, rest => rfl
  | .list items :: forms, body, h, opened, rest => by
    rw [readInstructions] at h
    obtain ⟨first, hfirst, h⟩ := bind_eq_ok_iff.mp h
    obtain ⟨others, hothers, -⟩ := bind_eq_ok_iff.mp h
    rw [allTokens, List.append_assoc, afterBody_conditional hfirst, afterBody_forms hothers]
  | .string data :: forms, body, h, opened, rest => by
    rw [readInstructions] at h
    cases h
  | .atom mnemonic :: forms, body, h, opened, rest => by
    rw [readInstructions.eq_def] at h
    dsimp only at h
    by_cases htakes : takesImmediate mnemonic = true
    · rw [if_pos htakes] at h
      split at h
      · rename_i immediate forms
        obtain ⟨first, -, h⟩ := bind_eq_ok_iff.mp h
        obtain ⟨others, hothers, -⟩ := bind_eq_ok_iff.mp h
        exact afterBody_forms hothers opened rest
      · cases h
    · rw [if_neg htakes] at h
      obtain ⟨others, hothers, -⟩ := bind_eq_ok_iff.mp h
      exact afterBody_forms hothers opened rest
termination_by forms => sizeOf forms
decreasing_by
  all_goals
    subst_vars
    simp only [List.cons.sizeOf_spec, Form.list.sizeOf_spec, Form.atom.sizeOf_spec]
    omega

theorem afterBody_conditional {t : ValueType} : ∀ {items : List Form} {body : List Instr},
    readConditional t items = .ok body → ∀ (opened : List Bool) (rest : List TextToken),
    afterBody opened ((Form.list items).tokens ++ rest) = afterBody opened rest
  | items, body, h, opened, rest => by
    rw [readConditional.eq_def] at h
    -- one part, two parts, and what is not read
    split at h
    · rename_i head first part
      split at h
      · rename_i hwords
        obtain ⟨inner, hinner, -⟩ := bind_eq_ok_iff.mp h
        simp only [Bool.and_eq_true, decide_eq_true_eq] at hwords
        obtain ⟨rfl, rfl⟩ := hwords
        calc
          _ = afterBody (false :: opened) (allTokens part ++ .rparen :: .rparen :: rest) := by
            simp [tokens, allTokens, afterBody_openIf]
          _ = afterBody opened rest := by rw [afterBody_forms hinner, afterBody_closeIf]
      · cases h
    · rename_i head first part second otherwise
      split at h
      · rename_i hwords
        obtain ⟨inner, hinner, h⟩ := bind_eq_ok_iff.mp h
        simp only [Bool.and_eq_true, decide_eq_true_eq] at hwords
        obtain ⟨rfl, rfl⟩ := hwords
        split at h
        · rename_i hsecond
          obtain ⟨other, hother, -⟩ := bind_eq_ok_iff.mp h
          subst hsecond
          calc
            _ = afterBody (false :: opened) (allTokens part ++ .rparen :: .lparen :: .atom "else" ::
                (allTokens otherwise ++ .rparen :: .rparen :: rest)) := by
              simp [tokens, allTokens, afterBody_openIf]
            _ = afterBody opened rest := by
              rw [afterBody_forms hinner, afterBody_openElse, afterBody_forms hother,
                afterBody_closeIf]
        · cases h
      · cases h
    · split at h
      · obtain ⟨inner, -, h⟩ := bind_eq_ok_iff.mp h
        cases h
      · cases h
    · cases h
termination_by items => sizeOf items
decreasing_by
  all_goals
    subst_vars
    simp only [List.cons.sizeOf_spec, Form.list.sizeOf_spec, Form.atom.sizeOf_spec]
    omega

end

section

variable {t : ValueType}

theorem Action.Spelled.readInstructions_eq {action : Action} {pieces : List TextPiece}
    {forms : List Form} (h : action.Spelled t pieces forms) :
    readInstructions t forms = .ok [action.instr.normalized t] := by
  have hreads := h.reads []
  rwa [List.append_nil, readInstructions] at hreads

/-- Where a body ends in the text. If it does not nest and still has an end, there is a parenthesis
too many after it, or a second part of no conditional. -/
theorem BodyTokens.afterBody_cases {body : List Instr} {tokens : List TextToken}
    (h : BodyTokens t body tokens) {word : Text} (hword : word ≠ "else") {opened : List Bool}
    {more after : List TextToken}
    (hafter : afterBody opened (tokens ++ .rparen :: .lparen :: .atom word :: more) = some after) :
    (nestsIn opened body = true ∧ after = .lparen :: .atom word :: more) ∨
      (∃ token rest, after = .rparen :: token :: rest) ∨
      ∃ rest, after = .lparen :: .atom "else" :: rest := by
  induction h generalizing opened with
  | nil =>
    -- behind a body that leaves a conditional open comes neither its end nor its second part
    rcases opened with _ | ⟨_ | _, outer⟩
    · cases hafter
      exact .inl ⟨rfl, rfl⟩
    · rw [List.nil_append, afterBody, if_neg hword] at hafter
      cases hafter
    · cases hafter
  | @cons instr body first tokens hfirst hbody ih =>
    rw [List.append_assoc] at hafter
    cases hfirst with
    | @act action _ _ hspelled =>
      rw [afterBody_forms hspelled.readInstructions_eq] at hafter
      rw [nestsIn_instr_cons]
      exact ih hafter
    | openIf => exact ih ((afterBody_openIf opened _).symm.trans hafter)
    | openElse =>
      rcases opened with _ | ⟨_ | _, outer⟩
      · -- the parenthesis closes the function
        cases hafter
        exact .inr (.inr ⟨_, rfl⟩)
      · exact ih ((afterBody_openElse outer _).symm.trans hafter)
      · cases hafter
    | closeIf =>
      rcases opened with _ | ⟨second, outer⟩
      · -- the first parenthesis closes the function, and the text goes on after the second
        cases hafter
        refine .inr (.inl ?_)
        cases tokens <;> exact ⟨_, _, rfl⟩
      · exact ih ((afterBody_closeIf outer _ second).symm.trans hafter)

/-! ### Functions that are read -/

/-- No form at the beginning of a body is a heading. -/
theorem BodyTokens.headOf?_eq {body : List Instr} {tokens : List TextToken}
    (h : BodyTokens t body tokens) {items forms : List Form} {after rest : List TextToken}
    (heq : allTokens (.list items :: forms) ++ .rparen :: after = tokens ++ .rparen :: rest) :
    Form.headOf? items = some "if" := by
  induction h with
  | nil => cases heq
  | @cons instr body first tokens hfirst _ ih =>
    cases hfirst with
    | @act _ _ written hspelled =>
      -- an action is written without parentheses
      rcases written with _ | ⟨_ | _ | inside, written⟩
      · exact ih heq
      · cases heq
      · cases heq
      · exact absurd List.mem_cons_self (hspelled.atoms inside)
    | openIf =>
      obtain ⟨found, others, hforms, hitems⟩ := exists_of_allTokens_lparen heq
      obtain ⟨elements, rfl, -⟩ := exists_of_allTokens_atom hitems
      cases hforms
      rfl
    | openElse => cases heq
    | closeIf => cases heq

/-- What follows a function starts no second part of a conditional. -/
theorem FunctionsTokens.exists_head {functions : List Func} {tokens : List TextToken}
    (h : FunctionsTokens t functions tokens) {word : Text} (hword : word ≠ "else")
    (more : List TextToken) : ∃ (head : Text) (rest : List TextToken), head ≠ "else" ∧
      tokens ++ .lparen :: .atom word :: more = .lparen :: .atom head :: rest := by
  cases h with
  | nil => exact ⟨word, more, hword, rfl⟩
  | cons => exact ⟨"func", _, by decide, rfl⟩

/-- A body that is read before fields that are read nests, and the fields are what was written after
it. -/
theorem BodyTokens.wellNested {body : List Instr} {tokens : List TextToken}
    (h : BodyTokens t body tokens) {word : Text} (hword : word ≠ "else")
    {more : List TextToken} {forms fields : List Form} {instructions : List Instr} {m m' : Module}
    (heq : allTokens forms ++ .rparen :: (allTokens fields ++ [TextToken.rparen]) =
      tokens ++ .rparen :: .lparen :: .atom word :: more)
    (hforms : readInstructions t forms = .ok instructions)
    (hfields : readFields m fields = .ok m') :
    WellNested body ∧ allTokens fields ++ [.rparen] = .lparen :: .atom word :: more := by
  -- what was written and what is read end in the same place
  have hafter : afterBody [] (tokens ++ .rparen :: .lparen :: .atom word :: more) =
      some (allTokens fields ++ [TextToken.rparen]) := by
    rw [← heq, afterBody_forms hforms, afterBody_rparen]
  rcases h.afterBody_cases hword hafter with hnested | ⟨token, rest, hrest⟩ | ⟨rest, hrest⟩
  · exact hnested
  · -- the module ends with its parenthesis
    cases (eq_nil_of_allTokens_rparen hrest).2
  · -- a second part is no field
    obtain ⟨items, others, rfl, hitems⟩ := exists_of_allTokens_lparen hrest
    obtain ⟨elements, rfl, -⟩ := exists_of_allTokens_atom hitems
    cases hfields

/-- Functions that are read have bodies that nest, whatever the parentheses of one body do to the
other functions. -/
theorem FunctionsTokens.wellNested {functions : List Func} {tokens : List TextToken}
    (h : FunctionsTokens t functions tokens) {word : Text} (hword : word ≠ "else")
    {more : List TextToken} {fields : List Form} {m m' : Module}
    (heq : allTokens fields ++ [TextToken.rparen] = tokens ++ .lparen :: .atom word :: more)
    (hm : m.valueType = t) (hread : readFields m fields = .ok m') :
    ∀ f ∈ functions, WellNested f.body := by
  induction h generalizing fields m with
  | nil => exact List.forall_mem_nil _
  | @cons f functions body tokens hbody hfunctions ih =>
    simp only [List.cons_append, List.append_assoc] at heq
    obtain ⟨head, rest, hhead, hrest⟩ := hfunctions.exists_head hword more
    -- the first field is the function, up to where its body starts
    obtain ⟨items, others, rfl, hitems⟩ := exists_of_allTokens_lparen heq
    obtain ⟨elements, rfl, helements⟩ := exists_of_allTokens_atom hitems
    obtain ⟨forms, rfl, hforms⟩ := exists_of_allTokens_append _ helements
    obtain ⟨m₁, hfield, hothers⟩ := bind_eq_ok_iff.mp hread
    obtain ⟨g, hfunction, hm₁⟩ := bind_eq_ok_iff.mp hfield
    cases hm₁
    subst hm
    rw [functionForms_append, readFunction_eq f] at hfunction
    · obtain ⟨instructions, hinstructions, -⟩ := bind_eq_ok_iff.mp hfunction
      rw [hrest] at hforms
      obtain ⟨hnested, heq⟩ := hbody.wellNested hhead hforms hinstructions hothers
      exact List.forall_mem_cons.mpr ⟨hnested, ih (heq.trans hrest.symm) (by rfl) hothers⟩
    · rintro items forms rfl
      exact hbody.headOf?_eq hforms

end

/-! ### Faults without words -/

namespace Form

mutual

theorem tokens_infix_of_mem_parts {part : Form} :
    ∀ form : Form, part ∈ form.parts → part.tokens <:+: form.tokens
  | atom name, h => by
    cases List.mem_singleton.mp h
    exact List.infix_refl _
  | string data, h => by
    cases List.mem_singleton.mp h
    exact List.infix_refl _
  | list items, h => by
    rcases List.mem_cons.mp h with rfl | h
    · exact List.infix_refl _
    · exact (tokens_infix_of_mem_allParts items h).trans ⟨[.lparen], [.rparen], rfl⟩

/-- The tokens of a form inside others are among theirs, in a row. -/
theorem tokens_infix_of_mem_allParts {part : Form} :
    ∀ forms : List Form, part ∈ allParts forms → part.tokens <:+: allTokens forms
  | [], h => by cases h
  | form :: forms, h => by
    rcases List.mem_append.mp h with h | h
    · exact (tokens_infix_of_mem_parts form h).trans (List.prefix_append _ _).isInfix
    · exact (tokens_infix_of_mem_allParts forms h).trans (List.suffix_append _ _).isInfix

end

end Form

/-- What follows the parenthesis of a form that may have a fault without words. -/
def StartsUnguarded (tokens : List TextToken) : Prop :=
  (∃ word ∈ (["data", "import"] : List Text), [.atom word] <+: tokens) ∨
    ∃ word ∈ elementWords, [.atom word, .rparen] <+: tokens

/-- Tokens in which no parenthesis opens such a form. -/
def Guarded : List TextToken → Prop
  | [] => True
  | .lparen :: rest => ¬ StartsUnguarded rest ∧ Guarded rest
  | _ :: rest => Guarded rest

section

variable {t : ValueType} {rest : List TextToken}

theorem Guarded.of_append {before : List TextToken} (h : Guarded (before ++ rest)) :
    Guarded rest := by
  induction before with
  | nil => exact h
  | cons token before ih =>
    cases token with
    | lparen => exact ih h.2
    | rparen | atom | string => exact ih h

/-- A parenthesis before a word with which every fault has words. -/
theorem Guarded.head {word : Text}
    (hword : word ∉ (["data", "import"] : List Text) ++ elementWords)
    (h : Guarded rest) : Guarded (.lparen :: .atom word :: rest) := by
  refine ⟨?_, h⟩
  rintro (⟨head, hhead, _, heq⟩ | ⟨head, hhead, _, heq⟩)
  · cases heq
    exact hword (List.mem_append_left elementWords hhead)
  · cases heq
    exact hword (List.mem_append_right _ hhead)

/-- A parenthesis before a word and another word. -/
theorem Guarded.heading {word text : Text}
    (hword : word ∉ (["data", "import"] : List Text)) (h : Guarded rest) :
    Guarded (.lparen :: .atom word :: .atom text :: rest) := by
  refine ⟨?_, h⟩
  rintro (⟨head, hhead, _, heq⟩ | ⟨head, hhead, _, heq⟩)
  · cases heq
    exact hword hhead
  · cases heq

theorem Guarded.of_atoms {forms : List Form} (hforms : ∀ items, .list items ∉ forms)
    (h : Guarded rest) : Guarded (allTokens forms ++ rest) := by
  induction forms with
  | nil => exact h
  | cons form forms ih =>
    have hrest := ih fun items hmem => hforms items (List.mem_cons_of_mem _ hmem)
    cases form with
    | atom | string => exact hrest
    | list items => exact absurd List.mem_cons_self (hforms items)

theorem InstrTokens.guarded {instr : Instr} {tokens : List TextToken}
    (h : InstrTokens t instr tokens) (hrest : Guarded rest) : Guarded (tokens ++ rest) := by
  cases h with
  | act hspelled => exact hrest.of_atoms hspelled.atoms
  | openIf => exact .head (by decide) (.head (by decide) hrest)
  | openElse => exact Guarded.head (by decide) hrest
  | closeIf => exact hrest

theorem BodyTokens.guarded {body : List Instr} {tokens : List TextToken}
    (h : BodyTokens t body tokens) (hrest : Guarded rest) : Guarded (tokens ++ rest) := by
  induction h with
  | nil => exact hrest
  | cons hfirst _ ih =>
    rw [List.append_assoc]
    exact hfirst.guarded ih

theorem guarded_cells {head : String} (hhead : .plain head ∉ (["data", "import"] : List Text))
    (names : List Text) (hrest : Guarded rest) :
    Guarded (allTokens (names.map (cellForm head t)) ++ rest) := by
  induction names with
  | nil => exact hrest
  | cons name names ih => exact .heading hhead ih

theorem guarded_result (result : Option ValueType) (hrest : Guarded rest) :
    Guarded (allTokens (resultForms result) ++ rest) := by
  cases result with
  | none => exact hrest
  | some r => exact .heading (by decide) hrest

theorem guarded_exports {exports : List Export}
    (h : ∀ e ∈ exports, .plain e.kind ∉ (["data", "import"] : List Text))
    (hrest : Guarded rest) : Guarded (allTokens (exports.map exportForm) ++ rest) := by
  induction exports with
  | nil => exact hrest
  | cons e exports ih =>
    obtain ⟨he, hexports⟩ := List.forall_mem_cons.mp h
    exact .head (by decide) (Guarded.heading he (ih hexports))

theorem FunctionsTokens.guarded {functions : List Func} {tokens : List TextToken}
    (h : FunctionsTokens t functions tokens) (hrest : Guarded rest) : Guarded (tokens ++ rest) := by
  induction h with
  | nil => exact hrest
  | @cons f _ _ _ hbody _ ih =>
    simp only [List.cons_append, List.append_assoc, functionForms, allTokens, Form.tokens,
      Form.allTokens_append]
    exact .head (by decide) (guarded_cells (by decide) _ (guarded_result _
      (guarded_cells (by decide) _ (hbody.guarded ih))))

end

/-- A fault in fields whose tokens are guarded has words. -/
theorem ReadError.ArisesIn.worded_of_guarded {fields : List Form} {more : List TextToken}
    {e : ReadError} (h : e.ArisesIn fields) (hguarded : Guarded (allTokens fields ++ more)) :
    e.Worded := by
  -- a form in the text is not started in one of the ways that are not guarded
  have hstarts {items : List Form} (hmem : .list items ∈ allParts fields) :
      ∃ rest, ¬ StartsUnguarded (allTokens items ++ TextToken.rparen :: rest) := by
    obtain ⟨before, after, heq⟩ := tokens_infix_of_mem_allParts fields hmem
    have hform : Guarded ((Form.list items).tokens ++ (after ++ more)) := by
      apply Guarded.of_append
      rwa [← heq, List.append_assoc, List.append_assoc] at hguarded
    refine ⟨after ++ more, ?_⟩
    rw [Form.tokens, List.cons_append, List.cons_append, List.append_assoc] at hform
    exact hform.1
  cases h with
  | worded h => exact h
  | missingElement hword hmem =>
    obtain ⟨rest, hnot⟩ := hstarts hmem
    exact absurd (.inr ⟨_, hword, List.prefix_append _ _⟩) hnot
  | offsetNotAtom hmem _ =>
    obtain ⟨rest, hnot⟩ := hstarts (subset_allParts fields hmem)
    exact absurd (.inl ⟨"data", by decide, List.prefix_append _ _⟩) hnot
  | @importNameNotUtf8 word host others hfind _ =>
    obtain ⟨rest, hnot⟩ := hstarts (subset_allParts fields (List.mem_of_find?_eq_some hfind))
    have hhead := List.find?_some hfind
    cases word with
    | atom text =>
      cases beq_iff_eq.mp hhead
      exact absurd (.inl ⟨"import", by decide, List.prefix_append _ _⟩) hnot
    | string | list => cases hhead

/-! ### Texts that were written -/

/-- The lines of a module: the fields in front of the functions are read as they are written, and
the functions have their tokens. -/
theorem exists_linesAround {m : Module} (h : m.Writable) :
    ∃ lines forms change functions tokens,
      moduleLines m = .ok (linesAround m (lines ++ functions)) ∧
      Fields m.valueType lines forms change ∧
      List.Forall₂ TextPiece.Reads (functions.flatMap TextLine.pieces) tokens ∧
      FunctionsTokens m.valueType m.functions tokens := by
  obtain ⟨memory, _, hmemory, hmemoryFields⟩ := exists_fields_memory m.valueType h.pages
  obtain ⟨_, hglobals⟩ := exists_fields_globals m.valueType h.globals
  obtain ⟨data, _, hdata, hdataFields⟩ := exists_fields_segments m.valueType h.offsets
  obtain ⟨functions, tokens, hfunctions, hreads, htokens⟩ := exists_functionsTokens h.functions
  refine ⟨_, _, _, functions, tokens, ?_, (hmemoryFields.append hglobals).append hdataFields,
    hreads, htokens⟩
  rw [moduleLines, hmemory, hdata, hfunctions]
  rfl

/-- A module that can be written has a text, which is not read if a string in it has no bytes. -/
theorem exists_writeModule {m : Module} (h : m.Writable) :
    ∃ text, writeModule m = .ok text ∧
      (¬ m.Encodable → readModule text = .error .loneSurrogate) := by
  obtain ⟨lines, forms, change, functions, tokens, hlines, hfields, hreads, -⟩ :=
    exists_linesAround h
  have hall : List.Forall₂ TextPiece.Reads ((lines ++ functions).flatMap TextLine.pieces)
      (allTokens forms ++ tokens) := by
    rw [List.flatMap_append]
    exact List.rel_append hfields.spells hreads
  exact ⟨_, writeModule_eq hlines, readModule_renderLines_eq_loneSurrogate h hall⟩

/-- The tokens of a text that was written. What comes before the functions is always read. -/
theorem exists_moduleTokens {m : Module} (h : m.Writable) (hencodable : m.Encodable) :
    ∃ text tokens before functions base, writeModule m = .ok text ∧
      tokenizeText text = .ok tokens ∧
      tokens = .lparen :: .atom "module" :: (allTokens (importForm m :: before) ++
        (functions ++ (allTokens (m.exports.map exportForm) ++ [TextToken.rparen]))) ∧
      FunctionsTokens m.valueType m.functions functions ∧ base.valueType = m.valueType ∧
      readFields { valueType := m.valueType, importModule := m.importModule }
        (importForm m :: before) = .ok base := by
  obtain ⟨lines, forms, change, functions, tokens, hlines, hfields, hreads, htokens⟩ :=
    exists_linesAround h
  have hbefore := (fields_import ⟨h.importModule, hencodable.importModule⟩).append hfields
  have hexports :=
    (fields_exports m.valueType ⟨h.entry.1, h.entry.2, hencodable.entry⟩).spells
  have hall := List.Forall₂.cons TextPiece.Reads.lparen (.cons (.word (by decide : IsWord "module"))
    (List.rel_append hbefore.spells (List.rel_append hreads
      (List.rel_append hexports (.cons .rparen .nil)))))
  have hread := hbefore.reads { valueType := m.valueType, importModule := m.importModule } rfl
  refine ⟨_, _, forms, tokens, _, writeModule_eq hlines, tokenizeText_renderLines ?_, rfl, htokens,
    hbefore.valueType_eq _ (by rfl), hread⟩
  convert hall using 1
  · simp [linesAround]
  · rfl

section

variable {m : Module} {text : Text}

/-- Reading a text that was written comes down to reading its functions and exports, unless its
parentheses do not match. -/
theorem readModule_cases (h : m.Writable) (hencodable : m.Encodable)
    (hwrite : writeModule m = .ok text) :
    (∃ e, readModule text = .error e ∧ e.Worded) ∨
      ∃ functions fields base, FunctionsTokens m.valueType m.functions functions ∧
        base.valueType = m.valueType ∧
        allTokens fields ++ [TextToken.rparen] =
          functions ++ (allTokens (m.exports.map exportForm) ++ [TextToken.rparen]) ∧
        readModule text = do
          let read ← readFields base fields
          return { read with memory := read.memory && read.data.isEmpty } := by
  obtain ⟨_, tokens, before, functions, base, hwritten, htokens, heq, hfunctions, hbase, hbefore⟩ :=
    exists_moduleTokens h hencodable
  cases hwritten.symm.trans hwrite
  have hread : readModule text = formsOf tokens >>= moduleOfForms := by
    rw [readModule, htokens]
    rfl
  rw [hread]
  cases hforms : formsOf tokens with
  | error e => exact .inl ⟨e, rfl, failsOnly_formsOf _ e hforms⟩
  | ok forms =>
    change (∃ e, moduleOfForms forms = .error e ∧ e.Worded) ∨ ∃ functions fields base, _ ∧ _ ∧ _ ∧
      moduleOfForms forms = _
    -- however the parentheses pair up, the tokens are those that were written
    have hnested := (allTokens_of_formsOf hforms).trans heq
    unfold moduleOfForms
    split
    · rename_i all
      rw [allTokens, allTokens, Form.tokens, allTokens, Form.tokens, List.append_nil,
        List.cons_append, List.cons_append] at hnested
      obtain ⟨fields, rfl, hfields⟩ := exists_of_allTokens_append _
        (List.tail_eq_of_cons_eq (List.tail_eq_of_cons_eq hnested))
      refine .inr ⟨functions, fields, base, hfunctions, hbase, hfields, ?_⟩
      rw [List.cons_append, readImport_eq ⟨h.importModule, hencodable.importModule⟩]
      change (do
        let read ← readFields _ (importForm m :: before ++ fields)
        return { read with memory := read.memory && read.data.isEmpty }) = _
      rw [Fields.readFields_append hbefore]
    · exact .inl ⟨_, rfl, rfl⟩

/-- Every body of a text that was written and is read nests. -/
theorem wellNested_of_readModule (h : m.Writable) (hencodable : m.Encodable)
    (hwrite : writeModule m = .ok text) {m' : Module} (hread : readModule text = .ok m') :
    ∀ f ∈ m.functions, WellNested f.body := by
  rcases readModule_cases h hencodable hwrite with
    ⟨e, herror, -⟩ | ⟨functions, fields, base, htokens, hbase, heq, hfields⟩
  · rw [herror] at hread
    cases hread
  · rw [hfields] at hread
    obtain ⟨read, hread, -⟩ := bind_eq_ok_iff.mp hread
    exact htokens.wellNested (by decide : Text.plain "export" ≠ "else") heq hbase hread

/-- There are words for why a text that was written is not read. -/
theorem worded_of_readModule (h : m.Writable) (hencodable : m.Encodable)
    (hwrite : writeModule m = .ok text) {e : ReadError} (hread : readModule text = .error e) :
    e.Worded := by
  rcases readModule_cases h hencodable hwrite with
    ⟨_, herror, hworded⟩ | ⟨functions, fields, base, htokens, hbase, heq, hfields⟩
  · cases herror.symm.trans hread
    exact hworded
  · have honly : FailsOnly (ReadError.ArisesIn fields) (readModule text) := by
      rw [hfields]
      exact (failsOnly_readFields base (List.Subset.refl fields)).bind_ok
    have hkinds : ∀ e ∈ m.exports, .plain e.kind ∉ (["data", "import"] : List Text) := by
      unfold Module.exports
      split <;> simp
    have hguarded : Guarded (allTokens fields ++ [TextToken.rparen]) := by
      rw [heq]
      exact htokens.guarded (guarded_exports hkinds trivial)
    exact (honly e hread).worded_of_guarded hguarded

end

/-- A module that can be written, apart from how its bodies nest, has a text. If its strings have
bytes, the text is read exactly if every body has a jump table, and then as the module, apart from
what the text does not tell. If some body has none, there are words for why the text is not read.
However the bodies nest, no text is read that has a lone surrogate in a string. -/
theorem readModule_writeModule_iff_jumpTable {m : Module} (h : m.Writable) :
    ∃ text, writeModule m = .ok text ∧
      (m.Encodable →
        ((∃ m', readModule text = .ok m') ↔
          ∀ f ∈ m.functions, ∃ jumps, jumpTable f.body = .ok jumps) ∧
        ((∃ f ∈ m.functions, ∃ trap, jumpTable f.body = .error trap) →
          ∃ e message, readModule text = .error e ∧ e.message? = some message) ∧
        ∀ m', readModule text = .ok m' → m' = m.normalized) ∧
      (¬ m.Encodable → readModule text = .error .loneSurrogate) := by
  obtain ⟨text, hwrite, hbroken⟩ := exists_writeModule h
  refine ⟨text, hwrite, fun hencodable => ?_, hbroken⟩
  have hread (hnested : ∀ f ∈ m.functions, WellNested f.body) :
      readModule text = .ok m.normalized := by
    obtain ⟨lines, hlines, hread⟩ := exists_readModule ⟨h, hnested⟩ hencodable
    cases (writeModule_eq hlines).symm.trans hwrite
    exact hread
  have hnests {m' : Module} (hm' : readModule text = .ok m') :
      ∀ f ∈ m.functions, WellNested f.body :=
    wellNested_of_readModule h hencodable hwrite hm'
  simp only [exists_jumpTable_iff]
  refine ⟨⟨?_, fun hnested => ⟨_, hread hnested⟩⟩, ?_, ?_⟩
  · rintro ⟨m', hm'⟩
    exact hnests hm'
  · rintro ⟨f, hf, trap, htrap⟩
    cases hresult : readModule text with
    | error e =>
      obtain ⟨message, hmessage⟩ :=
        Option.isSome_iff_exists.mp (worded_of_readModule h hencodable hwrite hresult)
      exact ⟨e, message, rfl, hmessage⟩
    | ok m' =>
      obtain ⟨jumps, hjumps⟩ := exists_jumpTable_iff.mpr (hnests hresult f hf)
      cases htrap.symm.trans hjumps
  · intro m' hm'
    exact Except.ok.inj (hm'.symm.trans (hread (hnests hm')))

/-- A module whose first function leaves a conditional open that its second function closes. -/
def crossed : Module where
  valueType := .i32
  entry := "first"
  importModule := "host"
  functions :=
    [{ name := "first", body := [.const (.int 0), .openIf, .bare "nop"] },
      { name := "second", body := [.openElse, .bare "nop", .closeIf] }]

theorem writable_crossed : crossed.Writable := by
  have hzero : FewDigits 0 := .of_lt 1 (by decide) (by decide)
  have hnop : (Instr.bare "nop").WellFormed .i32 := .bare (by decide) (by decide)
  have hinstructions : ∀ f ∈ crossed.functions, ∀ instr ∈ f.body, instr.WellFormed .i32 := by
    simp only [crossed, List.forall_mem_cons]
    exact ⟨⟨.const (.int rfl hzero), .openIf, hnop, List.forall_mem_nil _⟩,
      ⟨.openElse, hnop, .closeIf, List.forall_mem_nil _⟩, List.forall_mem_nil _⟩
  have hnames : ∀ f ∈ crossed.functions,
      IsName f.name ∧ (∀ param ∈ f.params, IsName param) ∧ ∀ cell ∈ f.locals, IsName cell := by
    decide
  refine ⟨by decide, by decide, by decide, List.forall_mem_nil _, (nomatch ·), fun f hf => ?_⟩
  obtain ⟨hname, hparams, hlocals⟩ := hnames f hf
  exact ⟨hname, hparams, hlocals, hinstructions f hf⟩

/-- All parentheses of the text of the crossed functions match, but it is not read. -/
theorem readModule_writeModule_crossed :
    crossed.Writable ∧ (∃ f ∈ crossed.functions, ∃ trap, jumpTable f.body = .error trap) ∧
      ∃ text e message, writeModule crossed = .ok text ∧ readModule text = .error e ∧
        e.message? = some message := by
  have htrap : ∃ f ∈ crossed.functions, ∃ trap, jumpTable f.body = .error trap :=
    ⟨_, List.mem_cons_self, _, rfl⟩
  obtain ⟨text, hwrite, hencodable, -⟩ := readModule_writeModule_iff_jumpTable writable_crossed
  obtain ⟨-, hfails, -⟩ := hencodable (by decide)
  obtain ⟨e, message, hread, hmessage⟩ := hfails htrap
  exact ⟨writable_crossed, htrap, text, e, message, hwrite, hread, hmessage⟩

/-- A module with a conditional that is closed, and an import whose name is a lone surrogate. -/
def surrogateConditional : Module where
  valueType := .i32
  entry := "main"
  importModule := .loneSurrogate
  functions := [{ name := "main", body := [.const (.int 0), .openIf, .closeIf] }]

/-- Every body has a jump table, but the text is not read. -/
theorem not_readModule_surrogateConditional :
    surrogateConditional.Writable ∧
      (∀ f ∈ surrogateConditional.functions, ∃ jumps, jumpTable f.body = .ok jumps) ∧
      ∃ text, writeModule surrogateConditional = .ok text ∧
        readModule text = .error .loneSurrogate := by
  have hzero : FewDigits 0 := .of_lt 1 (by decide) (by decide)
  have h : surrogateConditional.Writable := by
    refine ⟨by decide, by decide, by decide, nofun, nofun, List.forall_mem_singleton.mpr ?_⟩
    refine ⟨by decide, nofun, nofun, ?_⟩
    simp only [List.forall_mem_cons]
    exact ⟨.const (.int rfl hzero), .openIf, .closeIf, List.forall_mem_nil _⟩
  obtain ⟨text, hwrite, hbroken⟩ := exists_writeModule h
  exact ⟨h, List.forall_mem_singleton.mpr ⟨_, rfl⟩, text, hwrite, hbroken (by decide)⟩

end StackScript
