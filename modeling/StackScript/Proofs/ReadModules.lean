import StackScript.Proofs.Outcome
import StackScript.Proofs.TextRoundTrip

/-!
# Modules that are read

Far more texts can be read than are ever written: fields in any order, comments, numerals of every
script, words that name no instruction. What is read does not show it. Every word of a text is one
that can be written, every body that is read nests, and a constant of the module's own type is always
read as such. So a module that is read can be written, and it is read again as it is. There is one
exception: the entry is read from a word and written as a string too, and a string cannot hold the
lone surrogates that a word can.

## Main definitions

* `TextToken.IsRead`, `Form.IsRead`: what text gives.
* `Instr.IsRead`, `Func.IsRead`, `Module.IsRead`: what forms give.

## Main results

* `isRead_of_tokenizeText`: the words of a text can be written.
* `IsReadBody.of_readInstructions`: a body that is read nests.
* `Module.IsRead.of_readFields`: each field leaves a module that can be written.
* `readModule_normalizes`: a module that is read is written and read again as it is.
-/

namespace StackScript

/-! ### Tokens -/

/-- A token as text gives it: an atom is a word, and a string has at most some bytes. -/
inductive TextToken.IsRead (bound : Nat) : TextToken → Prop
  | lparen : IsRead bound .lparen
  | rparen : IsRead bound .rparen
  | atom {text : Text} : IsWord text → IsRead bound (.atom text)
  | string {data : Bytes} : data.length ≤ bound → IsRead bound (.string data)

theorem TextToken.IsRead.mono {bound bound' : Nat} {token : TextToken} (h : token.IsRead bound)
    (hbound : bound ≤ bound') : token.IsRead bound' := by
  cases h with
  | lparen => exact .lparen
  | rparen => exact .rparen
  | atom htext => exact .atom htext
  | string hdata => exact .string (hdata.trans hbound)

theorem length_utf8?_le {c : CodePoint} {bytes : Bytes} (h : c.utf8? = some bytes) :
    bytes.length ≤ 4 := by
  cases c with
  | char c =>
    cases h
    rw [String.length_utf8EncodeChar]
    exact c.utf8Size_le_four
  | surrogate => cases h

theorem length_data_of_readString {text after : List CodePoint} {data : Bytes}
    (h : readString text = .ok (data, after)) : data.length ≤ 4 * text.length := by
  -- An escape takes two characters or more for a byte, any other character gives four bytes or fewer.
  fun_induction readString text generalizing data after with
  | case1 | case3 | case5 | case7 | case9 => cases h
  | case2 rest =>
    cases h
    exact Nat.zero_le _
  | case4 c rest b hb ih | case6 c hc d rest b hb ih =>
    obtain ⟨⟨data, after⟩, hrest, h⟩ := bind_eq_ok_iff.mp h
    cases h
    have hlength := ih hrest
    simp only [List.length_cons]
    omega
  | case8 c rest _ _ _ bytes hbytes ih =>
    obtain ⟨⟨data, after⟩, hrest, h⟩ := bind_eq_ok_iff.mp h
    cases h
    have hlength := ih hrest
    have hpoint := length_utf8?_le hbytes
    simp only [List.length_cons, List.length_append]
    omega

/-- The token at a character. -/
theorem isRead_of_nextPiece {total : Nat} {c : CodePoint} {rest after : List CodePoint}
    {token : TextToken}
    (h : nextPiece total c rest = .ok (some token, after)) :
    token.IsRead (4 * rest.length) := by
  unfold nextPiece at h
  by_cases hseparator : c.satisfies isSeparator = true
  · rw [if_pos hseparator] at h
    cases h
  by_cases hsemicolon : c = .char ';'
  · rw [if_neg hseparator, if_pos hsemicolon] at h
    split at h <;> cases h
  by_cases hopen : c = .char '('
  · rw [if_neg hseparator, if_neg hsemicolon, if_pos hopen] at h
    split at h
    · split at h <;> cases h
    · cases h
      exact .lparen
  by_cases hclose : c = .char ')'
  · rw [if_neg hseparator, if_neg hsemicolon, if_neg hopen, if_pos hclose] at h
    cases h
    exact .rparen
  by_cases hquote : c = .char '"'
  · rw [if_neg hseparator, if_neg hsemicolon, if_neg hopen, if_neg hclose, if_pos hquote] at h
    obtain ⟨⟨data, after⟩, hstring, h⟩ := bind_eq_ok_iff.mp h
    cases h
    exact .string (length_data_of_readString hstring)
  · rw [if_neg hseparator, if_neg hsemicolon, if_neg hopen, if_neg hclose, if_neg hquote] at h
    cases h
    have hc : isAtomPoint c = true := isAtomPoint_iff.mpr
      ⟨Bool.eq_false_iff.mpr hseparator, hopen, hclose, hquote, hsemicolon⟩
    -- Nothing else starts with this character, and the atom goes on as long as that holds.
    refine .atom ⟨by simp, ?_⟩
    rw [Text.points_ofPoints]
    exact List.forall_mem_cons.mpr ⟨hc, List.all_eq_true.mp List.all_takeWhile⟩

theorem isRead_of_textTokens {total : Nat} {text : List CodePoint} {tokens : List TextToken}
    (h : textTokens total text = .ok tokens) : ∀ token ∈ tokens, token.IsRead (4 * text.length) := by
  cases text with
  | nil =>
    rw [textTokens] at h
    cases h
    simp
  | cons c rest =>
    rw [textTokens] at h
    split at h
    · cases h
    · -- a blank or a comment, which gives no token
      rename_i after hpiece
      have hless := length_nextPiece_le hpiece
      intro token htoken
      refine (isRead_of_textTokens h token htoken).mono ?_
      simp only [List.length_cons]
      omega
    · -- the first token, with the others read from a shorter text
      rename_i first after hpiece
      have hless := length_nextPiece_le hpiece
      obtain ⟨others, hothers, rfl⟩ := map_eq_ok_iff.mp h
      have hmono : 4 * rest.length ≤ 4 * (c :: rest).length := by simp
      refine List.forall_mem_cons.mpr ⟨(isRead_of_nextPiece hpiece).mono hmono, ?_⟩
      intro token htoken
      exact (isRead_of_textTokens hothers token htoken).mono (by simp only [List.length_cons]; omega)
termination_by text.length
decreasing_by all_goals (subst_vars; simp only [List.length_cons]; omega)

/-- The words of a text can be written, and its strings are no longer than it allows. -/
theorem isRead_of_tokenizeText {text : Text} {tokens : List TextToken}
    (h : tokenizeText text = .ok tokens) : ∀ token ∈ tokens, token.IsRead (4 * text.length) :=
  isRead_of_textTokens h

/-! ### Forms -/

/-- A form as text gives it. -/
def Form.IsRead (bound : Nat) (form : Form) : Prop :=
  ∀ token ∈ form.tokens, token.IsRead bound

/-- Forms as text gives them. -/
def AllRead (bound : Nat) (forms : List Form) : Prop :=
  ∀ form ∈ forms, form.IsRead bound

section

variable {bound : Nat}

theorem allRead_iff {forms : List Form} :
    AllRead bound forms ↔ ∀ token ∈ Form.allTokens forms, token.IsRead bound := by
  induction forms with
  | nil => simp [AllRead, Form.allTokens]
  | cons form forms ih =>
    rw [Form.allTokens, List.forall_mem_append, ← ih]
    exact List.forall_mem_cons

theorem AllRead.cons {form : Form} {forms : List Form} (h : AllRead bound (form :: forms)) :
    form.IsRead bound ∧ AllRead bound forms :=
  List.forall_mem_cons.mp h

theorem Form.IsRead.isWord {text : Text} (h : (Form.atom text).IsRead bound) : IsWord text := by
  cases h _ List.mem_cons_self with
  | atom htext => exact htext

theorem Form.IsRead.length_le {data : Bytes} (h : (Form.string data).IsRead bound) :
    data.length ≤ bound := by
  cases h _ List.mem_cons_self with
  | string hdata => exact hdata

theorem Form.IsRead.items {items : List Form} (h : (Form.list items).IsRead bound) :
    AllRead bound items := by
  rw [allRead_iff]
  intro token htoken
  exact h token (List.mem_cons_of_mem _ (List.mem_append_left _ htoken))

/-- The first element of a list. -/
theorem isRead_of_firstElement {elements : List Form} {form : Form} (helements : AllRead bound elements)
    (h : firstElement elements = .ok form) : form.IsRead bound := by
  cases elements with
  | nil => cases h
  | cons first rest =>
    cases h
    exact helements.cons.1

/-- A name that is read can be written. -/
theorem isName_of_asName {form : Form} {name : Text} (hform : form.IsRead bound)
    (h : form.asName = .ok name) : IsName name := by
  unfold Form.asName at h
  split at h
  · rename_i text
    split at h
    · rename_i rest htext
      cases h
      have hword := hform.isWord.points
      rw [htext] at hword
      rw [IsName, Text.points_ofPoints]
      exact (List.forall_mem_cons.mp hword).2
    · cases h
  · cases h

end

/-! ### Numbers -/

theorem natOfDigits_lt {digits : List Char} (h : digits.all Char.isDigit = true) :
    Numeral.natOfDigits digits < 10 ^ digits.length := by
  -- Each further digit is below ten, whatever the value so far.
  have hfold (n : Nat) : digits.foldl (fun n c => 10 * n + (c.toNat - '0'.toNat)) n <
      (n + 1) * 10 ^ digits.length := by
    induction digits generalizing n with
    | nil => simp
    | cons c digits ih =>
      rw [List.all_cons, Bool.and_eq_true] at h
      have hdigit : c.toNat - '0'.toNat < 10 := by
        have hrange := h.1
        simp only [Char.isDigit, Bool.and_eq_true, decide_eq_true_eq] at hrange
        have htop : c.toNat ≤ 57 := hrange.2
        have hzero : '0'.toNat = 48 := rfl
        omega
      calc digits.foldl _ (10 * n + (c.toNat - '0'.toNat))
          < (10 * n + (c.toNat - '0'.toNat) + 1) * 10 ^ digits.length := ih h.2 _
        _ ≤ ((n + 1) * 10) * 10 ^ digits.length := Nat.mul_le_mul_right _ (by omega)
        _ = (n + 1) * 10 ^ (c :: digits).length := by
          rw [List.length_cons, Nat.pow_succ', Nat.mul_assoc]
  exact (hfold 0).trans_eq (by rw [Nat.zero_add, Nat.one_mul])

/-- An integer that is read has few digits. -/
theorem fewDigits_of_integer? {text : String} {n : Int} (h : Numeral.integer? text = some n) :
    FewDigits n := by
  unfold Numeral.integer? at h
  obtain ⟨characters, -, h⟩ := Option.bind_eq_some_iff.mp h
  dsimp only at h
  split at h
  · cases h
  · rename_i hdigits
    simp only [Bool.or_eq_true, not_or, Bool.not_eq_true', Bool.not_eq_false,
      decide_eq_true_eq] at hdigits
    obtain ⟨⟨-, hall⟩, hlength⟩ := hdigits
    -- the number of digits is checked before they are read
    have hlt := natOfDigits_lt hall
    have hpow : 10 ^ (Numeral.splitSign characters).2.length ≤ 10 ^ Numeral.maxDigits :=
      Nat.pow_le_pow_right (by decide) (Nat.le_of_not_lt hlength)
    cases h
    unfold FewDigits
    split
    · rw [Int.natAbs_neg, Int.natAbs_natCast]
      exact hlt.trans_le hpow
    · rw [Int.natAbs_natCast]
      exact hlt.trans_le hpow

/-- A number that is read as a constant of a type is one. -/
theorem isConstant_of_readNumber {t : ValueType} {text : Text} {d : Datum}
    (h : readNumber t.isFloat text = .ok d) : d.IsConstant t := by
  unfold readNumber at h
  dsimp only at h
  split at h
  · rename_i number hnumber
    cases h
    obtain ⟨numeral, -, hnumber⟩ := Option.bind_eq_some_iff.mp hnumber
    split at hnumber
    · rename_i hfloat
      obtain ⟨x, -, rfl⟩ := Option.map_eq_some_iff.mp hnumber
      exact .real hfloat
    split at hnumber
    · rename_i hfloat _
      obtain ⟨n, hinteger, rfl⟩ := Option.map_eq_some_iff.mp hnumber
      exact .int (Bool.eq_false_iff.mpr hfloat) (fewDigits_of_integer? hinteger)
    · cases hnumber
  · cases h

/-! ### Function bodies -/

/-- An instruction as text gives it: it can be written, and is read as it is. -/
structure Instr.IsRead (t : ValueType) (instr : Instr) : Prop where
  wellFormed : instr.WellFormed t
  normalized_eq : instr.normalized t = instr

theorem mem_namedMnemonics {mnemonic : Text} (htakes : takesImmediate mnemonic = true)
    (hcall : mnemonic ≠ "call") (hlookup : constMnemonics.lookup mnemonic = none) :
    mnemonic ∈ namedMnemonics := by
  simpa [takesImmediate, hcall, hlookup] using htakes

section

variable {t : ValueType} {bound : Nat}

/-- An instruction with an immediate is no marker. -/
theorem isRead_of_readImmediate {mnemonic atom : Text} {instr : Instr}
    (htakes : takesImmediate mnemonic = true) (hatom : (Form.atom atom).IsRead bound)
    (h : readImmediate t mnemonic atom = .ok instr) :
    ∃ action : Action, action.instr = instr ∧ instr.IsRead t := by
  unfold readImmediate at h
  by_cases hcall : mnemonic = "call"
  · rw [if_pos hcall] at h
    obtain ⟨name, hname, h⟩ := bind_eq_ok_iff.mp h
    cases h
    exact ⟨.call name, rfl, .call (isName_of_asName hatom hname), rfl⟩
  rw [if_neg hcall] at h
  split at h
  · rename_i u hlookup
    obtain ⟨number, hnumber, h⟩ := bind_eq_ok_iff.mp h
    obtain rfl := eq_mnemonic_of_lookup hlookup
    have hconstant := isConstant_of_readNumber hnumber
    cases h
    -- Only the constants of the module's own type lose their mnemonic.
    by_cases hu : u = t
    · rw [if_pos hu]
      exact ⟨.const number, rfl, .const (hu ▸ hconstant), rfl⟩
    · rw [if_neg hu]
      exact ⟨.plain _ number, rfl, .constant hconstant,
        normalized_of_ne fun heq => hu (mnemonic_const_inj heq)⟩
  · rename_i hlookup
    obtain ⟨name, hname, h⟩ := bind_eq_ok_iff.mp h
    cases h
    have hmem := mem_namedMnemonics htakes hcall hlookup
    exact ⟨.named mnemonic name, rfl, .named hmem (isName_of_asName hatom hname),
      normalized_of_ne (ne_const_of_mem_namedMnemonics hmem t)⟩

/-- A body as text gives it. -/
structure IsReadBody (t : ValueType) (body : List Instr) : Prop where
  exists_code : ∃ c : Code, c.flatten = body
  instructions : ∀ instr ∈ body, instr.IsRead t

namespace IsReadBody

variable {body more : List Instr}

theorem nil : IsReadBody t [] := ⟨⟨.done, rfl⟩, by simp⟩

theorem cons {action : Action} (haction : action.instr.IsRead t) (h : IsReadBody t body) :
    IsReadBody t (action.instr :: body) := by
  obtain ⟨⟨c, rfl⟩, hbody⟩ := h
  exact ⟨⟨.act action c, rfl⟩, List.forall_mem_cons.mpr ⟨haction, hbody⟩⟩

theorem append (h : IsReadBody t body) (hmore : IsReadBody t more) :
    IsReadBody t (body ++ more) := by
  obtain ⟨⟨c, rfl⟩, hbody⟩ := h
  obtain ⟨⟨d, rfl⟩, hmore⟩ := hmore
  exact ⟨⟨c ++ d, Code.flatten_append c d⟩, List.forall_mem_append.mpr ⟨hbody, hmore⟩⟩

theorem ifThen (h : IsReadBody t body) : IsReadBody t (.openIf :: body ++ [.closeIf]) := by
  obtain ⟨⟨c, rfl⟩, hbody⟩ := h
  refine ⟨⟨.ifThen c .done, rfl⟩, ?_⟩
  exact List.forall_mem_append.mpr ⟨List.forall_mem_cons.mpr ⟨⟨.openIf, rfl⟩, hbody⟩,
    List.forall_mem_singleton.mpr ⟨.closeIf, rfl⟩⟩

theorem ifElse (h : IsReadBody t body) (hmore : IsReadBody t more) :
    IsReadBody t (.openIf :: body ++ .openElse :: more ++ [.closeIf]) := by
  obtain ⟨⟨c, rfl⟩, hbody⟩ := h
  obtain ⟨⟨d, rfl⟩, hmore⟩ := hmore
  refine ⟨⟨.ifElse c d .done, rfl⟩, ?_⟩
  exact List.forall_mem_append.mpr ⟨List.forall_mem_append.mpr
    ⟨List.forall_mem_cons.mpr ⟨⟨.openIf, rfl⟩, hbody⟩,
      List.forall_mem_cons.mpr ⟨⟨.openElse, rfl⟩, hmore⟩⟩,
    List.forall_mem_singleton.mpr ⟨.closeIf, rfl⟩⟩

mutual

/-- A body that is read nests, and can be written. -/
theorem of_readInstructions : ∀ {forms : List Form} {body : List Instr}, AllRead bound forms →
    readInstructions t forms = .ok body → IsReadBody t body
  | [], body, _, h => by
    rw [readInstructions] at h
    cases h
    exact .nil
  | .list items :: rest, body, hforms, h => by
    rw [readInstructions] at h
    obtain ⟨first, hfirst, h⟩ := bind_eq_ok_iff.mp h
    obtain ⟨others, hothers, h⟩ := bind_eq_ok_iff.mp h
    cases h
    -- a conditional reads as its marks with the two bodies between them
    exact (of_readConditional hforms.cons.1.items hfirst).append
      (of_readInstructions hforms.cons.2 hothers)
  | .string data :: rest, body, _, h => by
    rw [readInstructions] at h
    cases h
  | .atom mnemonic :: rest, body, hforms, h => by
    rw [readInstructions.eq_def] at h
    dsimp only at h
    by_cases htakes : takesImmediate mnemonic = true
    · rw [if_pos htakes] at h
      split at h
      · rename_i immediate rest
        obtain ⟨first, hfirst, h⟩ := bind_eq_ok_iff.mp h
        obtain ⟨others, hothers, h⟩ := bind_eq_ok_iff.mp h
        cases h
        obtain ⟨hatom, hrest⟩ := hforms.cons.2.cons
        obtain ⟨action, rfl, haction⟩ := isRead_of_readImmediate htakes hatom hfirst
        exact .cons haction (of_readInstructions hrest hothers)
      · cases h
    · -- Any other word is an instruction, whether one of this name exists or not.
      rw [if_neg htakes] at h
      obtain ⟨others, hothers, h⟩ := bind_eq_ok_iff.mp h
      cases h
      have hbare := Bool.eq_false_iff.mpr htakes
      have haction : (Action.bare mnemonic).instr.IsRead t :=
        ⟨.bare hforms.cons.1.isWord hbare, normalized_of_ne (ne_const_of_takesImmediate hbare t)⟩
      exact .cons haction (of_readInstructions hforms.cons.2 hothers)
termination_by forms => sizeOf forms
decreasing_by
  all_goals
    subst_vars
    simp only [List.cons.sizeOf_spec, Form.list.sizeOf_spec, Form.atom.sizeOf_spec]
    omega

theorem of_readConditional : ∀ {items : List Form} {body : List Instr}, AllRead bound items →
    readConditional t items = .ok body → IsReadBody t body
  | items, body, hitems, h => by
    rw [readConditional.eq_def] at h
    -- One branch, two branches, a second branch that is none, and all else, which is not read.
    split at h
    · rename_i head first part
      split at h
      · obtain ⟨inner, hinner, h⟩ := bind_eq_ok_iff.mp h
        cases h
        exact (of_readInstructions hitems.cons.2.cons.1.items.cons.2 hinner).ifThen
      · cases h
    · rename_i head first part second otherwise
      split at h
      · obtain ⟨inner, hinner, h⟩ := bind_eq_ok_iff.mp h
        split at h
        · obtain ⟨other, hother, h⟩ := bind_eq_ok_iff.mp h
          cases h
          exact (of_readInstructions hitems.cons.2.cons.1.items.cons.2 hinner).ifElse
            (of_readInstructions hitems.cons.2.cons.2.cons.1.items.cons.2 hother)
        · cases h
      · cases h
    · split at h
      · obtain ⟨inner, hinner, h⟩ := bind_eq_ok_iff.mp h
        cases h
      · cases h
    · cases h
termination_by items => sizeOf items
decreasing_by
  all_goals
    subst_vars
    simp only [List.cons.sizeOf_spec, Form.list.sizeOf_spec, Form.atom.sizeOf_spec]
    omega

end

end IsReadBody

/-! ### Functions -/

/-- A function as text gives it. -/
structure Func.IsRead (t : ValueType) (f : Func) : Prop where
  writable : f.Writable t
  nested : WellNested f.body
  normalized_eq : f.normalized t = f

/-- The headings of a function as text gives them. -/
structure Func.HasNames (f : Func) : Prop where
  name : IsName f.name
  params : ∀ param ∈ f.params, IsName param
  locals : ∀ cell ∈ f.locals, IsName cell

namespace Func.HasNames

variable {f : Func} {name : Text}

theorem addParam (h : f.HasNames) (hname : IsName name) :
    { f with params := f.params ++ [name] }.HasNames :=
  ⟨h.name, List.forall_mem_append.mpr ⟨h.params, List.forall_mem_singleton.mpr hname⟩, h.locals⟩

theorem addLocal (h : f.HasNames) (hname : IsName name) :
    { f with locals := f.locals ++ [name] }.HasNames :=
  ⟨h.name, h.params, List.forall_mem_append.mpr ⟨h.locals, List.forall_mem_singleton.mpr hname⟩⟩

/-- The headings and a body make a function. -/
theorem isRead (h : f.HasNames) {body : List Instr} (hbody : IsReadBody t body) :
    { f with body := body }.IsRead t := by
  refine ⟨⟨h.name, h.params, h.locals,
    fun instr hinstr => (hbody.instructions instr hinstr).wellFormed⟩,
    wellNested_iff_exists_code.mpr hbody.exists_code, ?_⟩
  have hsame : body.map (Instr.normalized t) = body.map id :=
    List.map_congr_left fun instr hinstr => (hbody.instructions instr hinstr).normalized_eq
  unfold Func.normalized
  rw [hsame, List.map_id]

end Func.HasNames

theorem isRead_of_readHeadings {f f' : Func} {forms : List Form} (hf : f.HasNames)
    (hforms : AllRead bound forms) (h : readHeadings t f forms = .ok f') : f'.IsRead t := by
  -- The headings add to the function in any order, and the first form that is none starts the body.
  induction forms generalizing f with
  | nil =>
    obtain ⟨body, hbody, h⟩ := bind_eq_ok_iff.mp h
    cases h
    exact hf.isRead (.of_readInstructions hforms hbody)
  | cons form rest ih =>
    unfold readHeadings at h
    split at h
    · rename_i head elements rest' heq
      cases heq
      have helements := hforms.cons.1.items.cons.2
      split at h
      · obtain ⟨element, helement, h⟩ := bind_eq_ok_iff.mp h
        obtain ⟨name, hname, h⟩ := bind_eq_ok_iff.mp h
        have hname := isName_of_asName (isRead_of_firstElement helements helement) hname
        exact ih (hf.addParam hname) hforms.cons.2 h
      split at h
      · obtain ⟨element, -, h⟩ := bind_eq_ok_iff.mp h
        obtain ⟨result, -, h⟩ := bind_eq_ok_iff.mp h
        have hresult : { f with result := some result }.HasNames := ⟨hf.name, hf.params, hf.locals⟩
        exact ih hresult hforms.cons.2 h
      split at h
      · obtain ⟨element, helement, h⟩ := bind_eq_ok_iff.mp h
        obtain ⟨name, hname, h⟩ := bind_eq_ok_iff.mp h
        have hname := isName_of_asName (isRead_of_firstElement helements helement) hname
        exact ih (hf.addLocal hname) hforms.cons.2 h
      · obtain ⟨body, hbody, h⟩ := bind_eq_ok_iff.mp h
        cases h
        exact hf.isRead (.of_readInstructions hforms hbody)
    · obtain ⟨body, hbody, h⟩ := bind_eq_ok_iff.mp h
      cases h
      exact hf.isRead (.of_readInstructions hforms hbody)

theorem isRead_of_readFunction {f : Func} {forms : List Form} (hforms : AllRead bound forms)
    (h : readFunction t forms = .ok f) : f.IsRead t := by
  cases forms with
  | nil => cases h
  | cons form rest =>
    obtain ⟨name, hname, h⟩ := bind_eq_ok_iff.mp h
    exact isRead_of_readHeadings ⟨isName_of_asName hforms.cons.1 hname, by simp, by simp⟩
      hforms.cons.2 h

/-! ### Fields -/

theorem isName_of_readGlobal {g : Global} {forms : List Form} (hforms : AllRead bound forms)
    (h : readGlobal forms = .ok g) : IsName g.name := by
  unfold readGlobal at h
  split at h
  · obtain ⟨name, hname, h⟩ := bind_eq_ok_iff.mp h
    have hname := isName_of_asName hforms.cons.1 hname
    split at h
    · obtain ⟨element, -, h⟩ := bind_eq_ok_iff.mp h
      obtain ⟨type, -, h⟩ := bind_eq_ok_iff.mp h
      cases h
      exact hname
    · obtain ⟨type, -, h⟩ := bind_eq_ok_iff.mp h
      cases h
      exact hname
  · cases h

theorem isRead_of_readData {segment : Segment} {forms : List Form} (hforms : AllRead bound forms)
    (h : readData forms = .ok segment) :
    FewDigits segment.offset ∧ segment.data.length ≤ bound := by
  unfold readData at h
  split at h
  · split at h
    · obtain ⟨number, hnumber, h⟩ := bind_eq_ok_iff.mp h
      have hconstant : number.IsConstant .i32 := isConstant_of_readNumber hnumber
      cases hconstant with
      | int _ hdigits =>
        cases h
        exact ⟨hdigits, hforms.cons.2.cons.1.length_le⟩
      | real hfloat => cases hfloat
    · cases h
  · cases h

/-- A module as text gives it, while its fields are read. -/
structure Module.IsRead (bound : Nat) (m : Module) : Prop where
  importModule : m.importModule.IsString
  entry : IsName m.entry
  globals : ∀ g ∈ m.globals, IsName g.name
  segments : ∀ segment ∈ m.data, FewDigits segment.offset ∧ segment.data.length ≤ bound
  functions : ∀ f ∈ m.functions, f.IsRead m.valueType

namespace Module.IsRead

variable {m m' : Module}

theorem of_readExport {forms : List Form} (hm : m.IsRead bound) (hforms : AllRead bound forms)
    (h : readExport m forms = .ok m') : m'.IsRead bound := by
  unfold readExport at h
  split at h
  · split at h
    · obtain ⟨name, hname, h⟩ := bind_eq_ok_iff.mp h
      cases h
      have hreference := hforms.cons.2.cons.1.items.cons.2.cons.1
      exact { hm with entry := isName_of_asName hreference hname }
    · cases h
      exact hm
    · cases h
  · cases h

theorem of_readField {form : Form} (hm : m.IsRead bound) (hform : form.IsRead bound)
    (h : readField m form = .ok m') : m'.IsRead bound := by
  unfold readField at h
  split at h
  · -- each kind of field adds to one list of the module and keeps the others
    rename_i head elements
    have helements := hform.items.cons.2
    split at h
    · cases h
      exact hm
    · cases h
      exact ⟨hm.importModule, hm.entry, hm.globals, hm.segments, hm.functions⟩
    · obtain ⟨g, hg, h⟩ := bind_eq_ok_iff.mp h
      cases h
      refine { hm with globals := List.forall_mem_append.mpr ⟨hm.globals, ?_⟩ }
      exact List.forall_mem_singleton.mpr (isName_of_readGlobal helements hg)
    · obtain ⟨segment, hsegment, h⟩ := bind_eq_ok_iff.mp h
      cases h
      refine { hm with segments := List.forall_mem_append.mpr ⟨hm.segments, ?_⟩ }
      exact List.forall_mem_singleton.mpr (isRead_of_readData helements hsegment)
    · obtain ⟨f, hf, h⟩ := bind_eq_ok_iff.mp h
      cases h
      refine { hm with functions := List.forall_mem_append.mpr ⟨hm.functions, ?_⟩ }
      exact List.forall_mem_singleton.mpr (isRead_of_readFunction helements hf)
    · exact hm.of_readExport helements h
    · cases h
  · cases h

/-- Each field leaves a module that can be written. -/
theorem of_readFields {forms : List Form} (hm : m.IsRead bound) (hforms : AllRead bound forms)
    (h : readFields m forms = .ok m') : m'.IsRead bound := by
  induction forms generalizing m with
  | nil =>
    cases h
    exact hm
  | cons form rest ih =>
    obtain ⟨next, hnext, h⟩ := bind_eq_ok_iff.mp h
    exact ih (hm.of_readField hforms.cons.1 hnext) hforms.cons.2 h

end Module.IsRead

theorem isRead_of_readImport {fields : List Form} {m : Module} (h : readImport fields = .ok m) :
    m.IsRead bound := by
  unfold readImport at h
  split at h
  · cases h
  split at h
  · cases h
  split at h
  · obtain ⟨type, -, h⟩ := bind_eq_ok_iff.mp h
    split at h
    · cases h
      -- Without an export the entry is that of a script.
      have hentry : IsName EntryStyle.script.functionName := by decide
      exact ⟨rfl, hentry, by simp, by simp, by simp⟩
    · cases h
  · cases h

/-! ### Modules -/

/-- A module that is read is not changed by being written and read. -/
theorem Module.IsRead.normalized_eq {m : Module} (h : m.IsRead bound)
    (hmemory : m.memory = (m.memory && m.data.isEmpty)) : m.normalized = m := by
  have hfunctions : m.functions.map (Func.normalized m.valueType) = m.functions.map id :=
    List.map_congr_left fun f hf => (h.functions f hf).normalized_eq
  unfold Module.normalized
  rw [hfunctions, List.map_id, ← hmemory]

/-- The pages for data whose place and length are bounded. -/
theorem Module.IsRead.fewDigits_memoryPages {m : Module} (h : m.IsRead bound)
    (hbound : bound < 4 * 10 ^ Numeral.maxDigits) : FewDigits m.memoryPages := by
  have hone : 1 < 10 ^ Numeral.maxDigits := Nat.one_lt_pow (by decide) (by decide)
  have hsize : m.dataSize.natAbs < 5 * 10 ^ Numeral.maxDigits := by
    unfold Module.dataSize
    split
    · rename_i segment hlast
      obtain ⟨hoffset, hlength⟩ := h.segments segment (List.mem_of_getLast? hlast)
      unfold FewDigits at hoffset
      omega
    · simp
  -- A page has more than five bytes, so there are fewer pages than the bound of the offsets.
  unfold FewDigits Module.memoryPages pageSize
  omega

theorem Module.IsRead.wellFormed {m : Module} (h : m.IsRead bound)
    (hbound : bound < 4 * 10 ^ Numeral.maxDigits) (himport : IsUnquoted m.importModule)
    (hentry : IsUnquoted m.entry) : m.WellFormed where
  entry := ⟨h.entry, hentry⟩
  importModule := himport
  globals := h.globals
  offsets := fun segment hsegment => (h.segments segment hsegment).1
  pages := fun _ => h.fewDigits_memoryPages hbound
  functions := fun f hf => (h.functions f hf).writable
  nested := fun f hf => (h.functions f hf).nested

end

/-- What text gives. The memory that is asked for counts only without data. -/
theorem isRead_of_readModule {text : Text} {m : Module} (h : readModule text = .ok m) :
    m.IsRead (4 * text.length) ∧ m.memory = (m.memory && m.data.isEmpty) := by
  obtain ⟨tokens, htokens, h⟩ := bind_eq_ok_iff.mp h
  obtain ⟨forms, hforms, h⟩ := bind_eq_ok_iff.mp h
  have hread : AllRead (4 * text.length) forms := by
    rw [allRead_iff, allTokens_of_formsOf hforms]
    exact isRead_of_tokenizeText htokens
  unfold moduleOfForms at h
  split at h
  · rename_i fields
    obtain ⟨imported, himported, h⟩ := bind_eq_ok_iff.mp h
    obtain ⟨last, hlast, h⟩ := bind_eq_ok_iff.mp h
    cases h
    have hfields := hread.cons.1.items.cons.2
    have hm := (isRead_of_readImport himported).of_readFields hfields hlast
    refine ⟨⟨hm.importModule, hm.entry, hm.globals, hm.segments, hm.functions⟩, ?_⟩
    cases last.memory <;> cases last.data.isEmpty <;> rfl
  · cases h

/-- A module that is read can be written. It is read again as it is, unless its entry has a name
without bytes: the name of the import has been read from bytes. -/
theorem exists_readModule_of_readModule {text : Text} {m : Module} (h : readModule text = .ok m)
    (hsize : text.length < 10 ^ Numeral.maxDigits) (himport : IsUnquoted m.importModule)
    (hentry : IsUnquoted m.entry) :
    ∃ text', writeModule m = .ok text' ∧
      readModule text' = if m.entry.IsString then .ok m else .error .loneSurrogate := by
  obtain ⟨hread, hmemory⟩ := isRead_of_readModule h
  have hencodable : m.Encodable ↔ m.entry.IsString :=
    ⟨fun h => h.entry, fun hname => ⟨hread.importModule, hname⟩⟩
  obtain ⟨lines, hlines, hagain⟩ :=
    exists_readModule_eq (hread.wellFormed (by omega) himport hentry)
  simp only [hread.normalized_eq hmemory, hencodable] at hagain
  exact ⟨renderLines lines, writeModule_eq hlines, hagain⟩

/-- A module that is read has bodies that nest, and is written and read again as it is. Only if
there is a lone surrogate in the name of its entry, what is written is not read. The bound on the
text is that of the page counts that can be written. -/
theorem readModule_normalizes {text : Text} {m : Module} (h : readModule text = .ok m)
    (hsize : text.length < 10 ^ Numeral.maxDigits) (himport : IsUnquoted m.importModule)
    (hentry : IsUnquoted m.entry) :
    (∀ f ∈ m.functions, WellNested f.body ∧ ∃ jumps, jumpTable f.body = .ok jumps) ∧
      ∃ text', writeModule m = .ok text' ∧
        readModule text' = if m.entry.IsString then .ok m else .error .loneSurrogate := by
  refine ⟨fun f hf => ?_, exists_readModule_of_readModule h hsize himport hentry⟩
  have hnested := ((isRead_of_readModule h).1.functions f hf).nested
  obtain ⟨c, hc⟩ := wellNested_iff_exists_code.mp hnested
  exact ⟨hnested, c.jumps 0, hc ▸ jumpTable_flatten c⟩

/-- A text that is not laid out as a written one: a comment, the import behind a function, few blanks,
a word that names no instruction, and a sign and a digit of another script. -/
def unusualText : Text :=
  "(module(func $f(if(then hum i64.const +٣)))(;any;)(import\"h\"\"log\"(func $g(param f64))))"

/-- The unusual text is read, and rewriting it lays it out. -/
theorem readModule_normalizes_unusualText :
    ∃ m text', readModule unusualText = .ok m ∧ writeModule m = .ok text' ∧ text' ≠ unusualText ∧
      readModule text' = .ok m := by
  have hok : (readModule unusualText).toOption.any (fun m => IsPlain m.importModule ∧
      IsPlain m.entry ∧ (writeModule m).toOption ≠ some unusualText) = true := by
    decide +kernel
  have hsize : unusualText.length < 10 ^ Numeral.maxDigits :=
    Numeral.lt_pow_maxDigits 3 (by decide +kernel) (by decide)
  obtain ⟨m, h, hok⟩ := exists_of_any_toOption hok
  obtain ⟨himport, hentry, hwritten⟩ := of_decide_eq_true hok
  obtain ⟨-, text', hwrite, hread⟩ :=
    readModule_normalizes h hsize himport.isUnquoted hentry.isUnquoted
  rw [if_pos hentry.isString] at hread
  refine ⟨m, text', h, hwrite, ?_, hread⟩
  rintro rfl
  exact hwritten (congrArg Except.toOption hwrite)

/-- A text that makes a function its entry whose name is a lone surrogate. -/
def surrogateEntry : Text :=
  "(module(import\"h\"\"log\"(func $g(param f64)))(export\"x\"(func $" ++ .loneSurrogate ++ ")))"

/-- A name that was read as a word may not be read as a string. -/
theorem not_readModule_surrogateEntry :
    ∃ m text', readModule surrogateEntry = .ok m ∧ IsUnquoted m.importModule ∧
      IsUnquoted m.entry ∧ writeModule m = .ok text' ∧
      readModule text' = .error .loneSurrogate := by
  have hok : (readModule surrogateEntry).toOption.any (fun m => IsUnquoted m.importModule ∧
      IsUnquoted m.entry ∧ ¬ m.entry.IsString) = true := by
    decide +kernel
  have hsize : surrogateEntry.length < 10 ^ Numeral.maxDigits :=
    Numeral.lt_pow_maxDigits 3 (by decide +kernel) (by decide)
  obtain ⟨m, h, hok⟩ := exists_of_any_toOption hok
  obtain ⟨himport, hentry, hbroken⟩ := of_decide_eq_true hok
  obtain ⟨text', hwrite, hread⟩ := exists_readModule_of_readModule h hsize himport hentry
  rw [if_neg hbroken] at hread
  exact ⟨m, text', h, himport, hentry, hwrite, hread⟩

end StackScript
