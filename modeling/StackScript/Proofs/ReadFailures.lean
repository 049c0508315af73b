import StackScript.Proofs.ReadModules

/-!
# How reading fails

Module text is read or it fails in a way that its writer is told about. Four failures have no words.
Three show in the fields of the module: a form that ends after a word which takes an element, a data
segment whose offset is no atom, and a first import whose host is not named in UTF-8. The fourth
shows in the text itself, where a string holds a lone surrogate. No other fault of a text, of its
nesting or of a function body is without words.

## Main definitions

* `Form.parts`, `Form.allParts`: the forms inside forms.
* `FailsOnly`: a step fails with certain errors only.
* `ScansTo`, `HoldsSurrogate`: scanning reaches a place in a text, and a string holds a lone
  surrogate.
* `ReadError.ArisesIn`: the ways in which reading the fields of a module may fail.
* `ReadError.ArisesFrom`: the ways in which reading a text may fail.

## Main results

* `failsOnly_tokenizeText`: a text fails with words, or at a lone surrogate in a string.
* `failsOnly_formsOf`, `failsOnly_readInstructions`: what has words only.
* `failsOnly_readFields`: how the fields of a module fail.
* `readModule_ok_or_arisesFrom`: reading gives a module or fails in one of these ways.
-/

namespace StackScript

/-! ### Forms inside forms -/

namespace Form

mutual

/-- A form and the forms inside it. -/
def parts : Form → List Form
  | atom name => [atom name]
  | string data => [string data]
  | list items => list items :: allParts items

/-- Forms and the forms inside them. -/
def allParts : List Form → List Form
  | [] => []
  | form :: rest => parts form ++ allParts rest

end

theorem mem_parts (form : Form) : form ∈ form.parts := by
  cases form <;> exact List.mem_cons_self

theorem subset_allParts (forms : List Form) : forms ⊆ allParts forms := by
  induction forms with
  | nil => exact List.Subset.refl _
  | cons form forms ih =>
    exact List.cons_subset.mpr ⟨List.mem_append_left _ form.mem_parts,
      List.subset_append_of_subset_right _ ih⟩

mutual

/-- The items of a list inside a form are inside the form. -/
theorem items_subset_parts {items : List Form} :
    ∀ form : Form, list items ∈ form.parts → items ⊆ form.parts
  | atom name, h => by simp [parts] at h
  | string data, h => by simp [parts] at h
  | list others, h => by
    rcases List.mem_cons.mp h with heq | h
    · cases heq
      exact List.subset_cons_of_subset _ (subset_allParts items)
    · exact List.subset_cons_of_subset _ (items_subset_allParts others h)

theorem items_subset_allParts {items : List Form} :
    ∀ forms : List Form, list items ∈ allParts forms → items ⊆ allParts forms
  | [], h => by cases h
  | form :: forms, h => by
    rcases List.mem_append.mp h with h | h
    · exact List.subset_append_of_subset_left _ (items_subset_parts form h)
    · exact List.subset_append_of_subset_right _ (items_subset_allParts forms h)

end

end Form

/-! ### Errors -/

/-- A step fails with certain errors only. -/
def FailsOnly {ε α : Type} (P : ε → Prop) (x : Except ε α) : Prop :=
  ∀ e, x = .error e → P e

section FailsOnly

variable {ε α β : Type} {P Q : ε → Prop} {x : Except ε α}

theorem failsOnly_ok (a : α) : FailsOnly P (.ok a) :=
  fun _ h => nomatch h

theorem failsOnly_error {e : ε} (h : P e) : FailsOnly P (.error e : Except ε α) := by
  rintro _ ⟨⟩
  exact h

theorem FailsOnly.mono (h : FailsOnly P x) (hPQ : ∀ e, P e → Q e) : FailsOnly Q x :=
  fun e he => hPQ e (h e he)

theorem FailsOnly.bind {next : α → Except ε β} (hx : FailsOnly P x)
    (hnext : ∀ a, x = .ok a → FailsOnly P (next a)) : FailsOnly P (x >>= next) := by
  cases x with
  | error e => exact failsOnly_error (hx e rfl)
  | ok a => exact hnext a rfl

theorem FailsOnly.map {f : α → β} (hx : FailsOnly P x) : FailsOnly P (x.map f) := by
  cases x with
  | error e => exact failsOnly_error (hx e rfl)
  | ok a => exact failsOnly_ok _

/-- A step that gives a result after another fails only if that one does. -/
theorem FailsOnly.bind_ok {result : α → β} (hx : FailsOnly P x) :
    FailsOnly P (x >>= fun a => .ok (result a)) :=
  hx.bind fun _ _ => failsOnly_ok _

end FailsOnly

/-- An error that has words. -/
def ReadError.Worded (e : ReadError) : Prop := e.message?.isSome = true

/-- The words of the forms whose first element is read without a look at how many there are. -/
def elementWords : List Text := ["mut", "param", "result", "local"]

/-- The ways in which reading the fields of a module may fail. -/
inductive ReadError.ArisesIn (fields : List Form) : ReadError → Prop
  | worded {e : ReadError} : e.Worded → ArisesIn fields e
  | missingElement {word : Text} : word ∈ elementWords →
      .list [.atom word] ∈ Form.allParts fields → ArisesIn fields .missingElement
  | offsetNotAtom {offset : Form} {data : Bytes} :
      .list [.atom "data", .list [.atom "i32.const", offset], .string data] ∈ fields →
      (∀ text, offset ≠ .atom text) → ArisesIn fields .offsetNotAtom
  | importNameNotUtf8 {word : Form} {host : Bytes} {more : List Form} :
      fields.find? (fun field => field.head? == some (.plain "import")) =
        some (.list (word :: .string host :: more)) →
      ofUtf8? host = none → ArisesIn fields .importNameNotUtf8

/-- Scanning a text reaches a place in it, one piece after another. -/
inductive ScansTo (total : Nat) (place : List CodePoint) : List CodePoint → Prop
  | here : ScansTo total place place
  | piece {c : CodePoint} {rest after : List CodePoint} {token : Option TextToken} :
      nextPiece total c rest = .ok (token, after) → ScansTo total place after →
      ScansTo total place (c :: rest)

/-- A string whose opening quote has been read holds a lone surrogate: characters and escapes come
before it, and no quote. -/
inductive HoldsSurrogate : List CodePoint → Prop
  | here (half : Fin 0x800) (rest : List CodePoint) : HoldsSurrogate (.surrogate half :: rest)
  | character {c : Char} {rest : List CodePoint} : c ≠ '"' → c ≠ '\\' → HoldsSurrogate rest →
      HoldsSurrogate (.char c :: rest)
  | named {c : CodePoint} {rest : List CodePoint} : (namedEscape? c).isSome = true →
      HoldsSurrogate rest → HoldsSurrogate (.char '\\' :: c :: rest)
  | hex {c d : CodePoint} {rest : List CodePoint} : (hexEscape? c d).isSome = true →
      HoldsSurrogate rest → HoldsSurrogate (.char '\\' :: c :: d :: rest)

/-- The ways in which scanning a text may fail. -/
inductive ReadError.ArisesAt (total : Nat) (text : List CodePoint) : ReadError → Prop
  | worded {e : ReadError} : e.Worded → ArisesAt total text e
  | loneSurrogate {rest : List CodePoint} : ScansTo total (.char '"' :: rest) text →
      HoldsSurrogate rest → ArisesAt total text .loneSurrogate

/-- The ways in which reading a text may fail. -/
inductive ReadError.ArisesFrom (text : Text) : ReadError → Prop
  | worded {e : ReadError} : e.Worded → ArisesFrom text e
  | loneSurrogate {rest : List CodePoint} : ScansTo text.length (.char '"' :: rest) text.points →
      HoldsSurrogate rest → ArisesFrom text .loneSurrogate
  | fields {e : ReadError} {tokens : List TextToken} {fields : List Form} :
      tokenizeText text = .ok tokens → formsOf tokens = .ok [.list (.atom "module" :: fields)] →
      e.ArisesIn fields → ArisesFrom text e

/-! ### Tokens and nesting -/

theorem failsOnly_readString (text : List CodePoint) :
    FailsOnly (fun e => e.Worded ∨ e = .loneSurrogate ∧ HoldsSurrogate text) (readString text) := by
  fun_induction readString text with
  | case1 | case3 | case5 | case7 => exact failsOnly_error (.inl rfl)
  | case2 rest => exact failsOnly_ok _
  | case4 c rest b hb ih =>
    refine (ih.mono fun e => .imp_right (And.imp_right fun h => ?_)).bind_ok
    exact .named (by rw [hb]; rfl) h
  | case6 c hc d rest b hb ih =>
    refine (ih.mono fun e => .imp_right (And.imp_right fun h => ?_)).bind_ok
    exact .hex (by rw [hb]; rfl) h
  | case8 c rest hquote hlast hescape bytes hbytes ih =>
    refine (ih.mono fun e => .imp_right (And.imp_right fun h => ?_)).bind_ok
    cases c with
    | surrogate half => exact .here half rest
    | char c =>
      refine .character (fun hc => hquote (congrArg _ hc)) (fun hc => ?_) h
      -- a backslash is the last character or starts an escape
      cases rest with
      | nil => exact hlast (congrArg _ hc) rfl
      | cons d rest => exact hescape d rest (congrArg _ hc) rfl
  | case9 c rest _ _ _ hnone =>
    cases c with
    | char c => cases hnone
    | surrogate half => exact failsOnly_error (.inr ⟨rfl, .here half rest⟩)

theorem failsOnly_nextPiece (total : Nat) (c : CodePoint) (rest : List CodePoint) :
    FailsOnly (ReadError.ArisesAt total (c :: rest)) (nextPiece total c rest) := by
  unfold nextPiece
  split
  · exact failsOnly_ok _
  split
  · split
    · exact failsOnly_ok _
    · exact failsOnly_error (.worded rfl)
  split
  · split
    · split
      · exact failsOnly_ok _
      · exact failsOnly_error (.worded rfl)
    · exact failsOnly_ok _
  split
  · exact failsOnly_ok _
  split
  · rename_i hquote
    refine ((failsOnly_readString rest).mono ?_).bind_ok
    rintro e (hworded | ⟨rfl, hholds⟩)
    · exact .worded hworded
    · exact .loneSurrogate (hquote ▸ .here) hholds
  · exact failsOnly_ok _

theorem failsOnly_textTokens (total : Nat) (text : List CodePoint) :
    FailsOnly (ReadError.ArisesAt total text) (textTokens total text) := by
  -- What fails behind a piece fails at a place that is reached over it.
  have hbehind {c : CodePoint} {rest after : List CodePoint} {token : Option TextToken}
      (h : nextPiece total c rest = .ok (token, after)) {e : ReadError}
      (he : e.ArisesAt total after) : e.ArisesAt total (c :: rest) := by
    cases he with
    | worded hworded => exact .worded hworded
    | loneSurrogate hscans hholds => exact .loneSurrogate (.piece h hscans) hholds
  fun_induction textTokens total text with
  | case1 => exact failsOnly_ok _
  | case2 c rest e h => exact failsOnly_error (failsOnly_nextPiece _ _ _ e h)
  | case3 c rest after h _ ih => exact ih.mono fun _ => hbehind h
  | case4 c rest t after h _ ih => exact (ih.mono fun _ => hbehind h).map

/-- A text fails with words, or at a lone surrogate in a string. -/
theorem failsOnly_tokenizeText (text : Text) :
    FailsOnly (ReadError.ArisesFrom text) (tokenizeText text) := by
  refine (failsOnly_textTokens _ _).mono fun e he => ?_
  cases he with
  | worded hworded => exact .worded hworded
  | loneSurrogate hscans hholds => exact .loneSurrogate hscans hholds

theorem failsOnly_nestTokens (outer : List (List Form)) (current : List Form)
    (tokens : List TextToken) : FailsOnly ReadError.Worded (nestTokens outer current tokens) := by
  fun_induction nestTokens outer current tokens with
  | case1 => exact failsOnly_ok _
  | case2 | case4 => exact failsOnly_error rfl
  | case3 _ _ _ ih | case5 _ _ _ _ ih | case6 _ _ _ _ ih | case7 _ _ _ _ ih => exact ih

theorem failsOnly_formsOf (tokens : List TextToken) :
    FailsOnly ReadError.Worded (formsOf tokens) :=
  failsOnly_nestTokens _ _ _

/-! ### Function bodies -/

theorem failsOnly_asName (form : Form) : FailsOnly ReadError.Worded form.asName := by
  unfold Form.asName
  split
  · split
    · exact failsOnly_ok _
    · exact failsOnly_error rfl
  · exact failsOnly_error rfl

theorem failsOnly_asValueType (form : Form) : FailsOnly ReadError.Worded form.asValueType := by
  unfold Form.asValueType
  split
  · split
    · exact failsOnly_ok _
    · exact failsOnly_error rfl
  · exact failsOnly_error rfl

theorem failsOnly_readNumber (float : Bool) (text : Text) :
    FailsOnly ReadError.Worded (readNumber float text) := by
  unfold readNumber
  dsimp only
  split
  · exact failsOnly_ok _
  · exact failsOnly_error rfl

theorem failsOnly_readImmediate (t : ValueType) (mnemonic text : Text) :
    FailsOnly ReadError.Worded (readImmediate t mnemonic text) := by
  unfold readImmediate
  split
  · exact (failsOnly_asName _).bind_ok
  · split
    · exact (failsOnly_readNumber _ _).bind_ok
    · exact (failsOnly_asName _).bind_ok

mutual

/-- A fault of a function body has words. -/
theorem failsOnly_readInstructions (t : ValueType) :
    ∀ forms : List Form, FailsOnly ReadError.Worded (readInstructions t forms)
  | [] => by
    rw [readInstructions]
    exact failsOnly_ok _
  | .list items :: rest => by
    rw [readInstructions]
    exact (failsOnly_readConditional t items).bind fun _ _ =>
      (failsOnly_readInstructions t rest).bind_ok
  | .string _ :: _ => by
    rw [readInstructions]
    exact failsOnly_error rfl
  | .atom mnemonic :: rest => by
    rw [readInstructions.eq_def]
    dsimp only
    -- an instruction that takes an immediate needs one behind it
    split
    · split
      · rename_i immediate rest
        exact (failsOnly_readImmediate t mnemonic immediate).bind fun _ _ =>
          (failsOnly_readInstructions t rest).bind_ok
      · exact failsOnly_error rfl
    · exact (failsOnly_readInstructions t rest).bind_ok
termination_by forms => sizeOf forms
decreasing_by
  all_goals
    subst_vars
    simp only [List.cons.sizeOf_spec, Form.list.sizeOf_spec, Form.atom.sizeOf_spec]
    omega

theorem failsOnly_readConditional (t : ValueType) :
    ∀ items : List Form, FailsOnly ReadError.Worded (readConditional t items)
  | items => by
    rw [readConditional.eq_def]
    -- one part, two parts, a second part that is none, and all else
    split
    · rename_i head first body
      split
      · exact (failsOnly_readInstructions t body).bind_ok
      · exact failsOnly_error rfl
    · rename_i head first body second otherwise
      split
      · refine (failsOnly_readInstructions t body).bind fun _ _ => ?_
        split
        · exact (failsOnly_readInstructions t otherwise).bind_ok
        · exact failsOnly_error rfl
      · exact failsOnly_error rfl
    · rename_i head first body third _
      split
      · exact (failsOnly_readInstructions t body).bind fun _ _ => failsOnly_error rfl
      · exact failsOnly_error rfl
    · exact failsOnly_error rfl
termination_by items => sizeOf items
decreasing_by
  all_goals
    subst_vars
    simp only [List.cons.sizeOf_spec, Form.list.sizeOf_spec, Form.atom.sizeOf_spec]
    omega

end

/-! ### Fields -/

section Fields

variable {all : List Form}

/-- A fault that has words may arise anywhere. -/
theorem FailsOnly.arisesIn {α : Type} {x : Except ReadError α} (h : FailsOnly ReadError.Worded x) :
    FailsOnly (ReadError.ArisesIn all) x :=
  h.mono fun _ => .worded

/-- What follows a word that takes an element. -/
theorem failsOnly_firstElement {word : Text} {elements : List Form} (hword : word ∈ elementWords)
    (h : .list (.atom word :: elements) ∈ Form.allParts all) :
    FailsOnly (ReadError.ArisesIn all) (firstElement elements) := by
  cases elements with
  | nil => exact failsOnly_error (.missingElement hword h)
  | cons form rest => exact failsOnly_ok form

theorem failsOnly_readHeadings (t : ValueType) (f : Func) {forms : List Form}
    (h : forms ⊆ Form.allParts all) :
    FailsOnly (ReadError.ArisesIn all) (readHeadings t f forms) := by
  fun_induction readHeadings t f forms with
  | case1 f elements rest ih | case3 f elements rest _ _ ih =>
    obtain ⟨hlist, hrest⟩ := List.cons_subset.mp h
    refine (failsOnly_firstElement (by decide) hlist).bind fun form _ => ?_
    exact (failsOnly_asName form).arisesIn.bind fun name _ => ih name hrest
  | case2 f elements rest _ ih =>
    obtain ⟨hlist, hrest⟩ := List.cons_subset.mp h
    refine (failsOnly_firstElement (by decide) hlist).bind fun form _ => ?_
    exact (failsOnly_asValueType form).arisesIn.bind fun result _ => ih result hrest
  | case4 | case5 => exact (failsOnly_readInstructions t _).arisesIn.bind_ok

theorem failsOnly_readFunction (t : ValueType) {elements : List Form}
    (h : elements ⊆ Form.allParts all) :
    FailsOnly (ReadError.ArisesIn all) (readFunction t elements) := by
  cases elements with
  | nil => exact failsOnly_error (.worded rfl)
  | cons name rest =>
    exact (failsOnly_asName name).arisesIn.bind fun _ _ =>
      failsOnly_readHeadings t _ (List.cons_subset.mp h).2

theorem failsOnly_readGlobal {elements : List Form} (h : elements ⊆ Form.allParts all) :
    FailsOnly (ReadError.ArisesIn all) (readGlobal elements) := by
  unfold readGlobal
  split
  · rename_i name type value
    have htype : type ∈ Form.allParts all := h (List.mem_cons_of_mem _ List.mem_cons_self)
    refine (failsOnly_asName name).arisesIn.bind fun _ _ => ?_
    split
    · exact (failsOnly_firstElement (by decide) htype).bind fun form _ =>
        (failsOnly_asValueType form).arisesIn.bind_ok
    · exact (failsOnly_asValueType _).arisesIn.bind_ok
  · exact failsOnly_error (.worded rfl)

theorem failsOnly_readData {elements : List Form} (h : .list (.atom "data" :: elements) ∈ all) :
    FailsOnly (ReadError.ArisesIn all) (readData elements) := by
  unfold readData
  split
  · rename_i offset data
    split
    · rename_i text
      refine (failsOnly_readNumber false text).arisesIn.bind fun d hd => ?_
      -- an atom that is read as an integer is one
      cases isConstant_of_readNumber (t := .i32) hd with
      | int => exact failsOnly_ok _
      | real hfloat => cases hfloat
    · rename_i hatom
      exact failsOnly_error (.offsetNotAtom h hatom)
  · exact failsOnly_error (.worded rfl)

theorem failsOnly_readExport (m : Module) (elements : List Form) :
    FailsOnly ReadError.Worded (readExport m elements) := by
  unfold readExport
  split
  · split
    · exact (failsOnly_asName _).bind_ok
    · exact failsOnly_ok _
    · exact failsOnly_error rfl
  · exact failsOnly_error rfl

theorem failsOnly_readField (m : Module) {field : Form} (h : field ∈ all) :
    FailsOnly (ReadError.ArisesIn all) (readField m field) := by
  unfold readField
  split
  · rename_i head elements
    have helements : elements ⊆ Form.allParts all :=
      (List.cons_subset.mp (Form.items_subset_allParts all (Form.subset_allParts all h))).2
    split
    · exact failsOnly_ok _
    · exact failsOnly_ok _
    · exact (failsOnly_readGlobal helements).bind_ok
    · exact (failsOnly_readData h).bind_ok
    · exact (failsOnly_readFunction _ helements).bind_ok
    · exact (failsOnly_readExport m elements).arisesIn
    · exact failsOnly_error (.worded rfl)
  · exact failsOnly_error (.worded rfl)

/-- How the fields of a module fail. -/
theorem failsOnly_readFields (m : Module) {fields : List Form} (h : fields ⊆ all) :
    FailsOnly (ReadError.ArisesIn all) (readFields m fields) := by
  induction fields generalizing m with
  | nil => exact failsOnly_ok m
  | cons field fields ih =>
    obtain ⟨hfield, hfields⟩ := List.cons_subset.mp h
    exact (failsOnly_readField m hfield).bind fun m _ => ih m hfields

/-- Where the name of the host stands. -/
theorem exists_host_of_logImport? {field : Form} {host : Bytes} {elements : List Form}
    (h : logImport? field = some (host, elements)) :
    ∃ word more, field = .list (word :: .string host :: more) := by
  unfold logImport? at h
  split at h
  · split at h
    · cases h
      exact ⟨_, _, rfl⟩
    · cases h
  · cases h

/-- How the first import fails. Its host is decoded last. -/
theorem failsOnly_readImport : FailsOnly (ReadError.ArisesIn all) (readImport all) := by
  unfold readImport
  split
  · exact failsOnly_error (.worded rfl)
  rename_i field hfield
  split
  · exact failsOnly_error (.worded rfl)
  rename_i host elements himport
  split
  · rename_i type _
    refine (failsOnly_asValueType type).arisesIn.bind fun _ _ => ?_
    split
    · exact failsOnly_ok _
    · rename_i hhost
      obtain ⟨word, more, rfl⟩ := exists_host_of_logImport? himport
      exact failsOnly_error (.importNameNotUtf8 hfield hhost)
  · exact failsOnly_error (.worded rfl)

end Fields

/-! ### Texts -/

/-- Reading a text gives a module, or it fails in one of the ways that a text allows. -/
theorem readModule_ok_or_arisesFrom (text : Text) :
    (∃ m, readModule text = .ok m) ∨ ∃ e, readModule text = .error e ∧ e.ArisesFrom text := by
  have honly : FailsOnly (ReadError.ArisesFrom text) (readModule text) := by
    have hworded {α : Type} {x : Except ReadError α} (h : FailsOnly ReadError.Worded x) :
        FailsOnly (ReadError.ArisesFrom text) x := h.mono fun _ => .worded
    refine (failsOnly_tokenizeText text).bind fun tokens htokens => ?_
    refine (hworded (failsOnly_formsOf tokens)).bind fun forms hforms => ?_
    unfold moduleOfForms
    split
    · rename_i fields
      have hfields : ∀ e, ReadError.ArisesIn fields e → ReadError.ArisesFrom text e :=
        fun _ => .fields htokens hforms
      refine (failsOnly_readImport.mono hfields).bind fun m _ => ?_
      exact ((failsOnly_readFields m (List.Subset.refl _)).mono hfields).bind_ok
    · exact hworded (failsOnly_error rfl)
  cases h : readModule text with
  | ok m => exact .inl ⟨m, rfl⟩
  | error e => exact .inr ⟨e, rfl, honly e h⟩

/-- A text whose one string is a lone surrogate. -/
def surrogateString : Text :=
  "(module \"" ++ .loneSurrogate ++ "\")"

/-- There are no words for a string without bytes, and it is none of the faults of a field. -/
theorem readModule_fails_surrogateString :
    ∃ e, readModule surrogateString = .error e ∧ ¬ e.Worded ∧ e ≠ .missingElement ∧
      e ≠ .offsetNotAtom ∧ e ≠ .importNameNotUtf8 := by
  have herror : readModule surrogateString = .error .loneSurrogate := by cbv
  refine ⟨_, herror, by simp [ReadError.Worded, ReadError.message?], ?_, ?_, ?_⟩ <;> rintro ⟨⟩

-- The failures without words that show in the fields do arise.

example : readModule "(module(import\"\"\"log\"(func f(param i32)))(func $f(local)))" =
    .error .missingElement := by cbv

example : readModule "(module(import\"\"\"log\"(func f(param i32)))(data(i32.const\"0\")\"\"))" =
    .error .offsetNotAtom := by cbv

example : readModule "(module(import\"\\ff\"\"log\"(func f(param i32))))" =
    .error .importNameNotUtf8 := by cbv

end StackScript
