import StackScript.Proofs.ProgramNodes
import StackScript.Proofs.TypedLowering

/-!
# Keeping account of functions

Lowering keeps a table of the functions that are known. It lists the functions that are complete
and then the one being compiled, in the order of the text. Since a function is known from its
heading on, it can call itself and those before it, and nothing else.

The table is kept at every place that lowering reaches, so it is also right where lowering stops. A
failure inside a function leaves that function open, and no other.

## Main definitions

* `Scope.Orderly`: the table of functions is right.
* `Emission.Returns`, `Emission.StopsInside`: no function is left open, or one definition is.
* `Lower.Accounts`: lowering keeps the table, and what it adds are definitions in order.
* `FunctionDef.StopsIn`: a definition whose body does not compile.

## Main results

* `lower_accounts`, `lowerAll_accounts`: lowering keeps account of its definitions.
-/

namespace StackScript

/-! ### The table of functions -/

/-- A function's name and the number of its parameters. -/
def Func.signature (f : Func) : Text × Nat := (f.name, f.arity)

/-- The names of the function of a definition. -/
def Func.frame (f : Func) : Frame where
  name := f.name
  params := f.params
  locals := f.locals

theorem Frame.frame_function {frame : Frame} (h : frame.isEntry = false)
    (result : Option ValueType) (code : List Instr) :
    (frame.function result code).frame = frame := by
  cases frame
  cases h
  rfl

/-- The name and the number of parameters of the function being compiled. -/
def Frame.signature (frame : Frame) : Text × Nat := (frame.name, frame.params.length)

/-- A function whose cells have different names, and which calls only the host, itself and
functions that were known before. -/
structure Func.Orderly (known : List Text) (f : Func) : Prop where
  nodup : (f.params ++ f.locals).Nodup
  calls : ∀ name, Instr.call name ∈ f.body →
    name = logFunction ∨ name = f.name ∨ name ∈ known

/-- Functions that are orderly where they stand: each may call those before it. -/
def OrderlyFunctions (functions : List Func) : Prop :=
  ∀ before f after, functions = before ++ f :: after → f.Orderly (before.map Func.name)

theorem OrderlyFunctions.concat {functions : List Func} (h : OrderlyFunctions functions) {f : Func}
    (hf : f.Orderly (functions.map Func.name)) : OrderlyFunctions (functions ++ [f]) := by
  intro before g after heq
  rcases List.eq_nil_or_concat after with rfl | ⟨after, last, rfl⟩
  · obtain ⟨rfl, hlast⟩ := List.append_inj' heq rfl
    cases hlast
    exact hf
  · have heq' : functions ++ [f] = (before ++ g :: after) ++ [last] := by simpa using heq
    exact h before g after (List.append_inj_left' heq' rfl)

/-- The functions that are known are those that are complete, then the one being compiled. Their
names differ from each other and from those that are reserved. -/
structure Scope.Orderly (options : Options) (s : Scope) : Prop where
  valueType : s.module.valueType = options.valueType
  signatures : s.signatures =
    s.module.functions.map Func.signature ++ s.frame.toList.map Frame.signature
  nodup : (s.signatures.map Prod.fst).Nodup
  reserved : ∀ signature ∈ s.signatures,
    signature.1 ≠ logFunction ∧ signature.1 ≠ options.entry.functionName
  functions : OrderlyFunctions s.module.functions
  frame : ∀ frame ∈ s.frame, frame.names.Nodup

/-- The scope at the beginning of a function's body. -/
def Scope.define (s : Scope) (name : String) (params : List String) : Scope :=
  (s.addSignature name params.length).enter (.ofDefinition name params)

variable {options : Options} {s : Scope}

theorem Scope.orderly_startScope (options : Options) : options.startScope.Orderly options where
  valueType := rfl
  signatures := rfl
  nodup := List.nodup_nil
  reserved := nofun
  functions := by simp [OrderlyFunctions, Options.startScope, Scope.enter, Options.emptyModule]
  frame := nofun

namespace Scope.Orderly

theorem declare (h : s.Orderly options) (name : Text) : (s.declare name).Orderly options := by
  have hframe := s.frame_declare name
  unfold Scope.declare at hframe ⊢
  split at hframe
  · rename_i frame hsome
    rw [hsome, Option.map_some] at hframe
    refine ⟨h.valueType, ?_, h.nodup, h.reserved, h.functions, ?_⟩
    · rw [hframe]
      simpa [hsome, Frame.signature, Scope.setFrame] using h.signatures
    · rw [hframe]
      rintro _ ⟨⟩
      exact Frame.nodup_names_addLocals (h.frame frame hsome) [name]
  · unfold Module.addGlobal
    split
    · exact h
    · exact ⟨h.valueType, h.signatures, h.nodup, h.reserved, h.functions, h.frame⟩

theorem addData (h : s.Orderly options) (data : Bytes) : (s.addData data).Orderly options := by
  unfold Scope.addData Module.addData
  split
  · exact h
  · exact ⟨h.valueType, h.signatures, h.nodup, h.reserved, h.functions, h.frame⟩

/-- A definition is known from its heading on. -/
theorem define (h : s.Orderly options) {name : String} {params : List String}
    (hdef : Lower.Definable options s name params) : (s.define name params).Orderly options where
  valueType := h.valueType
  signatures := by
    rw [Scope.define, Scope.frame_ofDefinition]
    simp [Scope.enter, Scope.addSignature, h.signatures, hdef.topLevel, Frame.signature,
      Frame.ofDefinition]
  nodup := by
    have hunknown : ∀ signature ∈ s.signatures, signature.1 ≠ name := by
      intro signature hmem heq
      have hlookup := List.lookup_eq_none_iff.mp hdef.unknown signature hmem
      simp [heq] at hlookup
    simpa [Scope.define, Scope.enter, Scope.addSignature, List.nodup_append, h.nodup] using
      fun x n hx hname => hunknown (x, n) hx hname
  reserved := by
    have hname : Text.plain name ≠ logFunction ∧ Text.plain name ≠ options.entry.functionName :=
      ⟨fun heq => hdef.ne_log (Text.plain.inj heq), fun heq => hdef.ne_entry (Text.plain.inj heq)⟩
    exact List.forall_mem_append.mpr ⟨h.reserved, List.forall_mem_singleton.mpr hname⟩
  functions := h.functions
  frame := by
    rw [Scope.define, Scope.frame_ofDefinition]
    rintro _ ⟨⟩
    simpa [Frame.names, Frame.ofDefinition] using
      List.Nodup.map (fun _ _ => Text.plain.inj) hdef.nodup

/-- A definition that is complete stays known. -/
theorem leave (h : s.Orderly options) {outer : Scope} (htop : outer.frame = none) {frame : Frame}
    (hcontexts : s.contexts = frame :: outer.contexts) (hentry : frame.isEntry = false)
    {result : Option ValueType} {body : List Instr}
    (hcalls : ∀ name, Instr.call name ∈ body →
      name = logFunction ∨ name ∈ s.signatures.map Prod.fst) :
    (s.leave (frame.function result body)).Orderly options := by
  have hframe : s.frame = some frame := by
    simp [Scope.frame, hcontexts, hentry, Option.filter_some]
  have hleft : (s.leave (frame.function result body)).frame = none := by
    rw [← htop, Scope.frame, Scope.leave, hcontexts]
    rfl
  refine ⟨h.valueType, ?_, h.nodup, h.reserved, ?_, by simp [hleft]⟩
  · rw [hleft]
    simp [h.signatures, hframe, Scope.leave, Module.addFunction, Func.signature, Frame.signature,
      Frame.function, Func.arity]
  · refine h.functions.concat ⟨h.frame frame hframe, fun name hname => ?_⟩
    -- the names known inside the body are those defined before and the function's own
    have hnames : s.signatures.map Prod.fst =
        s.module.functions.map Func.name ++ [frame.name] := by
      simp [h.signatures, hframe, Func.signature, Frame.signature, Function.comp_def]
    refine (hcalls name hname).imp_right fun hmem => ?_
    rw [hnames] at hmem
    exact (List.mem_append.mp hmem).symm.imp_left List.mem_singleton.mp

end Scope.Orderly

/-- Typed code calls the host and functions of its interface. -/
theorem Code.Types.called {Γ : Interface} {locals : List Text} {c : Code}
    {σ σ' : List ValueType} (h : c.Types Γ locals σ σ') {name : Text}
    (hname : Instr.call name ∈ c.flatten) :
    name = logFunction ∨ ∃ arity, Γ.arity? name = some arity := by
  refine h.forall_mem_flatten (P := fun instr => ∀ name, instr = .call name →
    name = logFunction ∨ ∃ arity, Γ.arity? name = some arity) (by simp) ?_ _ hname name rfl
  intro action τ τ' haction name hinstr
  cases haction with
  | log =>
    cases hinstr
    exact .inl rfl
  | call harity =>
    cases hinstr
    exact .inr ⟨_, harity⟩
  | _ => cases hinstr

/-- The functions that compiled code calls are known where it ends. -/
theorem Compiles.known_of_call {s' : Scope} {p : Part} {c : Code} (h : Compiles options s p c s')
    (htype : s'.module.valueType = options.valueType) {name : Text}
    (hname : Instr.call name ∈ c.flatten) :
    name = logFunction ∨ name ∈ s'.signatures.map Prod.fst := by
  have hlinked : s'.LinkedTo s' (s'.frame.elim [] Frame.names) := by
    refine ⟨.refl s', fun {name} hlocal => ?_⟩
    cases hframe : s'.frame with
    | none => simp [Scope.isLocal, hframe] at hlocal
    | some frame => simpa [Scope.isLocal, hframe, Frame.holds_eq] using hlocal
  rcases (h.typed htype hlinked []).called hname with hlog | ⟨arity, harity⟩
  · exact .inl hlog
  · obtain ⟨before, after, heq, -⟩ := List.lookup_eq_some_iff.mp harity
    exact .inr (by simp [heq])

/-! ### Lowering that keeps account -/

/-- Lowering the body of a definition stops with an error. A function holds how far it has come: its
cells and its code. -/
structure FunctionDef.StopsIn (options : Options) (s : Scope) (d : FunctionDef) (f : Func)
    (error : CompileError) : Prop where
  frame : s.frame = some { name := d.name, params := d.params }
  name_eq : f.name = d.name
  params_eq : f.params = d.params
  stops : (lowerAll options true d.body s).result = .error { error := error }
  cells : (lowerAll options true d.body s).scope.frame = some f.frame
  code : (lowerAll options true d.body s).code = f.body

namespace Emission

variable {α : Type}

/-- The code of the functions that lowering has left open. -/
def codes (e : Emission α) : List (List Instr) :=
  match e.result with
  | .ok _ => []
  | .error stopped => stopped.codes

theorem codes_of_ok {e : Emission α} {a : α} (h : e.result = .ok a) : e.codes = [] := by
  rw [codes, h]

theorem codes_of_error {e : Emission α} {stopped : Stopped} (h : e.result = .error stopped) :
    e.codes = stopped.codes := by
  rw [codes, h]

/-- Lowering leaves no function open that was not. Names may have been declared in the innermost. -/
structure Returns (s : Scope) (e : Emission α) : Prop where
  codes_eq : e.codes = []
  contexts_eq : ∃ names, e.scope.contexts = Frame.declareAll s.contexts names

/-- Lowering stops in the body of a definition, which is left open. -/
structure StopsInside (options : Options) (s : Scope) (d : FunctionDef) (e : Emission α)
    (f : Func) (error : CompileError) : Prop where
  topLevel : s.frame = none
  result_eq : e.result = .error { error := error, codes := [f.body] }
  contexts_eq : e.scope.contexts = f.frame :: s.contexts
  stopsIn : ∃ start : Scope, start.signatures = e.scope.signatures ∧ d.StopsIn options start f error

/-- From a scope lowering has kept account: of some definitions it has begun the first ones, which
are in the table, and if it has succeeded it has begun all. -/
structure Accounts (options : Options) (s : Scope) (defs begun : List FunctionDef)
    (e : Emission α) : Prop where
  orderly : e.scope.Orderly options
  begins : begun <+: defs
  signatures : e.scope.signatures = s.signatures ++ begun.map FunctionDef.signature
  succeeds : ∀ a, e.result = .ok a → begun = defs
  inFunction : s.frame.isSome = true → begun = []
  left : e.Returns s ∨ ∃ d ∈ begun, ∃ f error, e.StopsInside options s d f error

/-- A definition is left open at top level only, so lowering that succeeds returns. -/
theorem Accounts.returns_of_ok {defs begun : List FunctionDef} {e : Emission α}
    (h : e.Accounts options s defs begun) {a : α} (hok : e.result = .ok a) : e.Returns s := by
  refine h.left.resolve_right ?_
  rintro ⟨d, -, f, error, hstops⟩
  cases hok.symm.trans hstops.result_eq

/-- Where the scope is as it was, nothing has been begun. -/
theorem accounts_of_scope_eq {e : Emission α} {defs : List FunctionDef} (hscope : e.scope = s)
    (hcodes : e.codes = []) (hs : s.Orderly options)
    (hsucceeds : ∀ a, e.result = .ok a → defs = []) : e.Accounts options s defs [] where
  orderly := by rwa [hscope]
  begins := List.nil_prefix
  signatures := by simp [hscope]
  succeeds := fun a ha => (hsucceeds a ha).symm
  inFunction := fun _ => rfl
  left := .inl ⟨hcodes, [], by rw [hscope, Frame.declareAll_nil]⟩

/-- The code that has been emitted does not matter. -/
theorem Accounts.of_eq {defs begun : List FunctionDef} {e e' : Emission α}
    (h : e.Accounts options s defs begun) (hscope : e'.scope = e.scope)
    (hresult : e'.result = e.result) : e'.Accounts options s defs begun := by
  obtain ⟨code, scope, result⟩ := e
  obtain ⟨code', scope', result'⟩ := e'
  cases hscope
  cases hresult
  exact ⟨h.orderly, h.begins, h.signatures, h.succeeds, h.inFunction, h.left.imp
    (fun hr => ⟨hr.codes_eq, hr.contexts_eq⟩) fun ⟨d, hd, f, error, hstops⟩ =>
      ⟨d, hd, f, error, hstops.topLevel, hstops.result_eq, hstops.contexts_eq, hstops.stopsIn⟩⟩

end Emission

namespace Lower

variable {α β : Type}

/-- Lowering keeps account of some definitions. -/
def Accounts (options : Options) (defs : List FunctionDef) (l : Lower α) : Prop :=
  ∀ s, s.Orderly options → ∃ begun, (l s).Accounts options s defs begun

/-- What comes behind a part that returns leaves as much open as the whole does. -/
theorem left_of_returns {first : Emission α} (hfirst : first.Returns s) {e : Emission β}
    {begun : List FunctionDef}
    (h : e.Returns first.scope ∨
      ∃ d ∈ begun, ∃ f error, e.StopsInside options first.scope d f error) :
    e.Returns s ∨ ∃ d ∈ begun, ∃ f error, e.StopsInside options s d f error := by
  obtain ⟨-, names, hnames⟩ := hfirst
  rcases h with ⟨hcodes, more, hmore⟩ | ⟨d, hd, f, error, hstops⟩
  · exact .inl ⟨hcodes, names ++ more, by rw [hmore, hnames, Frame.declareAll_append]⟩
  · -- nothing is declared in a function at top level
    have htop : s.frame = none := by
      have hframe := Scope.frame_of_declareAll hnames
      rw [hstops.topLevel] at hframe
      exact Option.map_eq_none_iff.mp hframe.symm
    have hsame : first.scope.contexts = s.contexts :=
      hnames.trans (Scope.declareAll_of_topLevel htop names)
    exact .inr ⟨d, hd, f, error, htop, hstops.result_eq, hsame ▸ hstops.contexts_eq, hstops.stopsIn⟩

theorem Accounts.bind {defs more : List FunctionDef} {l : Lower α} {next : α → Lower β}
    (hl : l.Accounts options defs) (hnext : ∀ a, (next a).Accounts options more) :
    (l >>= next).Accounts options (defs ++ more) := by
  intro s hs
  obtain ⟨begun, h⟩ := hl s hs
  simp only [Bind.bind, Lower.bind]
  cases hresult : (l s).result with
  | error e =>
    -- what the first part left behind is what the whole leaves behind
    refine ⟨begun, h.orderly, h.begins.trans (List.prefix_append _ _), h.signatures,
      by rintro _ ⟨⟩, h.inFunction, ?_⟩
    rcases h.left with ⟨hcodes, hcontexts⟩ | ⟨d, hd, f, error, hstops⟩
    · exact .inl ⟨(Emission.codes_of_error hresult).symm.trans hcodes, hcontexts⟩
    · have he : e = { error := error, codes := [f.body] } :=
        Except.error.inj (hresult.symm.trans hstops.result_eq)
      exact .inr ⟨d, hd, f, error, hstops.topLevel, congrArg _ he, hstops.contexts_eq,
        hstops.stopsIn⟩
  | ok a =>
    obtain rfl := h.succeeds a hresult
    -- the second part starts where the first one stopped
    have hreturns := h.returns_of_ok hresult
    obtain ⟨begun', h'⟩ := hnext a _ h.orderly
    refine ⟨begun ++ begun', Emission.Accounts.of_eq (e := next a (l s).scope)
      ⟨h'.orderly, ?_, ?_, ?_, ?_, ?_⟩ rfl rfl⟩
    · exact (List.prefix_append_right_inj begun).mpr h'.begins
    · rw [h'.signatures, h.signatures, List.map_append, List.append_assoc]
    · intro b hb
      rw [h'.succeeds b hb]
    · intro hframe
      obtain ⟨names, hnames⟩ := hreturns.contexts_eq
      have hframe' : (l s).scope.frame.isSome = true := by
        rw [Scope.frame_of_declareAll hnames, Option.isSome_map, hframe]
      rw [h.inFunction hframe, h'.inFunction hframe']
      rfl
    · refine (left_of_returns hreturns h'.left).imp_right ?_
      rintro ⟨d, hd, hstops⟩
      exact ⟨d, List.mem_append_right _ hd, hstops⟩

/-- Lowering leaves the scope as it is, and no function open. -/
def Quiet (l : Lower α) : Prop :=
  ∀ s, (l s).scope = s ∧ (l s).codes = []

theorem Quiet.accounts {l : Lower α} (h : l.Quiet) : l.Accounts options [] :=
  fun s hs => ⟨[], Emission.accounts_of_scope_eq (h s).1 (h s).2 hs fun _ _ => rfl⟩

theorem accounts_fail_bind {fault : CompileFault} {line : Line} {next : α → Lower β}
    {defs : List FunctionDef} : ((fail fault line : Lower α) >>= next).Accounts options defs :=
  fun _ hs => ⟨[], Emission.accounts_of_scope_eq rfl rfl hs fun _ ha => by cases ha⟩

theorem Accounts.bind_quiet {defs : List FunctionDef} {l : Lower α} {next : α → Lower β}
    (hl : l.Accounts options defs) (hnext : ∀ a, (next a).Quiet) :
    (l >>= next).Accounts options defs := by
  simpa using hl.bind fun a => (hnext a).accounts

theorem Quiet.bind_accounts {defs : List FunctionDef} {l : Lower α} {next : α → Lower β}
    (hl : l.Quiet) (hnext : ∀ a, (next a).Accounts options defs) :
    (l >>= next).Accounts options defs :=
  hl.accounts.bind hnext

theorem Quiet.bind {l : Lower α} {next : α → Lower β} (hl : l.Quiet)
    (hnext : ∀ a, (next a).Quiet) : (l >>= next).Quiet := by
  intro s
  obtain ⟨hscope, hcodes⟩ := hl s
  simp only [Bind.bind, Lower.bind]
  cases hresult : (l s).result with
  | error e => exact ⟨hscope, (Emission.codes_of_error hresult).symm.trans hcodes⟩
  | ok a =>
    have h := hnext a (l s).scope
    rw [hscope] at h ⊢
    exact h

theorem quiet_pure (a : α) : (pure a : Lower α).Quiet := fun _ => ⟨rfl, rfl⟩

theorem quiet_emit (instr : Instr) : (emit instr).Quiet := fun _ => ⟨rfl, rfl⟩

theorem quiet_scope : Lower.scope.Quiet := fun _ => ⟨rfl, rfl⟩

theorem quiet_fail (fault : CompileFault) (line : Line) : (fail fault line : Lower α).Quiet :=
  fun _ => ⟨rfl, rfl⟩

theorem Emits.quiet {l : Lower Unit} {actions : List Action} (h : l.Emits actions) : l.Quiet := by
  intro s
  rw [h s]
  exact ⟨rfl, rfl⟩

theorem quiet_useNothing (nodeName : String) (line : Line) (use : Use) :
    (useNothing nodeName line use).Quiet := by
  cases use with
  | statement => exact quiet_pure ()
  | value => exact quiet_fail _ _
  | condition => exact quiet_fail _ _

theorem quiet_resolve (name : Text) (line : Line) : (resolve name line).Quiet := by
  refine quiet_scope.bind fun s => ?_
  split
  · exact quiet_pure _
  split
  · exact quiet_pure _
  split
  · exact quiet_fail _ _
  · exact quiet_fail _ _

theorem quiet_load (name : Text) (line : Line) : (load name line).Quiet :=
  (quiet_resolve name line).bind fun _ => quiet_emit _

theorem quiet_store (name : Text) (line : Line) : (store name line).Quiet :=
  (quiet_resolve name line).bind fun _ => quiet_emit _

theorem quiet_checkName (name : String) (line : Line) : (checkName name line).Quiet := by
  unfold checkName
  split
  · exact quiet_pure ()
  · exact quiet_fail _ _

theorem quiet_checkNames (line : Line) (names : List String) : (checkNames line names).Quiet := by
  induction names with
  | nil => exact quiet_pure ()
  | cons name rest ih => exact (quiet_checkName name line).bind fun _ => ih

theorem quiet_ofConversion (r : Except ConversionError α) : (ofConversion r).Quiet := by
  cases r <;> exact fun _ => ⟨rfl, rfl⟩

theorem quiet_constant (t : ValueType) (number : Datum) (line : Line) :
    (constant t number line).Quiet := by
  -- all paths of an integer constant end in this check
  have hrange (width : Nat) : (do
      let n ← ofConversion number.toInteger
      if wrap width n = n then emit (.const (.int n)) else fail (.literalOutOfRange n t) line :
        Lower Unit).Quiet := by
    refine (quiet_ofConversion _).bind fun n => ?_
    split
    · exact quiet_emit _
    · exact quiet_fail _ _
  unfold constant
  split
  · exact (quiet_ofConversion _).bind fun _ => quiet_emit _
  · rename_i width _
    split
    · dsimp only
      split
      · exact (quiet_pure ()).bind fun _ => hrange width
      · exact (quiet_fail _ _).bind fun _ => hrange width
    · exact (quiet_pure ()).bind fun _ => hrange width

theorem quiet_checkCall (callee : Expr) (count : Nat) (line : Line) :
    (checkCall callee count line).Quiet := by
  unfold checkCall
  split
  · refine quiet_scope.bind fun s => ?_
    split
    · split
      · exact quiet_pure _
      · exact quiet_fail _ _
    · split <;> exact quiet_fail _ _
  · exact quiet_fail _ _

/-! ### Steps that change the scope -/

theorem accounts_of_ok {l : Lower Unit}
    (h : ∀ s, (l s).result = .ok () ∧ (l s).scope.signatures = s.signatures ∧
      ∃ names, (l s).scope.contexts = Frame.declareAll s.contexts names)
    (horderly : ∀ s, s.Orderly options → (l s).scope.Orderly options) :
    l.Accounts options [] := by
  intro s hs
  obtain ⟨hresult, hsignatures, hcontexts⟩ := h s
  exact ⟨[], horderly s hs, List.prefix_rfl, by simp [hsignatures], fun _ _ => rfl, fun _ => rfl,
    .inl ⟨Emission.codes_of_ok hresult, hcontexts⟩⟩

theorem declare_apply (name : Text) (s : Scope) :
    declare name s =
      ⟨[.named (s.declaredCells ++ ".set" : String) name], s.declare name, .ok ()⟩ := by
  unfold Lower.declare Scope.declaredCells Scope.declare
  cases hframe : s.frame <;> simp [bind, Lower.bind, modify, emit, hframe]

theorem accounts_declare (name : Text) : (declare name).Accounts options [] := by
  refine accounts_of_ok (fun s => ?_) fun s hs => ?_
  · rw [declare_apply]
    refine ⟨rfl, ?_, [name], s.contexts_declare name⟩
    rw [Scope.declare]
    split <;> rfl
  · rw [declare_apply]
    exact hs.declare name

theorem accounts_address (literal : Datum) : (address literal).Accounts options [] := by
  unfold address
  split
  · split
    · refine accounts_of_ok (fun s => ⟨rfl, rfl, [], ?_⟩) fun s hs => hs.addData _
      rw [Frame.declareAll_nil]
      rfl
    · exact Quiet.accounts fun _ => ⟨rfl, rfl⟩
  · exact Quiet.accounts fun _ => ⟨rfl, rfl⟩

/-- If lowering fails, the scope is as it was, and no function is open. -/
def FailsQuietly (l : Lower α) : Prop :=
  ∀ s stopped, (l s).result = .error stopped → (l s).scope = s ∧ (l s).codes = []

theorem Quiet.bind_failsQuietly {l : Lower α} {next : α → Lower β} (hl : l.Quiet)
    (hnext : ∀ a, (next a).FailsQuietly) : (l >>= next).FailsQuietly := by
  intro s stopped hstopped
  obtain ⟨hscope, hcodes⟩ := hl s
  simp only [Bind.bind, Lower.bind] at hstopped ⊢
  cases hresult : (l s).result with
  | error e => exact ⟨hscope, (Emission.codes_of_error hresult).symm.trans hcodes⟩
  | ok a =>
    rw [hresult] at hstopped
    have h := hnext a (l s).scope stopped hstopped
    rw [hscope] at h ⊢
    exact h

/-- A check that fails or goes on. -/
theorem FailsQuietly.check {c : Prop} [Decidable c] {next : Unit → Lower α}
    (hnext : ∀ u, (next u).FailsQuietly) (fault : CompileFault) (line : Line) :
    (if c then fail fault line >>= next else next ()).FailsQuietly := by
  split
  · exact (quiet_fail _ _).bind_failsQuietly hnext
  · exact hnext ()

theorem failsQuietly_checkFunction (options : Options) (name : String) (params : List String)
    (line : Line) : (checkFunction options name params line).FailsQuietly := by
  refine quiet_scope.bind_failsQuietly fun s => ?_
  cases s.frame
  case' some frame => refine (quiet_fail _ _).bind_failsQuietly fun _ => ?_
  all_goals
    refine (quiet_checkNames line (name :: params)).bind_failsQuietly fun _ => ?_
    refine .check (fun _ => ?_) (.reservedName name) line
    refine .check (fun _ => ?_) (.alreadyDefined name) line
    refine .check (fun _ => ?_) (.duplicateParameter name) line
    exact fun s stopped hstopped => by cases hstopped

section Function

variable {frame : Frame} {body : Lower Unit} {done : Emission Unit}

theorem withFrame_of_error (result : Option ValueType) (hdone : body (s.enter frame) = done)
    {e : Stopped} (he : done.result = .error e) :
    withFrame frame result body s =
      ⟨[], done.scope, .error { e with codes := e.codes ++ [done.code] }⟩ := by
  subst hdone
  simp only [withFrame, he]

theorem withFrame_of_ok (result : Option ValueType) (hdone : body (s.enter frame) = done)
    (hok : done.result = .ok ()) :
    withFrame frame result body s =
      ⟨[], done.scope.leave ((done.scope.contexts.headD frame).function result done.code),
        .ok ()⟩ := by
  subst hdone
  simp only [withFrame, hok]

end Function

/-- A definition is in the table from its heading on, and it stays there whether or not its body
compiles. -/
theorem Definable.accounts_withFrame {name : String} {params : List String} {body : List Expr}
    {defs : List FunctionDef} (hdef : Definable options s name params) (hs : s.Orderly options)
    (hbody : (lowerAll options true body).Accounts options defs) :
    (withFrame (.ofDefinition name params) (some options.valueType) (lowerAll options true body)
      (s.addSignature name params.length)).Accounts options s
      (⟨name, params.map .plain, body⟩ :: defs) [⟨name, params.map .plain, body⟩] := by
  obtain ⟨begun, h⟩ := hbody _ (hs.define hdef)
  -- inside a function no further one is begun, and none is left open
  obtain rfl := h.inFunction rfl
  have hreturns := h.left.resolve_right (by simp)
  obtain ⟨names, hcontexts⟩ := hreturns.contexts_eq
  obtain ⟨frame, hframe⟩ : ∃ frame, frame = (Frame.ofDefinition name params).addLocals names :=
    ⟨_, rfl⟩
  have hentry : frame.isEntry = false := by
    rw [hframe, Frame.addLocals_isEntry]
    rfl
  have hname : frame.name = name := by
    rw [hframe, Frame.addLocals_name]
    rfl
  have hparams : frame.params = params.map .plain := by
    rw [hframe, Frame.addLocals_params]
    rfl
  generalize hdone : lowerAll options true body (s.define name params) = done at *
  replace hcontexts : done.scope.contexts = frame :: s.contexts := by
    rw [hcontexts, hframe]
    rfl
  have hsignatures : done.scope.signatures = (s.define name params).signatures := by
    rw [h.signatures, List.map_nil, List.append_nil]
  have hbegun : (s.define name params).signatures = s.signatures ++
      List.map FunctionDef.signature [⟨name, params.map .plain, body⟩] := by
    simp [Scope.define, Scope.enter, Scope.addSignature, FunctionDef.signature]
  have htop : s.frame.isSome = true →
      [⟨name, params.map .plain, body⟩] = ([] : List FunctionDef) := by
    simp [hdef.topLevel]
  cases hresult : done.result with
  | error e =>
    have hcodes : e.codes = [] := (Emission.codes_of_error hresult).symm.trans hreturns.codes_eq
    have hleft := Frame.frame_function hentry (some options.valueType) done.code
    rw [withFrame_of_error _ hdone hresult, hcodes]
    -- the function is left open where its body stopped
    refine ⟨h.orderly, by simp, hsignatures.trans hbegun, by rintro _ ⟨⟩, htop, .inr ⟨_,
      List.mem_singleton_self _, frame.function (some options.valueType) done.code, e.error,
      hdef.topLevel, rfl, by rw [hleft, hcontexts], s.define name params, hsignatures.symm, rfl,
      hname, hparams, ?_, ?_, by rw [hdone]; rfl⟩⟩
    · rw [hdone, hresult, ← hcodes]
    · rw [hdone, hleft]
      simp [Scope.frame, hcontexts, hentry, Option.filter_some]
  | ok _ =>
    obtain rfl := h.succeeds () hresult
    have hyields : (lowerAll options true body).Yields (s.define name params) done.code done.scope
        () := by
      rw [Yields, hdone, ← hresult]
    obtain ⟨c, hcode, hc⟩ := lowerAll_followsRules options true body hyields
    rw [withFrame_of_ok _ hdone hresult, hcontexts]
    refine ⟨?_, by simp, hsignatures.trans hbegun, fun _ _ => rfl, htop, .inl ⟨rfl, [], ?_⟩⟩
    · exact h.orderly.leave hdef.topLevel hcontexts hentry fun name hname =>
        hc.known_of_call h.orderly.valueType (hcode ▸ hname)
    · rw [Frame.declareAll_nil, Scope.leave, hcontexts]
      rfl

theorem accounts_function {body : List Expr} {defs : List FunctionDef} (name : String)
    (params : List String) (line : Line)
    (hbody : (lowerAll options true body).Accounts options defs) :
    (do checkFunction options name params line
        withFrame (.ofDefinition name params) (some options.valueType)
          (lowerAll options true body) :
      Lower Unit).Accounts options (⟨name, params.map .plain, body⟩ :: defs) := by
  intro s hs
  cases hresult : (checkFunction options name params line s).result with
  | error e =>
    -- a refused definition changes nothing
    obtain ⟨hscope, hcodes⟩ := failsQuietly_checkFunction options name params line s e hresult
    rw [bind_eq_of_error hresult]
    refine ⟨[], Emission.accounts_of_scope_eq hscope hcodes hs fun _ ha => ?_⟩
    rw [hresult] at ha
    cases ha
  | ok _ =>
    obtain ⟨hdef, hcode, hscope⟩ := (yields_of_result_eq_ok hresult).of_checkFunction
    refine ⟨[⟨name, params.map .plain, body⟩], ?_⟩
    have h := hdef.accounts_withFrame hs hbody
    simp only [Bind.bind, Lower.bind, hresult, hscope]
    exact h.of_eq rfl rfl

end Lower

/-! ### Lowering a program -/

open Lower

mutual

/-- Lowering a node keeps account of the definitions in it, in the order of the text. -/
theorem lower_accounts (options : Options) (use : Use) :
    ∀ e : Expr, (lower options use e).Accounts options (e.nodes.filterMap Expr.definition?)
  | .block body line => by
    rw [lower]
    exact (lowerAll_accounts options false body).bind_quiet fun _ => quiet_useNothing _ _ _
  | .binary left op right line => by
    simp only [lower, Expr.nodes, Expr.definition?, List.filterMap_cons, List.filterMap_append]
    refine (lower_accounts options .value left).bind fun _ => ?_
    refine (lower_accounts options .value right).bind_quiet fun _ => ?_
    refine (quiet_emit _).bind fun _ => ?_
    split
    · exact (emits_useFlag _ _).quiet
    · exact (emits_useValue _ _).quiet
  | .unary .negate operand line => by
    rw [lower]
    refine (lower_accounts options .value operand).bind_quiet fun _ => ?_
    exact (emits_negate _).quiet.bind fun _ => (emits_useValue _ _).quiet
  | .unary .not operand line => by
    rw [lower]
    refine (lower_accounts options .value operand).bind_quiet fun _ => ?_
    exact (emits_isZero _).quiet.bind fun _ => (emits_useFlag _ _).quiet
  | .declare name value line => by
    rw [lower]
    refine (quiet_checkName name line).bind_accounts fun _ => ?_
    have hdeclare : (do declare name; useNothing "LetAssignExpr" line use :
        Lower Unit).Accounts options [] :=
      (accounts_declare name).bind_quiet fun _ => quiet_useNothing _ _ _
    simpa [Expr.nodes, List.filterMap_cons, Expr.definition?] using
      (lower_accounts options .value value).bind fun _ => hdeclare
  | .get name line => by
    rw [lower]
    exact ((quiet_load name line).bind fun _ => (emits_useValue _ _).quiet).accounts
  | .assign name value line => by
    simp only [lower]
    refine (lower_accounts options .value value).bind_quiet fun _ => ?_
    refine (quiet_store name line).bind fun _ => ?_
    cases use with
    | statement => exact quiet_pure ()
    | value => exact quiet_load name line
    | condition => exact (quiet_load name line).bind fun _ => (emits_isNotZero _).quiet
  | .print value line => by
    rw [lower]
    refine (lower_accounts options .value value).bind_quiet fun _ => ?_
    exact (quiet_emit _).bind fun _ => quiet_useNothing _ _ _
  | .ifElse condition thenBranch none line => by
    simp only [lower, Expr.nodes, Expr.definition?, List.filterMap_cons, List.filterMap_append]
    refine (lower_accounts options .condition condition).bind fun _ => ?_
    refine (quiet_emit _).bind_accounts fun _ => ?_
    refine (lower_accounts options .statement thenBranch).bind_quiet fun _ => ?_
    refine (quiet_emit _).bind fun _ => (quiet_emit _).bind fun _ => ?_
    exact quiet_useNothing _ _ _
  | .ifElse condition thenBranch (some elseBranch) line => by
    simp only [lower, Expr.nodes, Expr.definition?, List.filterMap_cons, List.filterMap_append,
      List.append_assoc]
    refine (lower_accounts options .condition condition).bind fun _ => ?_
    refine (quiet_emit _).bind_accounts fun _ => ?_
    refine (lower_accounts options .statement thenBranch).bind fun _ => ?_
    refine (quiet_emit _).bind_accounts fun _ => ?_
    refine (lower_accounts options .statement elseBranch).bind_quiet fun _ => ?_
    exact (quiet_emit _).bind fun _ => quiet_useNothing _ _ _
  | .function name params body line => by
    have hfunction := accounts_function name params line (lowerAll_accounts options true body)
    rw [lower, ← bind_assoc]
    exact hfunction.bind_quiet fun _ => quiet_useNothing _ _ _
  | .call callee args line => by
    simp only [lower, Expr.nodes, Expr.definition?, List.filterMap_cons, List.filterMap_append]
    cases callee with
    | get name line' =>
      refine (quiet_checkCall _ _ _).bind_accounts fun _ => ?_
      refine (lowerArguments_accounts options args).bind_quiet fun _ => ?_
      exact (quiet_emit _).bind fun _ => (emits_useValue _ _).quiet
    -- what is called is not lowered, and if it is not a name nothing else is
    | _ => exact accounts_fail_bind
  | .literal kind value line => by
    simp only [lower]
    cases kind with
    | number => exact ((quiet_constant _ _ _).bind fun _ => (emits_useValue _ _).quiet).accounts
    | true => exact ((quiet_constant _ _ _).bind fun _ => (emits_useValue _ _).quiet).accounts
    | false => exact ((quiet_constant _ _ _).bind fun _ => (emits_useValue _ _).quiet).accounts
    | string =>
      refine (accounts_address value).bind_quiet fun _ => ?_
      exact (emits_widen _).quiet.bind fun _ => (emits_useValue _ _).quiet

theorem lowerAll_accounts (options : Options) (keepLast : Bool) :
    ∀ list : List Expr, (lowerAll options keepLast list).Accounts options
      ((Expr.allNodes list).filterMap Expr.definition?)
  | [] => by
    rw [lowerAll]
    split
    · exact (quiet_emit _).accounts
    · exact (quiet_pure ()).accounts
  | e :: rest => by
    rw [lowerAll, Expr.allNodes, List.filterMap_append]
    split
    · rename_i hlast
      simp only [Bool.and_eq_true, List.isEmpty_iff] at hlast
      obtain ⟨⟨-, rfl⟩, -⟩ := hlast
      simpa [Expr.allNodes] using lower_accounts options .value e
    · exact (lower_accounts options .statement e).bind fun _ =>
        lowerAll_accounts options keepLast rest

theorem lowerArguments_accounts (options : Options) :
    ∀ list : List Expr, (lowerArguments options list).Accounts options
      ((Expr.allNodes list).filterMap Expr.definition?)
  | [] => by
    rw [lowerArguments]
    exact (quiet_pure ()).accounts
  | e :: rest => by
    rw [lowerArguments, Expr.allNodes, List.filterMap_append]
    exact (lower_accounts options .value e).bind fun _ => lowerArguments_accounts options rest

end

end StackScript
