import Mathlib.Data.List.Forall2
import Mathlib.Data.List.Nodup
import StackScript.Proofs.DataLayout
import StackScript.Proofs.LoweringRules

/-!
# What lowering leaves in scope

Lowering only ever adds to a scope, and what it adds is determined by the text: the names of `let`
statements, the functions, and the string literals. What was known where a function was compiled is
therefore still known when the whole program is.

## Main definitions

* `Part.lets`, `Part.functions`, `Part.strings`: what a part of a program adds.
* `Scope.Below`: everything in one scope is in another.
* `Scope.LinkedTo`: a scope of a function in a compiled program.
* `Scope.Records`: a scope after some text.
* `FunctionDef.Compiled`: a function of a module is that of a definition.
* `CompiledProgram`: a module, its parts and the program they come from.

## Main results

* `Compiles.scope_below`: lowering only adds.
* `Compiles.contexts_eq`, `Compiles.frame_eq`: the functions being compiled after a part of a
  program, and the names of the innermost.
* `Compiles.records`: globals, data and signatures after a part of a program.
* `Compiles.addsFunctions`: the functions that a part adds.
* `exists_compiledProgram`: what a module holds that a program has been compiled to.
-/

namespace StackScript

/-! ### The parts of a program -/

namespace Part

/-- The names that a part declares where it stands. -/
@[simp] def lets : Part → List Text
  | node _ e => e.lets
  | statements _ list => Expr.allLets list
  | arguments list => Expr.allLets list

/-- The functions that a part defines. -/
@[simp] def functions : Part → List FunctionDef
  | node _ e => e.functions
  | statements _ list => Expr.allFunctions list
  | arguments list => Expr.allFunctions list

/-- The string literals of a part. -/
@[simp] def strings : Part → List Bytes
  | node _ e => e.strings
  | statements _ list => Expr.allStrings list
  | arguments list => Expr.allStrings list

/-- Whether a part is there for values. -/
@[simp] def ofValues : Part → Bool
  | node use _ => use != .statement
  | statements _ _ => false
  | arguments _ => true

end Part

variable {options : Options} {s s' s'' : Scope} {p : Part} {c : Code}

/-- Only statements declare names and functions. -/
theorem Compiles.adds_nothing (h : Compiles options s p c s') (hp : p.ofValues = true) :
    p.lets = [] ∧ p.functions = [] := by
  induction h with
  | argument _ _ ih ihrest =>
    obtain ⟨hlets, hfunctions⟩ := ih rfl
    obtain ⟨hlets', hfunctions'⟩ := ihrest rfl
    simp_all
  | _ => simp_all

theorem Compiles.lets_eq_nil {use : Use} {e : Expr} (h : Compiles options s (.node use e) c s')
    (huse : use ≠ .statement) : e.lets = [] :=
  (h.adds_nothing (by simpa using huse)).1

theorem Compiles.functions_eq_nil {use : Use} {e : Expr}
    (h : Compiles options s (.node use e) c s') (huse : use ≠ .statement) : e.functions = [] :=
  (h.adds_nothing (by simpa using huse)).2

theorem Compiles.allLets_eq_nil {args : List Expr} (h : Compiles options s (.arguments args) c s') :
    Expr.allLets args = [] :=
  (h.adds_nothing rfl).1

theorem Compiles.allFunctions_eq_nil {args : List Expr}
    (h : Compiles options s (.arguments args) c s') : Expr.allFunctions args = [] :=
  (h.adds_nothing rfl).2

/-! ### Names of a function -/

namespace Frame

/-- All names of a frame. -/
def names (frame : Frame) : List Text := frame.params ++ frame.locals

theorem holds_eq (frame : Frame) (name : Text) : frame.holds name = frame.names.contains name := by
  simp [holds, names]

theorem names_addLocal (frame : Frame) (name : Text) :
    (frame.addLocal name).names =
      if name ∈ frame.names then frame.names else frame.names ++ [name] := by
  unfold addLocal
  rw [holds_eq]
  by_cases h : name ∈ frame.names
  · simp [h]
  · rw [if_neg (by simpa using h), if_neg h]
    exact (List.append_assoc _ _ _).symm

@[simp] theorem addLocal_name (frame : Frame) (name : Text) :
    (frame.addLocal name).name = frame.name := by
  unfold addLocal
  split <;> rfl

@[simp] theorem addLocal_params (frame : Frame) (name : Text) :
    (frame.addLocal name).params = frame.params := by
  unfold addLocal
  split <;> rfl

/-- The frame after some names have been declared. -/
def addLocals (frame : Frame) (names : List Text) : Frame :=
  names.foldl addLocal frame

@[simp] theorem addLocals_nil (frame : Frame) : frame.addLocals [] = frame := rfl

theorem addLocals_append (frame : Frame) (names more : List Text) :
    frame.addLocals (names ++ more) = (frame.addLocals names).addLocals more :=
  List.foldl_append

@[simp] theorem addLocals_name (frame : Frame) (names : List Text) :
    (frame.addLocals names).name = frame.name := by
  induction names generalizing frame with
  | nil => rfl
  | cons name rest ih => exact (ih _).trans (addLocal_name frame name)

@[simp] theorem addLocals_params (frame : Frame) (names : List Text) :
    (frame.addLocals names).params = frame.params := by
  induction names generalizing frame with
  | nil => rfl
  | cons name rest ih => exact (ih _).trans (addLocal_params frame name)

theorem mem_names_addLocals {frame : Frame} {names : List Text} {x : Text} :
    x ∈ (frame.addLocals names).names ↔ x ∈ frame.names ∨ x ∈ names := by
  induction names generalizing frame with
  | nil => simp
  | cons name rest ih =>
    have hstep : frame.addLocals (name :: rest) = (frame.addLocal name).addLocals rest := rfl
    rw [hstep, ih, names_addLocal]
    by_cases h : name ∈ frame.names
    · rw [if_pos h, List.mem_cons]
      constructor
      · exact Or.imp_right Or.inr
      · rintro (hx | rfl | hx)
        · exact .inl hx
        · exact .inl h
        · exact .inr hx
    · simp [h, or_assoc]

/-- No name of a frame occurs twice. -/
theorem nodup_names_addLocals {frame : Frame} (h : frame.names.Nodup) (names : List Text) :
    (frame.addLocals names).names.Nodup := by
  induction names generalizing frame with
  | nil => exact h
  | cons name rest ih =>
    refine ih ?_
    rw [names_addLocal]
    split
    · exact h
    · rename_i hname
      exact List.nodup_append.mpr ⟨h, by simp, by
        intro x hx y hy heq
        rw [List.mem_singleton.mp hy] at heq
        exact hname (heq ▸ hx)⟩

@[simp] theorem addLocal_isEntry (frame : Frame) (name : Text) :
    (frame.addLocal name).isEntry = frame.isEntry := by
  unfold addLocal
  split <;> rfl

@[simp] theorem addLocals_isEntry (frame : Frame) (names : List Text) :
    (frame.addLocals names).isEntry = frame.isEntry := by
  induction names generalizing frame with
  | nil => rfl
  | cons name rest ih => exact (ih _).trans (addLocal_isEntry frame name)

/-- The functions being compiled, after names have been declared in the innermost. The entry has no
cells of its own: what is declared in it is global. -/
def declareAll : List Frame → List Text → List Frame
  | [], _ => []
  | frame :: rest, names => (if frame.isEntry then frame else frame.addLocals names) :: rest

@[simp] theorem declareAll_nil (contexts : List Frame) : declareAll contexts [] = contexts := by
  cases contexts <;> simp [declareAll]

theorem declareAll_append (contexts : List Frame) (names more : List Text) :
    declareAll contexts (names ++ more) = declareAll (declareAll contexts names) more := by
  cases contexts with
  | nil => rfl
  | cons frame rest =>
    cases hentry : frame.isEntry <;> simp [declareAll, hentry, addLocals_append]

end Frame

theorem Scope.contexts_declare (s : Scope) (name : Text) :
    (s.declare name).contexts = Frame.declareAll s.contexts [name] := by
  obtain ⟨module, signatures, contexts⟩ := s
  cases contexts with
  | nil => rfl
  | cons frame rest =>
    cases hentry : frame.isEntry <;>
      simp [declare, Scope.frame, Scope.setFrame, Frame.declareAll, Frame.addLocals, hentry,
        Option.filter_some]

/-- The functions being compiled after a part of a program: names have been declared in the
innermost, and no other has changed. -/
theorem Compiles.contexts_eq (h : Compiles options s p c s') :
    s'.contexts = Frame.declareAll s.contexts p.lets := by
  -- Declarations are statements, so operands leave the functions as they are.
  induction h with
  | block _ ih => exact ih
  | binary hleft hright ihleft ihright =>
    simpa [ihleft, hleft.lets_eq_nil, hright.lets_eq_nil] using ihright
  | negate h ih => simpa [h.lets_eq_nil] using ih
  | not h ih => simpa [h.lets_eq_nil] using ih
  | declare _ h ih => simp [Scope.contexts_declare, ih, h.lets_eq_nil]
  | assign h _ ih => simpa [h.lets_eq_nil] using ih
  | assignValue _ h _ ih => simpa [h.lets_eq_nil] using ih
  | print h ih => simpa [h.lets_eq_nil] using ih
  | ifThen hcondition _ ihcondition ih =>
    simpa [ihcondition, hcondition.lets_eq_nil] using ih
  | ifElse hcondition _ _ ihcondition ihthen ihelse =>
    simpa [ihcondition, ihthen, hcondition.lets_eq_nil, Frame.declareAll_append] using ihelse
  -- a definition is taken off when it is done
  | function _ _ ih =>
    simp only [Part.lets, Expr.lets, Frame.declareAll_nil]
    exact congrArg List.tail ih
  | call _ h ih => simpa [h.allLets_eq_nil] using ih
  | string => simp [Scope.addData]
  | last _ h ih => simpa using ih
  | next _ _ _ ih ihrest => simpa [ih, Frame.declareAll_append] using ihrest
  | argument h hrest ih ihrest =>
    simpa [ih, h.lets_eq_nil, hrest.allLets_eq_nil] using ihrest
  | _ => simp

theorem Scope.frame_of_declareAll {names : List Text}
    (h : s'.contexts = Frame.declareAll s.contexts names) :
    s'.frame = s.frame.map fun frame => frame.addLocals names := by
  unfold Scope.frame
  rw [h]
  cases s.contexts with
  | nil => rfl
  | cons frame rest =>
    cases hentry : frame.isEntry <;> simp [Frame.declareAll, hentry, Option.filter_some]

/-- Nothing is declared in a function at top level. -/
theorem Scope.declareAll_of_topLevel (h : s.frame = none) (names : List Text) :
    Frame.declareAll s.contexts names = s.contexts := by
  unfold Scope.frame at h
  cases hcontexts : s.contexts with
  | nil => rfl
  | cons frame rest =>
    rw [hcontexts] at h
    cases hentry : frame.isEntry <;> simp_all [Frame.declareAll, Option.filter_some]

theorem Scope.frame_declare (s : Scope) (name : Text) :
    (s.declare name).frame = s.frame.map fun frame => frame.addLocals [name] :=
  frame_of_declareAll (s.contexts_declare name)

theorem Scope.frame_ofDefinition (s : Scope) (name : String) (params : List String) :
    (s.enter (.ofDefinition name params)).frame = some (.ofDefinition name params) :=
  rfl

/-- The names of a function after a part of it has been compiled. -/
theorem Compiles.frame_eq (h : Compiles options s p c s') :
    s'.frame = s.frame.map fun frame => frame.addLocals p.lets :=
  Scope.frame_of_declareAll h.contexts_eq

theorem Compiles.isSome_frame (h : Compiles options s p c s') :
    s'.frame.isSome = s.frame.isSome := by
  rw [h.frame_eq, Option.isSome_map]

/-- Functions are defined at top level only. -/
theorem Compiles.functions_eq_nil_of_frame (h : Compiles options s p c s')
    (hframe : s.frame.isSome = true) :
    p.functions = [] := by
  -- A definition is refused inside a function, and the frame stays open along the way.
  induction h with
  | block _ ih => exact ih hframe
  | ifThen hcondition _ _ ih => exact ih (hcondition.isSome_frame.trans hframe)
  | ifElse hcondition hthen _ _ ihthen ihelse =>
    have hframe₁ := hcondition.isSome_frame.trans hframe
    have hthen' := ihthen hframe₁
    have helse' := ihelse (hthen.isSome_frame.trans hframe₁)
    simp_all [Part.functions, Expr.functions]
  | function hdef _ _ => simp [hdef.topLevel] at hframe
  | last _ _ ih => simpa [Part.functions, Expr.allFunctions] using ih hframe
  | next _ hfirst _ ih ihrest =>
    have hfirst' := ih hframe
    have hrest' := ihrest (hfirst.isSome_frame.trans hframe)
    simp_all [Part.functions, Expr.allFunctions]
  | argument hfirst _ ih ihrest =>
    have hfirst' := ih hframe
    have hrest' := ihrest (hfirst.isSome_frame.trans hframe)
    simp_all [Part.functions, Expr.allFunctions]
  | _ => rfl

/-! ### Lowering only adds -/

/-- Everything in one scope is in another, in the same place. -/
structure Scope.Below (s s' : Scope) : Prop where
  globals : s.module.globals <+: s'.module.globals
  data : s.module.data <+: s'.module.data
  signatures : s.signatures <+: s'.signatures

namespace Scope.Below

theorem refl (s : Scope) : s.Below s :=
  ⟨List.prefix_rfl, List.prefix_rfl, List.prefix_rfl⟩

theorem trans (h : s.Below s') (h' : s'.Below s'') : s.Below s'' :=
  ⟨h.globals.trans h'.globals, h.data.trans h'.data, h.signatures.trans h'.signatures⟩

/-- The frame does not matter. -/
theorem of_eq (hmodule : s.module = s'.module) (hsignatures : s.signatures = s'.signatures) :
    s.Below s' :=
  ⟨hmodule ▸ List.prefix_rfl, hmodule ▸ List.prefix_rfl, hsignatures ▸ List.prefix_rfl⟩

theorem declare (s : Scope) (name : Text) : s.Below (s.declare name) := by
  unfold Scope.declare
  split
  · exact of_eq rfl rfl
  · unfold Module.addGlobal
    split
    · exact refl s
    · exact ⟨List.prefix_append _ _, List.prefix_rfl, List.prefix_rfl⟩

theorem addData (s : Scope) (data : Bytes) : s.Below (s.addData data) := by
  unfold Scope.addData Module.addData
  split
  · exact refl s
  · exact ⟨List.prefix_rfl, List.prefix_append _ _, List.prefix_rfl⟩

theorem addSignature (s : Scope) (name : Text) (arity : Nat) :
    s.Below (s.addSignature name arity) :=
  ⟨List.prefix_rfl, List.prefix_rfl, List.prefix_append _ _⟩

theorem isGlobal_mono (h : s.Below s') {name : Text} (hname : s.isGlobal name = true) :
    s'.isGlobal name = true := by
  obtain ⟨more, hmore⟩ := h.globals
  simp only [Scope.isGlobal, Module.global?, ← hmore, List.find?_append] at hname ⊢
  simp [hname]

theorem arity?_mono (h : s.Below s') {name : Text} {n : Nat} (hname : s.arity? name = some n) :
    s'.arity? name = some n := by
  obtain ⟨more, hmore⟩ := h.signatures
  simp only [Scope.arity?, ← hmore, List.lookup_append] at hname ⊢
  simp [hname]

theorem find?_data_mono (h : s.Below s') {text : Bytes} {segment : Segment}
    (hfind : s.module.data.find? (fun segment => segment.data == text) = some segment) :
    s'.module.data.find? (fun segment => segment.data == text) = some segment := by
  obtain ⟨more, hmore⟩ := h.data
  simp [← hmore, List.find?_append, hfind]

end Scope.Below

/-- Lowering only adds to a scope. -/
theorem Compiles.scope_below (h : Compiles options s p c s') : s.Below s' := by
  induction h with
  | binary _ _ ihleft ihright => exact ihleft.trans ihright
  | declare _ _ ih => exact ih.trans (.declare _ _)
  | ifThen _ _ ihcondition ih => exact ihcondition.trans ih
  | ifElse _ _ _ ihcondition ihthen ihelse => exact (ihcondition.trans ihthen).trans ihelse
  -- what the body adds stays when its frame is dropped
  | @function s _ name params _ _ _ _ _ ih =>
    exact (Scope.Below.addSignature s name params.length).trans ⟨ih.globals, ih.data, ih.signatures⟩
  | string => exact .addData _ _
  | next _ _ _ ih ihrest => exact ih.trans ihrest
  | argument _ _ ih ihrest => exact ih.trans ihrest
  | block _ ih => exact ih
  | negate _ ih => exact ih
  | not _ ih => exact ih
  | assign _ _ ih => exact ih
  | assignValue _ _ _ ih => exact ih
  | print _ ih => exact ih
  | call _ _ ih => exact ih
  | last _ _ ih => exact ih
  | _ => exact .refl _

/-! ### Scopes within a program -/

/-- A scope of a function with some cells in a compiled program. -/
structure Scope.LinkedTo (s final : Scope) (locals : List Text) : Prop where
  below : s.Below final
  mem_locals : ∀ {name}, s.isLocal name = true → name ∈ locals

theorem Compiles.isLocal_eq (h : Compiles options s p c s') (name : Text) :
    s'.isLocal name = (s.isLocal name || s.frame.isSome && p.lets.contains name) := by
  unfold Scope.isLocal
  rw [h.frame_eq]
  cases s.frame with
  | none => rfl
  | some frame =>
    rw [Bool.eq_iff_iff]
    simp [Frame.holds_eq, Frame.mem_names_addLocals]

theorem Scope.LinkedTo.of_compiles {final : Scope} {locals : List Text}
    (hs : s'.LinkedTo final locals) (h : Compiles options s p c s') : s.LinkedTo final locals :=
  ⟨h.scope_below.trans hs.below, fun hname => hs.mem_locals (by rw [h.isLocal_eq, hname]; rfl)⟩

theorem Scope.LinkedTo.of_declare {final : Scope} {locals : List Text} {name : Text}
    (hs : (s.declare name).LinkedTo final locals) : s.LinkedTo final locals := by
  refine ⟨(Scope.Below.declare s name).trans hs.below, fun {x} hx => hs.mem_locals ?_⟩
  unfold Scope.isLocal at hx ⊢
  rw [Scope.frame_declare]
  cases hframe : s.frame with
  | none => rw [hframe] at hx; cases hx
  | some frame =>
    rw [hframe] at hx
    simp_all [Frame.holds_eq, Frame.mem_names_addLocals]

theorem Scope.mem_of_isCell {final : Scope} {globals locals : List Text}
    (hglobals : ∀ {name}, final.isGlobal name = true → name ∈ globals)
    (hs : s.LinkedTo final locals) {name : Text} (hname : s.isCell name) :
    name ∈ if s.isLocal name then locals else globals := by
  cases hlocal : s.isLocal name with
  | true => exact hs.mem_locals hlocal
  | false =>
    refine hglobals (hs.below.isGlobal_mono (hname.resolve_left ?_))
    rw [hlocal]
    exact Bool.false_ne_true

/-- A name that has been declared is a cell of the class of declared cells. -/
theorem Scope.mem_of_declare {final : Scope} {globals locals : List Text}
    (hglobals : ∀ {name}, final.isGlobal name = true → name ∈ globals) {name : Text}
    (hs : (s.declare name).LinkedTo final locals) :
    name ∈ if s.frame.isSome then locals else globals := by
  cases hframe : s.frame with
  | some frame =>
    refine hs.mem_locals ?_
    simp [Scope.isLocal, Scope.frame_declare, hframe, Frame.holds_eq, Frame.mem_names_addLocals]
  | none =>
    refine hglobals (hs.below.isGlobal_mono ?_)
    simp only [Scope.isGlobal, Scope.declare, hframe, Module.addGlobal]
    split <;> simp_all [Module.global?]

/-! ### What is added -/

/-- The globals of some names, each once. -/
def globalsNamed (t : ValueType) (names : List Text) : List Global :=
  names.eraseDups.map fun name => ⟨name, true, t⟩

/-- A scope after some text, which holds these names, literals and functions. -/
structure Scope.Records (options : Options) (s : Scope) (names : List Text) (texts : List Bytes)
    (functions : List FunctionDef) : Prop where
  valueType : s.module.valueType = options.valueType
  entry : s.module.entry = options.entry.functionName
  importModule : s.module.importModule = options.importModule
  globals : s.module.globals = globalsNamed options.valueType names
  data : s.module.LaidOut texts
  signatures : s.signatures = functions.map fun f => (f.name, f.params.length)

namespace Scope.Records

variable {names : List Text} {texts : List Bytes} {functions : List FunctionDef}

theorem global?_eq (h : s.Records options names texts functions) (name : Text) :
    s.module.global? name =
      if name ∈ names then some ⟨name, true, options.valueType⟩ else none := by
  unfold Module.global?
  rw [h.globals, globalsNamed, List.find?_map]
  split
  · rename_i hmem
    have hsome : (names.eraseDups.find? fun x => x == name).isSome := by simpa using hmem
    obtain ⟨x, hx⟩ := Option.isSome_iff_exists.mp hsome
    have heq : x = name := by simpa using List.find?_some hx
    subst heq
    exact congrArg (Option.map _) hx
  · rename_i hmem
    rw [Option.map_eq_none_iff, List.find?_eq_none]
    intro x hx heq
    have hname : x = name := by simpa using heq
    exact hmem (by simpa [hname] using hx)

theorem declare (h : s.Records options names texts functions) (name : Text) :
    (s.declare name).Records options (if s.frame.isSome then names else names ++ [name]) texts
      functions := by
  unfold Scope.declare
  cases hframe : s.frame with
  | some frame => exact ⟨h.valueType, h.entry, h.importModule, h.globals, h.data, h.signatures⟩
  | none =>
    unfold Module.addGlobal
    rw [h.global?_eq]
    -- a name declared twice has one cell
    have hglobals : globalsNamed options.valueType (names ++ [name]) =
        if name ∈ names then s.module.globals
        else s.module.globals ++ [⟨name, true, s.module.valueType⟩] := by
      have hsingle : [name].eraseDups = [name] := rfl
      rw [h.globals, h.valueType, globalsNamed, List.eraseDups_append]
      by_cases hmem : name ∈ names <;> simp [hmem, List.removeAll, globalsNamed, hsingle]
    by_cases hmem : name ∈ names
    · rw [if_pos hmem] at hglobals ⊢
      exact ⟨h.valueType, h.entry, h.importModule, hglobals.symm, h.data, h.signatures⟩
    · rw [if_neg hmem] at hglobals ⊢
      exact ⟨h.valueType, h.entry, h.importModule, hglobals.symm, h.data, h.signatures⟩

theorem addData (h : s.Records options names texts functions) (text : Bytes) :
    (s.addData text).Records options names (texts ++ [text]) functions := by
  have hdata := h.data.addData text
  unfold Scope.addData
  unfold Module.addData at hdata ⊢
  split <;> exact ⟨h.valueType, h.entry, h.importModule, h.globals, by simp_all, h.signatures⟩

end Scope.Records

/-- What is known after a part of a program: its names become globals unless it stands in a
function. -/
theorem Compiles.records (h : Compiles options s p c s') {names : List Text}
    {texts : List Bytes} {functions : List FunctionDef}
    (hs : s.Records options names texts functions) :
    s'.Records options (names ++ if s.frame.isSome then [] else p.lets) (texts ++ p.strings)
      (functions ++ p.functions) := by
  -- The parts are recorded in the order in which they are compiled; operands record texts only.
  induction h generalizing names texts functions with
  | block _ ih => exact ih hs
  | binary hleft hright ihleft ihright =>
    simpa [hleft.lets_eq_nil, hleft.functions_eq_nil, hright.lets_eq_nil, hright.functions_eq_nil]
      using ihright (ihleft hs)
  | negate h ih => simpa [h.lets_eq_nil, h.functions_eq_nil] using ih hs
  | not h ih => simpa [h.lets_eq_nil, h.functions_eq_nil] using ih hs
  | declare _ h ih =>
    have hvalue := (ih hs).declare
    rw [h.isSome_frame] at hvalue
    split at hvalue <;> simp_all [h.lets_eq_nil, h.functions_eq_nil]
  | assign h _ ih => simpa [h.lets_eq_nil, h.functions_eq_nil] using ih hs
  | assignValue huse h _ ih => simpa [h.lets_eq_nil, h.functions_eq_nil] using ih hs
  | print h ih => simpa [h.lets_eq_nil, h.functions_eq_nil] using ih hs
  | ifThen hcondition _ ihcondition ih =>
    simpa [hcondition.lets_eq_nil, hcondition.functions_eq_nil, hcondition.isSome_frame]
      using ih (ihcondition hs)
  | ifElse hcondition hthen _ ihcondition ihthen ihelse =>
    have hrecords := ihelse (ihthen (ihcondition hs))
    rw [hthen.isSome_frame, hcondition.isSome_frame] at hrecords
    split at hrecords <;> simp_all [hcondition.lets_eq_nil, hcondition.functions_eq_nil]
  | @function s _ name params body _ _ hdef hbody ih =>
    -- the function is known inside its own body
    have hknown : Scope.Records options
        ((s.addSignature name params.length).enter (.ofDefinition name params)) names texts
        (functions ++ [⟨name, params.map .plain, body⟩]) :=
      ⟨hs.valueType, hs.entry, hs.importModule, hs.globals, hs.data, by
        simp [Scope.enter, Scope.addSignature, hs.signatures]⟩
    have hinner := ih hknown
    -- its body defines no function, and its declarations are not global
    rw [hbody.functions_eq_nil_of_frame rfl, Scope.frame_ofDefinition] at hinner
    simp only [Option.isSome_some, if_true, List.append_nil] at hinner
    exact ⟨hinner.valueType, hinner.entry, hinner.importModule, by
        simpa [Scope.leave, Module.addFunction] using hinner.globals,
      hinner.data, hinner.signatures⟩
  | call _ h ih => simpa [h.allLets_eq_nil, h.allFunctions_eq_nil] using ih hs
  | number hkind _ =>
    obtain ⟨rfl, -⟩ | ⟨rfl, -⟩ | ⟨rfl, -⟩ := hkind <;> simpa using hs
  | string => simpa using hs.addData _
  | last _ h ih => simpa [h.lets_eq_nil, h.functions_eq_nil] using ih hs
  | next _ hfirst _ ih ihrest =>
    have hrecords := ihrest (ih hs)
    rw [hfirst.isSome_frame] at hrecords
    split at hrecords <;> simp_all
  | argument h hrest ih ihrest =>
    simpa [h.lets_eq_nil, h.functions_eq_nil, hrest.allLets_eq_nil, hrest.allFunctions_eq_nil]
      using ihrest (ih hs)
  | _ => simpa using hs

/-! ### Functions -/

/-- A function of a module is that of a definition: its body was compiled where no more was known
than in some scope. -/
structure FunctionDef.CompiledIn (options : Options) (final : Scope) (d : FunctionDef) (f : Func)
    (s inner : Scope) (c : Code) : Prop where
  frame : s.frame = some { name := d.name, params := d.params }
  compiles : Compiles options s (.statements true d.body) c inner
  below : inner.Below final
  func : f = (({ name := d.name, params := d.params } : Frame).addLocals
    (Expr.allLets d.body)).function (some options.valueType) c.flatten
  nodup : d.params.Nodup
  ne_log : d.name ≠ logFunction
  ne_entry : d.name ≠ options.entry.functionName

namespace FunctionDef.CompiledIn

variable {final : Scope} {d : FunctionDef} {f : Func} {inner : Scope}

theorem params_eq (h : d.CompiledIn options final f s inner c) : f.params = d.params := by
  simp [h.func, Frame.function]

theorem body_eq (h : d.CompiledIn options final f s inner c) : f.body = c.flatten := by
  rw [h.func, Frame.function]

/-- The cells of a function are the names of its frame. -/
theorem names_eq (h : d.CompiledIn options final f s inner c) :
    f.params ++ f.locals = (({ name := d.name, params := d.params } : Frame).addLocals
      (Expr.allLets d.body)).names := by
  rw [h.func]
  rfl

theorem nodup_names (h : d.CompiledIn options final f s inner c) :
    (f.params ++ f.locals).Nodup := by
  rw [h.names_eq]
  exact Frame.nodup_names_addLocals (by simpa [Frame.names] using h.nodup) _

theorem linkedTo (h : d.CompiledIn options final f s inner c) :
    inner.LinkedTo final (f.params ++ f.locals) := by
  refine ⟨h.below, fun {name} hname => ?_⟩
  rw [Scope.isLocal, h.compiles.frame_eq, h.frame] at hname
  rw [h.names_eq]
  simpa [Frame.holds_eq] using hname

end FunctionDef.CompiledIn

/-- A function of a module is that of a definition. -/
def FunctionDef.Compiled (options : Options) (final : Scope) (d : FunctionDef) (f : Func) : Prop :=
  ∃ s inner c, d.CompiledIn options final f s inner c

/-- Between two scopes the functions of some definitions have been compiled. -/
def Scope.AddsFunctions (options : Options) (s s' : Scope) (defs : List FunctionDef) : Prop :=
  ∃ functions, s'.module.functions = s.module.functions ++ functions ∧
    List.Forall₂ (FunctionDef.Compiled options s') defs functions

theorem FunctionDef.Compiled.mono {d : FunctionDef} {f : Func} (h : d.Compiled options s f)
    (hbelow : s.Below s') : d.Compiled options s' f := by
  obtain ⟨start, inner, c, h⟩ := h
  exact ⟨start, inner, c, { h with below := h.below.trans hbelow }⟩

namespace Scope.AddsFunctions

theorem of_eq (h : s'.module.functions = s.module.functions) : s.AddsFunctions options s' [] :=
  ⟨[], by simp [h], .nil⟩

theorem trans {defs defs' : List FunctionDef} (h : s.AddsFunctions options s' defs)
    (h' : s'.AddsFunctions options s'' defs') (hbelow : s'.Below s'') :
    s.AddsFunctions options s'' (defs ++ defs') := by
  obtain ⟨functions, heq, hall⟩ := h
  obtain ⟨functions', heq', hall'⟩ := h'
  refine ⟨functions ++ functions', by simp [heq, heq'], ?_⟩
  exact List.rel_append (hall.imp fun _ _ hd => hd.mono hbelow) hall'

end Scope.AddsFunctions

theorem Scope.functions_declare (s : Scope) (name : Text) :
    (s.declare name).module.functions = s.module.functions := by
  unfold declare
  split
  · rfl
  · unfold Module.addGlobal
    split <;> rfl

theorem Scope.functions_addData (s : Scope) (data : Bytes) :
    (s.addData data).module.functions = s.module.functions := by
  unfold addData Module.addData
  split <;> rfl

/-- The functions that a part of a program adds to a module are those it defines. -/
theorem Compiles.addsFunctions (h : Compiles options s p c s') :
    s.AddsFunctions options s' p.functions := by
  induction h with
  | block _ ih => exact ih
  | binary hleft hright ihleft ihright =>
    simpa [hleft.functions_eq_nil, hright.functions_eq_nil] using
      ihleft.trans ihright hright.scope_below
  | negate h ih => simpa [h.functions_eq_nil] using ih
  | not h ih => simpa [h.functions_eq_nil] using ih
  | declare _ h ih =>
    simpa [h.functions_eq_nil] using
      ih.trans (.of_eq (Scope.functions_declare _ _)) (.declare _ _)
  | assign h _ ih => simpa [h.functions_eq_nil] using ih
  | assignValue _ h _ ih => simpa [h.functions_eq_nil] using ih
  | print h ih => simpa [h.functions_eq_nil] using ih
  | ifThen hcondition hthen ihcondition ih =>
    simpa [hcondition.functions_eq_nil] using ihcondition.trans ih hthen.scope_below
  | ifElse hcondition hthen helse ihcondition ihthen ihelse =>
    simpa [hcondition.functions_eq_nil] using
      (ihcondition.trans ihthen hthen.scope_below).trans ihelse helse.scope_below
  | @function s inner name params body _ c hdef hbody ih =>
    obtain ⟨functions, heq, hall⟩ := ih
    -- the body defines nothing, so the function itself is all that is added
    rw [hbody.functions_eq_nil_of_frame rfl, List.forall₂_nil_left_iff] at hall
    have hmodule : inner.module.functions = s.module.functions := by
      simpa [hall, Scope.enter, Scope.addSignature] using heq
    have hframe : inner.contexts.headD (.ofDefinition name params) =
        (Frame.ofDefinition name params).addLocals (Expr.allLets body) := by
      rw [hbody.contexts_eq]
      rfl
    rw [hframe]
    have hcompiled : FunctionDef.CompiledIn options
        (inner.leave (((Frame.ofDefinition name params).addLocals (Expr.allLets body)).function
          (some options.valueType) c.flatten))
        ⟨name, params.map .plain, body⟩ (((Frame.ofDefinition name params).addLocals
          (Expr.allLets body)).function (some options.valueType) c.flatten) _ inner c :=
      ⟨rfl, hbody, ⟨List.prefix_rfl, List.prefix_rfl, List.prefix_rfl⟩, rfl,
        List.Nodup.map (fun _ _ => Text.plain.inj) hdef.nodup,
        fun h => hdef.ne_log (Text.plain.inj h), fun h => hdef.ne_entry (Text.plain.inj h)⟩
    exact ⟨[_], by simp only [Scope.leave, Module.addFunction, hmodule],
      .cons ⟨_, _, _, hcompiled⟩ .nil⟩
  | call _ h ih => simpa [h.allFunctions_eq_nil] using ih
  | string => exact .of_eq (Scope.functions_addData _ _)
  | last _ h ih => simpa [h.functions_eq_nil] using ih
  | next _ _ hrest ih ihrest => exact ih.trans ihrest hrest.scope_below
  | argument _ hrest ih ihrest => exact ih.trans ihrest hrest.scope_below
  | _ => exact .of_eq rfl

/-! ### Programs -/

/-- The functions of a module other than its entry. -/
def Module.named (m : Module) : List Func :=
  m.functions.filter fun f => f.name != m.entry

/-- A program has been compiled to a module: the code of its top level, the scope behind it, and the
functions. -/
structure CompiledProgram (options : Options) (program : Program) (m : Module) (c : Code)
    (final : Scope) : Prop where
  compiles : Compiles options options.startScope
    (.statements options.entry.returnsValue program) c final
  records : final.Records options (Expr.allLets program) (Expr.allStrings program)
    (Expr.allFunctions program)
  functions : List.Forall₂ (FunctionDef.Compiled options final) (Expr.allFunctions program)
    final.module.functions
  module_eq : m = final.module.addFunction (options.entryFunction c.flatten)

/-- What top-level code that follows the rules becomes. -/
theorem Compiles.compiledProgram {program : Program} {final : Scope}
    (h : Compiles options options.startScope
      (.statements options.entry.returnsValue program) c final) :
    CompiledProgram options program (final.module.addFunction (options.entryFunction c.flatten)) c
      final := by
  have hempty : Scope.Records options options.startScope [] [] [] :=
    ⟨rfl, rfl, rfl, rfl, rfl, rfl⟩
  obtain ⟨functions, heq, hfunctions⟩ := h.addsFunctions
  have htop : options.startScope.frame = none := rfl
  refine ⟨h, by simpa [htop] using h.records hempty, ?_, rfl⟩
  rw [heq]
  exact hfunctions

/-- The entry is the function that is left at the end, as it was entered. -/
theorem Compiles.entry_eq {final : Scope} (h : Compiles options options.startScope p c final) :
    final.contexts = [options.entryFrame] :=
  h.contexts_eq

/-- What a module holds that a program has been compiled to. -/
theorem exists_compiledProgram {program : Program} {m : Module}
    (h : (generate options program).result = .ok m) :
    ∃ c final, CompiledProgram options program m c final := by
  obtain ⟨c, final, hcompiles, rfl⟩ := exists_compiles_of_generate h
  rw [hcompiles.entry_eq]
  exact ⟨c, final, hcompiles.compiledProgram⟩

theorem FunctionDef.Compiled.name_eq {final : Scope} {d : FunctionDef} {f : Func}
    (h : d.Compiled options final f) : f.name = d.name := by
  obtain ⟨_, _, _, h⟩ := h
  simp [h.func, Frame.function]

theorem FunctionDef.Compiled.params_eq {final : Scope} {d : FunctionDef} {f : Func}
    (h : d.Compiled options final f) : f.params = d.params := by
  obtain ⟨_, _, _, h⟩ := h
  exact h.params_eq

namespace CompiledProgram

variable {program : Program} {m : Module} {final : Scope}

theorem valueType_eq (h : CompiledProgram options program m c final) :
    m.valueType = options.valueType := by
  rw [h.module_eq]
  exact h.records.valueType

theorem entry_eq (h : CompiledProgram options program m c final) :
    m.entry = options.entry.functionName := by
  rw [h.module_eq]
  exact h.records.entry

theorem importModule_eq (h : CompiledProgram options program m c final) :
    m.importModule = options.importModule := by
  rw [h.module_eq]
  exact h.records.importModule

theorem globals_eq (h : CompiledProgram options program m c final) :
    m.globals = globalsNamed options.valueType (Expr.allLets program) := by
  rw [h.module_eq]
  exact h.records.globals

/-- The names of the globals are those that the program declares, each once. -/
theorem names_globals (h : CompiledProgram options program m c final) :
    m.globals.map Global.name = (Expr.allLets program).eraseDups := by
  simp [h.globals_eq, globalsNamed, Function.comp_def]

theorem type_globals (h : CompiledProgram options program m c final) :
    ∀ g ∈ m.globals, g.type = options.valueType := by
  simp [h.globals_eq, globalsNamed]

theorem laidOut (h : CompiledProgram options program m c final) :
    m.LaidOut (Expr.allStrings program) := by
  rw [h.module_eq]
  exact h.records.data

/-- The top level has no cells of its own. -/
theorem linkedTo (h : CompiledProgram options program m c final) : final.LinkedTo final [] := by
  refine ⟨.refl final, fun {name} hname => ?_⟩
  rw [Scope.isLocal, h.compiles.frame_eq] at hname
  cases hname

/-- The definition of a name and the function of that name belong together. -/
theorem find?_compiled {defs : List FunctionDef} {functions : List Func}
    (h : List.Forall₂ (FunctionDef.Compiled options final) defs functions) (name : Text) :
    Option.Rel (FunctionDef.Compiled options final) (defs.find? fun d => d.name == name)
      (functions.find? fun f => f.name == name) := by
  induction h with
  | nil => exact .none
  | @cons d f _ _ hd _ ih =>
    rw [List.find?_cons, List.find?_cons, hd.name_eq]
    split
    · exact .some hd
    · exact ih

theorem lookup_signatures (defs : List FunctionDef) (name : Text) :
    (defs.map fun d => (d.name, d.params.length)).lookup name =
      (defs.find? fun d => d.name == name).map fun d => d.params.length := by
  induction defs with
  | nil => rfl
  | cons d rest ih =>
    rw [List.map_cons, List.lookup_cons, List.find?_cons, BEq.comm]
    split <;> simp_all

theorem function?_eq (h : CompiledProgram options program m c final) (name : Text) :
    m.function? name = (final.module.functions.find? fun f => f.name == name).or
      ([options.entryFunction c.flatten].find? fun f => f.name == name) := by
  rw [h.module_eq]
  exact List.find?_append

/-- A function other than the entry is that of a definition. -/
theorem exists_definition (h : CompiledProgram options program m c final) {f : Func}
    (hf : f ∈ final.module.functions) :
    ∃ d ∈ Expr.allFunctions program, d.Compiled options final f := by
  obtain ⟨i, hi, rfl⟩ := List.getElem_of_mem hf
  have hlength := h.functions.length_eq
  exact ⟨_, List.getElem_mem (hlength ▸ hi), h.functions.get (hlength ▸ hi) hi⟩

theorem functions_eq (h : CompiledProgram options program m c final) :
    m.functions = final.module.functions ++ [options.entryFunction c.flatten] := by
  rw [h.module_eq]
  rfl

/-- The functions of a module are the entry and those that are defined. -/
theorem mem_functions (h : CompiledProgram options program m c final) {f : Func}
    (hf : f ∈ m.functions) :
    f = options.entryFunction c.flatten ∨
      ∃ d ∈ Expr.allFunctions program, d.Compiled options final f := by
  rw [h.functions_eq] at hf
  rcases List.mem_append.mp hf with hf | hf
  · exact .inr (h.exists_definition hf)
  · exact .inl (List.mem_singleton.mp hf)

theorem function?_cases (h : CompiledProgram options program m c final) {name : Text} {f : Func}
    (hf : m.function? name = some f) :
    f = options.entryFunction c.flatten ∨
      ∃ d : FunctionDef, d.name = name ∧ d.Compiled options final f := by
  rcases h.mem_functions (List.mem_of_find?_eq_some hf) with hentry | ⟨d, -, hd⟩
  · exact .inl hentry
  · have hname : f.name = name := by simpa using List.find?_some hf
    exact .inr ⟨d, hd.name_eq ▸ hname, hd⟩

/-- A function with a signature has a definition and is in the module. -/
theorem exists_function (h : CompiledProgram options program m c final) {name : Text} {arity : Nat}
    (harity : final.arity? name = some arity) :
    ∃ d f, (Expr.allFunctions program).find? (fun d => d.name == name) = some d ∧
      m.function? name = some f ∧ d.Compiled options final f ∧ f.arity = arity := by
  have hfind := find?_compiled h.functions name
  rw [Scope.arity?, h.records.signatures, lookup_signatures] at harity
  obtain ⟨d, hd, hcount⟩ := Option.map_eq_some_iff.mp harity
  rw [hd] at hfind
  cases hf : final.module.functions.find? fun f => f.name == name with
  | none => rw [hf] at hfind; cases hfind
  | some f =>
    rw [hf] at hfind
    cases hfind with
    | some hcompiled =>
      refine ⟨d, f, hd, by rw [h.function?_eq, hf]; rfl, hcompiled, ?_⟩
      rw [Func.arity, hcompiled.params_eq, hcount]

/-- The entry is the function that runs the top-level code. -/
theorem function?_entry (h : CompiledProgram options program m c final) :
    m.function? options.entry.functionName = some (options.entryFunction c.flatten) := by
  have hsome : (m.function? options.entry.functionName).isSome = true := by
    rw [h.function?_eq, Option.isSome_or]
    simp [Options.entryFunction]
  obtain ⟨f, hf⟩ := Option.isSome_iff_exists.mp hsome
  rcases h.function?_cases hf with rfl | ⟨d, hname, _, _, _, hd⟩
  · exact hf
  · exact absurd hname hd.ne_entry

/-- Only the last function of a module is its entry. -/
theorem named_eq (h : CompiledProgram options program m c final) :
    m.named = final.module.functions := by
  have hnamed : ∀ f ∈ final.module.functions, (f.name != options.entry.functionName) = true := by
    intro f hf
    obtain ⟨d, -, hd⟩ := h.exists_definition hf
    obtain ⟨_, _, _, hd'⟩ := id hd
    simpa [hd.name_eq] using hd'.ne_entry
  rw [Module.named, h.entry_eq, h.functions_eq]
  simp [List.filter_append, Options.entryFunction, List.filter_eq_self.mpr hnamed]

end CompiledProgram

end StackScript
