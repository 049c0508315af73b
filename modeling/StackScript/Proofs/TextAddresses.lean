import Mathlib.Order.Bounds.Defs
import StackScript.Proofs.CallHistories
import StackScript.Proofs.CompiledText
import StackScript.Proofs.ProgramNodes

/-!
# The addresses of texts

A text of a program stands for its address. The texts of a compiled program lie side by side in
memory from address zero on, each once, in the fewest pages that hold them. Code pushes the address
of a text as a number of the module's type, and this number is exact as long as a single can count
the bytes. No call changes the memory, so that a host that is given the number can read the text
there at any time, also while a call runs and also after the module has been written and read again,
if the name of its import lets it be read.

## Main definitions

* `PushesTexts`: code that pushes the addresses of some texts, in order, and no others.
* `Instance.Visits`: a machine as it is between some calls or within one.
* `LiteralValue`: a literal has an address as its exact value.
* `Module.KeepsReadable`: some data can be read in a module at any time.
* `Module.HoldsTexts`: what a module does with the texts of a program.

## Main results

* `Compiles.pushesTexts`: the code of a part of a program pushes the addresses of its texts.
* `Value.exists_exact`: small numbers are exact in every type.
* `Machine.Idle.memory_eq_of_visits`: no call changes the memory.
* `generate_holdsTexts`: what compiling does with the texts of a program.
-/

namespace StackScript

open Code

/-! ### Code that pushes addresses -/

/-- Pushes an address as a number of a type. -/
def ValueType.addressActions (t : ValueType) (address : Int) : List Action :=
  .plain "i32.const" (.int address) :: t.widenActions

/-- An instruction that pushes an address. -/
def Instr.IsAddress (instr : Instr) : Prop :=
  ∃ address, instr = .plain "i32.const" (.int address)

/-- Code that pushes the addresses of some texts among data, in this order, and no other address. -/
inductive PushesTexts (t : ValueType) (data : List Segment) : List Instr → List Bytes → Prop
  | nil : PushesTexts t data [] []
  | text {address : Int} {text : Bytes} {code : List Instr} {texts : List Bytes} :
      ⟨address, text⟩ ∈ data → PushesTexts t data code texts →
      PushesTexts t data ((t.addressActions address).map Action.instr ++ code) (text :: texts)
  | other {instr : Instr} {code : List Instr} {texts : List Bytes} :
      ¬ instr.IsAddress → PushesTexts t data code texts → PushesTexts t data (instr :: code) texts

namespace PushesTexts

variable {t : ValueType} {data : List Segment}

theorem append {code code' : List Instr} {texts texts' : List Bytes}
    (h : PushesTexts t data code texts) (h' : PushesTexts t data code' texts') :
    PushesTexts t data (code ++ code') (texts ++ texts') := by
  induction h with
  | nil => exact h'
  | text hdata _ ih =>
    rw [List.append_assoc]
    exact .text hdata ih
  | other hinstr _ ih => exact .other hinstr ih

/-- Actions without an address. -/
theorem of_acts {actions : List Action} (h : ∀ action ∈ actions, ¬ action.instr.IsAddress) :
    PushesTexts t data (acts actions).flatten [] := by
  induction actions with
  | nil => exact .nil
  | cons action rest ih =>
    rw [List.forall_mem_cons] at h
    exact .other h.1 (ih h.2)

/-- Code and then actions without an address. -/
theorem append_acts {c : Code} {texts : List Bytes} {actions : List Action}
    (h : PushesTexts t data c.flatten texts)
    (hactions : ∀ action ∈ actions, ¬ action.instr.IsAddress) :
    PushesTexts t data (c ++ acts actions).flatten texts := by
  rw [flatten_append, ← List.append_nil texts]
  exact h.append (of_acts hactions)

/-- A conditional. -/
theorem ifElse {first second : List Instr} {texts texts' : List Bytes}
    (hfirst : PushesTexts t data first texts) (hsecond : PushesTexts t data second texts') :
    PushesTexts t data (.openIf :: (first ++ .openElse :: (second ++ [.closeIf])))
      (texts ++ texts') := by
  have hend : PushesTexts t data [.closeIf] [] := .other (fun ⟨_, h⟩ => by cases h) .nil
  rw [← List.append_nil texts']
  exact .other (fun ⟨_, h⟩ => by cases h)
    (hfirst.append (.other (fun ⟨_, h⟩ => by cases h) (hsecond.append hend)))

end PushesTexts

section Pieces

@[simp] theorem Instr.not_isAddress_bare (name : Text) : ¬ (Instr.bare name).IsAddress := by
  rintro ⟨address, h⟩
  cases h

@[simp] theorem Instr.not_isAddress_named (name operand : Text) :
    ¬ (Instr.named name operand).IsAddress := by
  rintro ⟨address, h⟩
  cases h

@[simp] theorem Action.not_isAddress_const (d : Datum) : ¬ (Action.const d).instr.IsAddress := by
  rintro ⟨address, h⟩
  cases h

@[simp] theorem Action.not_isAddress_call (name : Text) :
    ¬ (Action.call name).instr.IsAddress := by
  rintro ⟨address, h⟩
  cases h

variable (t : ValueType) (use : Use)

theorem not_isAddress_ofValue : ∀ action ∈ use.ofValue t, ¬ action.instr.IsAddress := by
  cases use with
  | statement => simp [Use.ofValue]
  | value => simp [Use.ofValue]
  | condition => cases t <;> simp [Use.ofValue, ValueType.isNotZeroActions]

theorem not_isAddress_widen : ∀ action ∈ t.widenActions, ¬ action.instr.IsAddress := by
  cases t <;> simp [ValueType.widenActions, ValueType.fromFlag?]

theorem not_isAddress_ofFlag : ∀ action ∈ use.ofFlag t, ¬ action.instr.IsAddress := by
  have hwiden := not_isAddress_widen t
  cases use with
  | statement => simpa [Use.ofFlag, or_imp, forall_and] using hwiden
  | value => exact hwiden
  | condition => simp [Use.ofFlag]

theorem not_isAddress_isZero : ∀ action ∈ t.isZeroActions, ¬ action.instr.IsAddress := by
  cases t <;> simp [ValueType.isZeroActions, ValueType.isFloat]

theorem not_isAddress_negate : ∀ action ∈ t.negateActions, ¬ action.instr.IsAddress := by
  cases t <;> simp [ValueType.negateActions, ValueType.isFloat]

end Pieces

/-- Some statements' texts outside functions, in order. -/
def Expr.outerTexts (statements : List Expr) : List Bytes :=
  (allOuterNodes statements).filterMap text?

/-- The code of a part of a program pushes the addresses of its texts. -/
theorem Compiles.pushesTexts {options : Options} {s s' : Scope} {p : Part} {c : Code}
    (h : Compiles options s p c s') {final : Scope} (hbelow : s'.Below final) :
    PushesTexts options.valueType final.module.data c.flatten
      (p.outerNodes.filterMap Expr.text?) := by
  -- No instruction but the address of a text can be taken for one.
  induction h with
  | block _ ih => exact ih hbelow
  | @binary s s₁ s₂ use left right op line c d _ hright ihleft ihright =>
    have hboth := (ihleft (hright.scope_below.trans hbelow)).append (ihright hbelow)
    rw [← flatten_append, ← List.filterMap_append] at hboth
    refine hboth.append_acts (List.forall_mem_cons.mpr ⟨Instr.not_isAddress_bare _, ?_⟩)
    split
    · exact not_isAddress_ofFlag _ use
    · exact not_isAddress_ofValue _ use
  | negate _ ih =>
    refine (ih hbelow).append_acts (List.forall_mem_append.mpr ?_)
    exact ⟨not_isAddress_negate _, not_isAddress_ofValue _ _⟩
  | not _ ih =>
    refine (ih hbelow).append_acts (List.forall_mem_append.mpr ?_)
    exact ⟨not_isAddress_isZero _, not_isAddress_ofFlag _ _⟩
  | declare _ _ ih =>
    exact (ih ((Scope.Below.declare _ _).trans hbelow)).append_acts (by simp)
  | get _ =>
    refine .of_acts (List.forall_mem_cons.mpr ?_)
    exact ⟨Instr.not_isAddress_named _ _, not_isAddress_ofValue _ _⟩
  | assign _ _ ih => exact (ih hbelow).append_acts (by simp)
  | assignValue _ _ _ ih =>
    refine (ih hbelow).append_acts (List.forall_mem_cons.mpr ⟨Instr.not_isAddress_named _ _, ?_⟩)
    exact List.forall_mem_cons.mpr ⟨Instr.not_isAddress_named _ _, not_isAddress_ofValue _ _⟩
  | print _ ih => exact (ih hbelow).append_acts (by simp)
  | ifThen _ hthen ihcondition ih =>
    have hfirst := ihcondition (hthen.scope_below.trans hbelow)
    simpa [flatten, Part.outerNodes, Expr.outerNodes, List.filterMap_cons, Expr.text?] using
      hfirst.append (.ifElse (ih hbelow) .nil)
  | ifElse _ hthen helse ihcondition ihthen ihelse =>
    have hbelow₂ := helse.scope_below.trans hbelow
    have hfirst := ihcondition (hthen.scope_below.trans hbelow₂)
    simpa [flatten, Part.outerNodes, Expr.outerNodes, List.filterMap_cons, Expr.text?] using
      hfirst.append (.ifElse (ihthen hbelow₂) (ihelse hbelow))
  -- a definition leaves no code where it stands
  | function _ _ _ => exact .nil
  | call _ _ ih =>
    refine (ih hbelow).append_acts (List.forall_mem_cons.mpr ?_)
    exact ⟨Action.not_isAddress_call _, not_isAddress_ofValue _ _⟩
  | number hkind _ =>
    obtain ⟨rfl, -⟩ | ⟨rfl, -⟩ | ⟨rfl, -⟩ := hkind <;>
      exact .of_acts (List.forall_mem_cons.mpr
        ⟨Action.not_isAddress_const _, not_isAddress_ofValue _ _⟩)
  | @string s use text line =>
    -- the text was laid out when it was met, and no later step moves it
    have hmem := List.mem_of_find?_eq_some (s.module.find?_addData (utf8 text))
    have hrest : PushesTexts options.valueType final.module.data
        (acts (use.ofValue options.valueType)).flatten [] := .of_acts (not_isAddress_ofValue _ use)
    rw [flatten_acts] at hrest ⊢
    rw [List.map_append]
    exact .text (hbelow.data.subset hmem) hrest
  | done => exact .nil
  | zero => exact .of_acts (by simp)
  | last _ _ ih =>
    simpa [Part.outerNodes, Expr.allOuterNodes] using ih hbelow
  | next _ _ hrest ih ihrest =>
    simpa [Part.outerNodes, Expr.allOuterNodes] using
      (ih (hrest.scope_below.trans hbelow)).append (ihrest hbelow)
  | noArguments => exact .nil
  | argument _ hrest ih ihrest =>
    simpa [Part.outerNodes, Expr.allOuterNodes] using
      (ih (hrest.scope_below.trans hbelow)).append (ihrest hbelow)

/-- Each function pushes the addresses of the texts in its definition, and the entry those of the
texts outside functions. -/
theorem CompiledProgram.pushesTexts {options : Options} {program : Program} {m : Module} {c : Code}
    {final : Scope} (h : CompiledProgram options program m c final) :
    List.Forall₂ (fun statements f =>
        PushesTexts m.valueType m.data f.body (Expr.outerTexts statements))
      ((Expr.definitions program).map FunctionDef.body ++ [program]) m.functions := by
  have hdata : m.data = final.module.data := by
    rw [h.module_eq]
    rfl
  rw [h.valueType_eq, hdata, h.functions_eq, h.definitions_eq]
  refine List.rel_append ?_ (.cons (h.compiles.pushesTexts (.refl final)) .nil)
  rw [List.forall₂_map_left_iff]
  refine h.functions.imp fun d f ⟨s, inner, body, hd⟩ => ?_
  rw [hd.body_eq]
  exact hd.compiles.pushesTexts hd.below

/-! ### Addresses as numbers -/

/-- The natural numbers up to the first that has more bits than the significand of a single are
exact in every type. -/
theorem Value.exists_exact (t : ValueType) {n : Nat} (hn : n ≤ 2 ^ 24) :
    ∃ v, ofInteger t n = .ok v ∧ v.toDatum.sameNumber (.int n) = true := by
  -- up to this bound even the narrowest type has every integer
  have hsingle : Floating.Represents .binary32 n :=
    Floating.represents_of_le (by decide) (by decide) hn
  have hdouble : Floating.Represents .binary64 n :=
    Floating.represents_of_lt (by decide) (by decide) (Nat.lt_of_le_of_lt hn (by decide))
  have hsame {x : Double} (hx : x.IsNat n) : (Datum.real x).sameNumber (.int n) = true := by
    simp [Datum.sameNumber, Datum.intEqDouble, hx.isWhole, hx.truncate?]
  have hn' := Floating.isNat_ofInt hdouble
  have hconverted : Datum.doubleOfInt n = .ok (.ofInt n) := by
    simp [Datum.doubleOfInt, hn'.isInfinite]
  cases t with
  | i32 =>
    refine ⟨_, rfl, beq_iff_eq.mpr ?_⟩
    rw [toWord_eq_ofInt, BitVec.toInt_ofInt_eq_self (by decide)] <;> omega
  | i64 =>
    refine ⟨_, rfl, beq_iff_eq.mpr ?_⟩
    rw [toWord_eq_ofInt, BitVec.toInt_ofInt_eq_self (by decide)] <;> omega
  | f32 =>
    refine ⟨.f32 ((.ofInt n : Double).convert .binary32), by rw [ofInteger, hconverted]; rfl, ?_⟩
    exact hsame ((hn'.convert hsingle).convert hdouble)
  | f64 => exact ⟨.f64 (.ofInt n), by rw [ofInteger, hconverted]; rfl, hsame hn'⟩

/-- A literal has an address as its value, exactly, wherever a program is evaluated. Code that
pushes the address pushes this value. -/
structure LiteralValue (options : Options) (program : Program) (literal : Expr)
    (address : Nat) (v : Value) : Prop where
  type_eq : v.type = options.valueType
  sameNumber : v.toDatum.sameNumber (.int address) = true
  evaluates : ∀ host call names, evaluate (program.setting options host) call names literal = pure v
  executes : ∀ inst callee function a,
    (acts (options.valueType.addressActions address)).exec inst callee function a = a.push (.ok v)

theorem Module.LaidOut.mem_data {m : Module} {texts : List Bytes} {text : Bytes}
    (h : m.LaidOut texts) (htext : text ∈ texts) :
    ⟨addressAmong texts text, text⟩ ∈ m.data := by
  have hfind := find?_layoutFrom 0 texts.eraseDups text
  rw [← h, if_pos (List.mem_eraseDups.mpr htext)] at hfind
  rw [← h.offset_eq hfind]
  exact List.mem_of_find?_eq_some hfind

/-- As long as a single can count the bytes, the value of a text is exactly its address. -/
theorem CompiledProgram.exists_literalValue {options : Options} {program : Program} {m : Module}
    {c : Code} {final : Scope} (h : CompiledProgram options program m c final)
    (hsize : totalLength (m.data.map Segment.data) ≤ 2 ^ 24) {text : Text} {line : Line}
    (hliteral : .literal .string (.text text) line ∈ Expr.allNodes program) :
    ∃ (data : Bytes) (address : Nat) (v : Value), text.utf8? = some data ∧
      ⟨address, data⟩ ∈ m.data ∧
      LiteralValue options program (.literal .string (.text text) line) address v := by
  obtain ⟨text, rfl⟩ := h.compiles.exists_plain_of_mem_nodes hliteral
  have htext : utf8 text ∈ Expr.allStrings program := by
    rw [← h.texts_eq]
    exact List.mem_filterMap.mpr ⟨_, hliteral, rfl⟩
  have hmem := h.laidOut.mem_data htext
  -- a text lies below the bound on all of them together
  have haddress : addressAmong (Expr.allStrings program) (utf8 text) ≤ 2 ^ 24 := by
    rw [h.laidOut, map_data_layoutFrom] at hsize
    rw [h.laidOut] at hmem
    obtain ⟨n, hn, -, hle⟩ := exists_offset_of_mem_layoutFrom hmem
    dsimp only at hn
    omega
  obtain ⟨v, hv, hexact⟩ := Value.exists_exact options.valueType haddress
  have hunsigned : unsigned 32 (addressAmong (Expr.allStrings program) (utf8 text)) =
      addressAmong (Expr.allStrings program) (utf8 text) := by
    rw [unsigned_eq_toNat, BitVec.toNat_ofInt]
    omega
  have hvalue : Trap.ofConversion (Value.ofInteger options.valueType
      (unsigned 32 (addressAmong (Expr.allStrings program) (utf8 text)))) = .ok v := by
    rw [hunsigned, hv]
    rfl
  refine ⟨_, _, v, rfl, hmem, Value.type_of_ofInteger hv, hexact, fun host call names => ?_, ?_⟩
  · rw [evaluate]
    exact congrArg liftExcept hvalue
  · intro inst callee function a
    exact (exec_address _ a).trans (congrArg a.push hvalue)

/-! ### Reading at any time -/

/-- A machine as it is after some calls or while a further one runs. The host may change from call
to call. -/
inductive Instance.Visits (inst : Instance) (start : Machine) : Machine → Prop
  | between {machine : Machine} : inst.Reaches start machine → Visits inst start machine
  | within {machine : Machine} {host : Host} {name : Text} {args : List Scalar} {c : Config} :
      inst.Reaches start machine → Passes { inst with host := host } machine name args c →
      Visits inst start c.machine

/-- No call changes the memory. -/
theorem Machine.Idle.memory_eq_of_visits {inst : Instance} {start machine : Machine}
    (h : start.Idle inst.module) (hvisits : inst.Visits start machine) :
    machine.memory = start.memory := by
  cases hvisits with
  | between hreaches => exact (h.kept_by_reaches hreaches).1
  | @within machine host _ _ c hreaches hpasses =>
    obtain ⟨f, values, hprepare, hsteps⟩ := hpasses
    have hidle : Machine.Idle { inst with host := host }.module machine := h.reaches hreaches
    exact ((hidle.valid hprepare).memory_eq_of_steps hsteps).trans (h.kept_by_reaches hreaches).1

/-- On every host a module starts, and at any time after that the given data can be read. -/
def Module.KeepsReadable (m : Module) (data : List Segment) : Prop :=
  ∀ host, ∃ inst store, instantiate m (some host) = .ok (inst, store) ∧
    ∀ machine, inst.Visits (.fresh inst store) machine → ∀ segment ∈ data,
      Instance.readBytes { inst with memory := machine.memory } segment.offset
        segment.data.length = .ok segment.data

theorem Module.LaidOut.keepsReadable {m : Module} {texts : List Bytes} (h : m.LaidOut texts) :
    m.KeepsReadable m.data := by
  intro host
  obtain ⟨memory, hmemory, hread⟩ := h.exists_readable
  refine ⟨⟨m, host, memory⟩, m.initialStore, by rw [instantiate, hmemory]; rfl, ?_⟩
  intro machine hvisits
  refine hread _ ?_
  exact (Machine.idle_fresh ⟨m, host, memory⟩ m.initialStore).memory_eq_of_visits hvisits

/-! ### Texts of a compiled program -/

namespace Module

variable {m : Module} {texts : List Bytes}

/-- Pages hold all data of a module. -/
def FitsIn (m : Module) (pages : Int) : Prop :=
  ∀ segment ∈ m.data, segment.offset + segment.data.length ≤ pages * pageSize

/-- The memory has the fewest pages that hold the data, and at least one. -/
theorem LaidOut.isLeast_memoryPages (h : m.LaidOut texts) :
    IsLeast {pages : Int | 1 ≤ pages ∧ m.FitsIn pages} m.memoryPages := by
  refine ⟨⟨le_max_left _ _, fun segment hsegment => ?_⟩, fun pages ⟨hpos, hfits⟩ => ?_⟩
  · rw [h] at hsegment
    obtain ⟨n, hn, -, hle⟩ := exists_offset_of_mem_layoutFrom hsegment
    have htotal := h.dataSize_eq
    unfold memoryPages pageSize
    omega
  · have hsize : m.dataSize ≤ pages * pageSize := by
      unfold dataSize
      split
      · rename_i segment hlast
        exact hfits segment (List.mem_of_getLast? hlast)
      · unfold pageSize
        omega
    unfold memoryPages pageSize at *
    omega

/-- Different texts do not overlap. -/
theorem LaidOut.disjoint (h : m.LaidOut texts) {segment other : Segment}
    (hsegment : segment ∈ m.data) (hother : other ∈ m.data) (hne : segment.data ≠ other.data) :
    segment.offset + segment.data.length ≤ other.offset ∨
      other.offset + other.data.length ≤ segment.offset := by
  have hpairwise := pairwise_layoutFrom 0 texts.eraseDups
  rw [← h] at hpairwise
  obtain ⟨before, after, hdata⟩ := List.append_of_mem hsegment
  rw [hdata, List.pairwise_append] at hpairwise
  rw [hdata, List.mem_append, List.mem_cons] at hother
  obtain ⟨-, hafter, hbefore⟩ := hpairwise
  rcases hother with hother | rfl | hother
  · exact .inr (hbefore other hother segment List.mem_cons_self)
  · exact absurd rfl hne
  · exact .inl (List.rel_of_pairwise_cons hafter hother)

/-- What a module does with the texts of a program. -/
structure HoldsTexts (m : Module) (program : Program) : Prop where
  /-- There is one segment for each text, in the order in which they first occur. -/
  contents : m.data.map Segment.data = (Expr.texts program).eraseDups
  nodup : (m.data.map Segment.data).Nodup
  starts : ∀ segment ∈ m.data.head?, segment.offset = 0
  sideBySide : m.data.IsChain fun (segment next : Segment) =>
    next.offset = segment.offset + segment.data.length
  disjoint : ∀ segment ∈ m.data, ∀ other ∈ m.data, segment.data ≠ other.data →
    segment.offset + segment.data.length ≤ other.offset ∨
      other.offset + other.data.length ≤ segment.offset
  pages : IsLeast {pages : Int | 1 ≤ pages ∧ m.FitsIn pages} m.memoryPages
  /-- Each function pushes the addresses of the texts in its definition, and the entry those of the
  texts outside functions. -/
  addresses : List.Forall₂ (fun statements f =>
      PushesTexts m.valueType m.data f.body (Expr.outerTexts statements))
    ((Expr.definitions program).map FunctionDef.body ++ [program]) m.functions
  readable : m.KeepsReadable m.data

end Module

theorem CompiledProgram.holdsTexts {options : Options} {program : Program} {m : Module} {c : Code}
    {final : Scope} (h : CompiledProgram options program m c final) : m.HoldsTexts program := by
  have hdata : m.data = layoutFrom 0 (Expr.texts program).eraseDups := h.texts_eq ▸ h.laidOut
  have hcontents : m.data.map Segment.data = (Expr.texts program).eraseDups := by
    rw [hdata, map_data_layoutFrom]
  exact
    { contents := hcontents
      nodup := hcontents ▸ nodup_eraseDups _
      starts := fun segment hsegment => offset_of_mem_head?_layoutFrom (hdata ▸ hsegment)
      sideBySide := hdata ▸ isChain_layoutFrom 0 _
      disjoint := fun _ hsegment _ hother hne => h.laidOut.disjoint hsegment hother hne
      pages := h.laidOut.isLeast_memoryPages
      addresses := h.pushesTexts
      readable := h.laidOut.keepsReadable }

/-- Compiling places each text of a program once, side by side from address zero on, in the fewest
pages that hold them. The code of a text pushes its address, and there the text can be read whenever
a host likes. If the texts have at most `2 ^ 24` bytes, the value of a text is exactly its address
in every type. The module of a source can also be written and, if the name of its import is plain,
read, and then starts and keeps the same texts readable. -/
theorem generate_holdsTexts {options : Options} {program : Program} {m : Module}
    (h : (generate options program).result = .ok m) :
    m.HoldsTexts program ∧
    (totalLength (m.data.map Segment.data) ≤ 2 ^ 24 → ∀ text line,
      .literal .string (.text text) line ∈ Expr.allNodes program →
      ∃ (data : Bytes) (address : Nat) (v : Value), text.utf8? = some data ∧
        ⟨address, data⟩ ∈ m.data ∧
        LiteralValue options program (.literal .string (.text text) line) address v) ∧
    ∀ source, parseSource source = .ok program → IsPlain options.importModule →
      (utf8 source).length < 10 ^ Numeral.maxDigits →
      ∃ written m', writeModule m = .ok written ∧ readModule written = .ok m' ∧
        m'.data = m.data ∧ m'.KeepsReadable m.data := by
  obtain ⟨c, final, hprogram⟩ := exists_compiledProgram h
  refine ⟨hprogram.holdsTexts, fun hsize text line => hprogram.exists_literalValue hsize,
    fun source hsource hplain hlength => ?_⟩
  obtain ⟨lines, hlines, hread⟩ := exists_readModule
    (hprogram.wellFormed (wordsOf_of_parseSource hsource) hlength hplain.isUnquoted)
    (hprogram.encodable hplain)
  have hlaidOut : m.normalized.LaidOut (Expr.allStrings program) := hprogram.laidOut
  exact ⟨_, m.normalized, writeModule_eq hlines, hread, rfl, hlaidOut.keepsReadable⟩

/-- A text in a function and again outside, and an empty one. -/
def repeatedTexts : Program :=
  [.function "name" [] [.literal .string (.text "é") 1] 1,
    .print (.literal .string (.text "b") 1) 1, .print (.literal .string (.text "") 1) 1,
    .print (.literal .string (.text "é") 1) 1]

/-- The repeated text has one place, of two bytes, and the empty text has the address behind all
others. Texts are also kept by a module that is written and read. -/
theorem generate_holdsTexts_repeatedTexts :
    (∃ m, (generate { valueType := .f32 } repeatedTexts).result = .ok m ∧
      m.data = [⟨0, utf8 "é"⟩, ⟨2, utf8 "b"⟩, ⟨3, utf8 ""⟩] ∧ m.HoldsTexts repeatedTexts ∧
      ∃ (address : Nat) (v : Value), ⟨address, utf8 ""⟩ ∈ m.data ∧
        LiteralValue { valueType := .f32 } repeatedTexts (.literal .string (.text "") 1)
          address v) ∧
    ∃ program m written m', parseSource "print \"a\"; print \"\" + \"a\";" = .ok program ∧
      (generate {} program).result = .ok m ∧ writeModule m = .ok written ∧
      readModule written = .ok m' ∧ m'.data = m.data ∧ m'.KeepsReadable m.data := by
  constructor
  · obtain ⟨m, hm, hdata⟩ : ∃ m, (generate { valueType := .f32 } repeatedTexts).result = .ok m ∧
        m.data = [⟨0, utf8 "é"⟩, ⟨2, utf8 "b"⟩, ⟨3, utf8 ""⟩] := ⟨_, rfl, rfl⟩
    obtain ⟨hholds, hvalues, -⟩ := generate_holdsTexts hm
    have hsize : totalLength (m.data.map Segment.data) ≤ 2 ^ 24 := by
      rw [hdata]
      decide
    have hliteral : .literal .string (.text "") 1 ∈ Expr.allNodes repeatedTexts := by
      simp [repeatedTexts, Expr.allNodes, Expr.nodes]
    obtain ⟨_, address, v, hbytes, hmem, hvalue⟩ := hvalues hsize "" 1 hliteral
    cases hbytes
    exact ⟨m, hm, hdata, hholds, address, v, hmem, hvalue⟩
  · generalize hsource : "print \"a\"; print \"\" + \"a\";" = source
    have hok : (compileModule {} source).isOk = true := by
      rw [← hsource]
      decide +kernel
    have hlength : (utf8 source).length < 10 ^ Numeral.maxDigits := by
      rw [← hsource]
      exact Numeral.lt_pow_maxDigits 2 (by decide) (by decide)
    obtain ⟨m, hcompiled⟩ := exists_of_isOk hok
    obtain ⟨program, hparsed, hm⟩ := exists_parse_of_compileModule hcompiled
    obtain ⟨-, -, hread⟩ := generate_holdsTexts hm
    obtain ⟨written, m', hkept⟩ := hread source hparsed (by decide) hlength
    exact ⟨program, m, written, m', hparsed, hm, hkept⟩

/-- With a quote in the name of its import, a module holds its text, but is not read back. -/
theorem not_readModule_quotedTexts :
    ∃ m written, compileModule { importModule := "a\"b" } "print \"x\";" = .ok m ∧
      m.data = [⟨0, utf8 "x"⟩] ∧ writeModule m = .ok written ∧
      readModule written = .error .unterminatedString := by
  have hok : (compileModule { importModule := "a\"b" } "print \"x\";").toOption.any (fun m =>
      m.data = [⟨0, utf8 "x"⟩] ∧ (writeModule m).toOption.any fun written =>
        readModule written = .error .unterminatedString) = true := by
    decide +kernel
  obtain ⟨m, h, hok⟩ := exists_of_any_toOption hok
  obtain ⟨hdata, hread⟩ := of_decide_eq_true hok
  obtain ⟨written, hwrite, hread⟩ := exists_of_any_toOption hread
  exact ⟨m, written, h, hdata, hwrite, of_decide_eq_true hread⟩

end StackScript
