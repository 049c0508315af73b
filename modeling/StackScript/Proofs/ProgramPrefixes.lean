import StackScript.Proofs.LoweringScope

/-!
# Compiling the beginning of a program

A program is compiled in one pass: what a statement becomes depends on the statements before it and
on nothing behind it. So the module of a program begins with that of any first part of the program,
and a failure in the first part is the failure of the whole.

Only top-level code that returns a value looks ahead, for its last statement, so this is about the
other kind.

## Main definitions

* `Module.Begins`: a module is a first part of another one.

## Main results

* `lowerAll_append`: statements are lowered one part after the other.
* `generate_append`: a program and its first part.
-/

namespace StackScript

/-! ### One part after another -/

/-- Statements are lowered one part after the other. -/
theorem lowerAll_append (options : Options) (first second : List Expr) :
    lowerAll options false (first ++ second) =
      (do lowerAll options false first; lowerAll options false second) := by
  induction first with
  | nil => simp [lowerAll]
  | cons e rest ih => simp [lowerAll, ih]

/-! ### Modules -/

namespace Module

/-- A module is a first part of another one: so are its globals, its data and its functions, and the
body of its entry. -/
structure Begins (m m' : Module) : Prop where
  globals : m.globals <+: m'.globals
  data : m.data <+: m'.data
  named : m.named <+: m'.named
  body : ∃ f f', m.function? m.entry = some f ∧ m'.function? m'.entry = some f' ∧
    f.body <+: f'.body

end Module

variable {options : Options} {program : Program} {m : Module}

/-- A program that was compiled further on from where another one ends begins with that one. -/
theorem CompiledProgram.begins {more : Program} {m' : Module} {c c' : Code} {middle final : Scope}
    (h : CompiledProgram options program m c middle)
    (h' : CompiledProgram options more m' c' final) (hbelow : middle.Below final)
    (hfunctions : middle.module.functions <+: final.module.functions)
    (hcode : c.flatten <+: c'.flatten) : m.Begins m' where
  globals := by
    rw [h.module_eq, h'.module_eq]
    exact hbelow.globals
  data := by
    rw [h.module_eq, h'.module_eq]
    exact hbelow.data
  named := by rwa [h.named_eq, h'.named_eq]
  body := ⟨_, _, h.entry_eq ▸ h.function?_entry, h'.entry_eq ▸ h'.function?_entry, hcode⟩

/-- If a program compiles, so does every first part of it, to a module that begins that of the
program. If a first part fails, the program fails with the same error and leaves the same behind. -/
theorem generate_append (hentry : options.entry = .script) (first second : Program) :
    (∀ m, (generate options (first ++ second)).result = .ok m →
      ∃ m', (generate options first).result = .ok m' ∧ m'.Begins m) ∧
    (∀ e, (generate options first).result = .error e →
      generate options (first ++ second) = generate options first) := by
  have hlower : lowerAll options options.entry.returnsValue (first ++ second) =
      (do lowerAll options options.entry.returnsValue first
          lowerAll options options.entry.returnsValue second) := by
    rw [hentry]
    exact lowerAll_append options first second
  constructor
  · intro m hm
    obtain ⟨_, final, hyields, rfl⟩ := generate_eq_ok_iff.mp hm
    obtain ⟨c', hcode, hc'⟩ := lowerAll_followsRules options _ _ hyields
    rw [hlower] at hyields
    obtain ⟨_, middle, ⟨⟩, _, hfirst, hsecond, rfl⟩ := Lower.yields_bind.mp hyields
    obtain ⟨c, rfl, hc⟩ := lowerAll_followsRules options _ first hfirst
    obtain ⟨d, rfl, hd⟩ := lowerAll_followsRules options _ second hsecond
    obtain ⟨functions, hfunctions, -⟩ := hd.addsFunctions
    refine ⟨_, generate_eq_ok_iff.mpr ⟨_, middle, hfirst, rfl⟩, ?_⟩
    rw [← hcode, hc.entry_eq, hc'.entry_eq]
    exact hc.compiledProgram.begins hc'.compiledProgram hd.scope_below
      ⟨functions, hfunctions.symm⟩ ⟨d.flatten, hcode.symm⟩
  · intro e he
    obtain ⟨stopped, hstopped, -⟩ := generate_eq_error_iff.mp he
    unfold generate
    dsimp only
    rw [hlower, Lower.withFrame_congr (Lower.bind_eq_of_error hstopped)]

/-- The beginning of a program: a variable, a function, and code that uses both. -/
def firstStatements : Program :=
  [.declare "word" (.literal .string (.text "hello") 1) 1,
    .function "twice" ["x"]
      [.declare "y" (.binary (.get "x" 2) .add (.get "x" 2) 2) 2,
        .print (.literal .string (.text "twice") 3) 3, .get "y" 4] 2,
    .print (.call (.get "twice" 5) [.get "word" 5] 5) 5]

/-- More of it: the variable and a text again, and another function. -/
def moreStatements : Program :=
  [.declare "word" (.literal .string (.text "world") 6) 6,
    .function "once" [] [.literal .string (.text "hello") 7] 7,
    .print (.call (.get "once" 8) [] 8) 8]

/-- The first statements compile alone and before more, and both fail behind one that does. -/
theorem generate_append_moreStatements :
    (∃ m m', (generate {} (firstStatements ++ moreStatements)).result = .ok m ∧
      (generate {} firstStatements).result = .ok m' ∧ m'.Begins m) ∧
    (generate {} ([.print (.get "word" 1) 1] ++ firstStatements)).result =
      .error (.fault (.undefinedVariable "word") 1) := by
  constructor
  · obtain ⟨m, hm⟩ : ∃ m, (generate {} (firstStatements ++ moreStatements)).result = .ok m :=
      ⟨_, rfl⟩
    obtain ⟨m', hm', hbegins⟩ := (generate_append rfl firstStatements moreStatements).1 m hm
    exact ⟨m, m', hm, hm', hbegins⟩
  · rw [(generate_append rfl [.print (.get "word" 1) 1] firstStatements).2 _ rfl]
    rfl

end StackScript
