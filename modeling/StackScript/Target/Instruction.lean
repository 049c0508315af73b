import StackScript.Datum

/-!
# Instructions

The body of a function is a flat list of instructions, in which a conditional is three markers: its
beginning, the start of its second part, and its end. Apart from constants of the module's own type
and calls, an instruction is a mnemonic with at most one immediate.

## Main definitions

* `Instr`: the instructions.
* `Instr.describe`: an instruction with its operand, for people.
-/

namespace StackScript

/-- An instruction of a function body. -/
inductive Instr where
  /-- Pushes a constant of the module's value type. -/
  | const (value : Datum)
  /-- Calls a function. -/
  | call (name : Text)
  /-- A mnemonic with an immediate: nothing, a name or a number. -/
  | plain (mnemonic : Text) (operand : Datum)
  /-- Pops a condition and starts the part that runs if it holds. -/
  | openIf
  /-- Ends that part and starts the one that runs otherwise. -/
  | openElse
  /-- Ends a conditional. -/
  | closeIf
  deriving DecidableEq

namespace Instr

instance : Inhabited Instr := ⟨closeIf⟩

/-- A mnemonic without an immediate. -/
def bare (mnemonic : Text) : Instr := plain mnemonic .null

/-- A mnemonic with a name. -/
def named (mnemonic name : Text) : Instr := plain mnemonic (.text name)

/-- An instruction with its operand, for people. -/
def describe : Instr → Text
  | const value => s!"Instruction(const {value.literal})"
  | call name => s!"Instruction(call {quoted name})"
  | plain mnemonic .null => "Instruction(" ++ mnemonic ++ ")"
  | plain mnemonic operand => "Instruction(" ++ mnemonic ++ s!" {operand.literal})"
  | openIf => "Instruction(if)"
  | openElse => "Instruction(else)"
  | closeIf => "Instruction(end)"

end Instr

end StackScript
