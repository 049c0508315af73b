import StackScript.Datum
import StackScript.Diagnostic

/-!
# Why running a module stops

## Main definitions

* `Trap`: the reasons.
* `Trap.diagnostic?`: what a reader is told.
-/

namespace StackScript

/-- Why a module cannot be instantiated, or why running it stops. -/
inductive Trap where
  /-- The host gives no log function. -/
  | missingImport (hostModule : Text)
  | unknownFunction (name : Text)
  | argumentCount (function : Text) (expected actual : Nat)
  /-- Too many activations are open. -/
  | callStackExhausted (function : Text)
  /-- A function ends with a number of values that it does not return. -/
  | valuesLeft (function : Text) (actual expected : Nat)
  | callUnknown (name : Text)
  | unknownLocal (name function : Text)
  | unknownGlobal (name : Text)
  | stackUnderflow (function : Text)
  | unknownInstruction (mnemonic : Text)
  | divideByZero
  | integerOverflow
  | noMemory
  | outOfBounds (offset length : Int)
  | unmatchedElse (index : Nat)
  | unmatchedEnd (index : Nat)
  | unterminatedIf
  /-- A number has no value of the type that an instruction works on. -/
  | conversion (error : ConversionError)
  /-- A signed division is asked for a type that has no width. -/
  | noWidth
  /-- A data segment does not fit where it is to be placed. -/
  | segmentMismatch
  /-- The host's log function refuses a value. -/
  | refused (reason : String)
  deriving DecidableEq, Repr

namespace Trap

/-- How a trap is put. Faults of data and of the host have no words of their own. -/
def message? : Trap → Option Text
  | missingImport hostModule => some ("Missing import: " ++ hostModule ++ ".log")
  | unknownFunction name => some ("Unknown function: " ++ name)
  | argumentCount function expected actual =>
    some ("Function '" ++ function ++ s!"' expects {expected} argument(s), got {actual}")
  | callStackExhausted function => some ("Call stack exhausted in '" ++ function ++ "'")
  | valuesLeft function actual expected =>
    some ("Function '" ++ function ++ s!"' left {actual} value(s), expected {expected}")
  | callUnknown name => some ("Call to unknown function: " ++ name)
  | unknownLocal name function => some ("Unknown local '" ++ name ++ "' in '" ++ function ++ "'")
  | unknownGlobal name => some ("Unknown global '" ++ name ++ "'")
  | stackUnderflow function => some ("Stack underflow in '" ++ function ++ "'")
  | unknownInstruction mnemonic => some ("Unknown instruction: " ++ mnemonic)
  | divideByZero => some "Integer divide by zero"
  | integerOverflow => some "Integer overflow"
  | noMemory => some "Module has no memory"
  | outOfBounds offset length => some s!"Memory access out of bounds: {offset}+{length}"
  | unmatchedElse index => some s!"Unmatched else at instruction {index}"
  | unmatchedEnd index => some s!"Unmatched end at instruction {index}"
  | unterminatedIf => some "Unterminated if block"
  | conversion _ | noWidth | segmentMismatch | refused _ => none

/-- What a reader is told. -/
def diagnostic? (trap : Trap) : Option Diagnostic :=
  trap.message?.map fun message => { message := message }

end Trap

end StackScript
