import StackScript.Diagnostic
import StackScript.Source.Program
import StackScript.ValueType

/-!
# Why a program cannot be compiled

## Main definitions

* `CompileFault`: what a program does wrong, `CompileFault.message` how it is put.
* `CompileError`: a fault at a line, or a literal that has no value.
-/

namespace StackScript

/-- What a program does wrong. -/
inductive CompileFault where
  /-- A function's name stands where a value is needed. -/
  | functionAsValue (name : Text)
  | undefinedVariable (name : Text)
  | undefinedFunction (name : Text)
  /-- A declared name cannot be written in module text. -/
  | nameNotAscii (name : Text)
  /-- A node without a value stands where one is needed. -/
  | noValue (nodeName : String)
  | fractionalLiteral (x : Double) (type : ValueType)
  | literalOutOfRange (n : Int) (type : ValueType)
  | nestedFunction (name outer : Text)
  | reservedName (name : Text)
  | alreadyDefined (name : Text)
  | duplicateParameter (function : Text)
  /-- Something other than a name is called. -/
  | calleeNotName (nodeName : String)
  /-- A variable is called. -/
  | calleeVariable (name : Text)
  | argumentCount (function : Text) (expected actual : Nat)
  deriving DecidableEq

/-- How a fault is put. -/
def CompileFault.message : CompileFault → Text
  | functionAsValue name => "Function '" ++ name ++ "' cannot be used as a value"
  | undefinedVariable name => "Undefined variable '" ++ name ++ "'"
  | undefinedFunction name => "Undefined function '" ++ name ++ "'"
  | nameNotAscii name => "Name '" ++ name ++ "' must be ASCII"
  | noValue nodeName => s!"{nodeName} does not produce a value"
  | fractionalLiteral x type =>
    s!"Fractional literal {x.text .general} in a {type.name} module"
  | literalOutOfRange n type => s!"Literal {n} out of range for {type.name}"
  | nestedFunction name outer =>
    "Function '" ++ name ++ "' cannot be defined inside '" ++ outer ++ "'"
  | reservedName name => "'" ++ name ++ "' is a reserved function name"
  | alreadyDefined name => "Function '" ++ name ++ "' is already defined"
  | duplicateParameter function => "Duplicate parameter name in '" ++ function ++ "'"
  | calleeNotName nodeName => s!"Callee must be a function name, got {nodeName}"
  | calleeVariable name => "'" ++ name ++ "' is a variable, not a function"
  | argumentCount function expected actual =>
    "Function '" ++ function ++ s!"' expects {expected} argument(s), got {actual}"

/-- Why a program cannot be compiled. -/
inductive CompileError where
  /-- The program does something wrong at a line. -/
  | fault (fault : CompileFault) (line : Line)
  /-- A number literal has no value of the module's type. -/
  | literal (error : ConversionError)
  /-- A string literal holds no text. -/
  | stringWithoutText
  /-- A string literal has a lone surrogate, so there are no bytes for it. -/
  | stringWithoutBytes
  deriving DecidableEq

/-- What a compile error tells its reader. A literal without a value is a fault of the tree and
has no message here. -/
def CompileError.diagnostic? : CompileError → Option Diagnostic
  | fault f line => some { message := f.message, line := some line }
  | literal _ | stringWithoutText | stringWithoutBytes => none

end StackScript
