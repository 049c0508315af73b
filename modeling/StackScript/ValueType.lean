import StackScript.Text.Basic

/-!
# Value types and compiler options

A module computes with one of four numeric types. Its top-level code becomes one entry function,
which either runs for its effects or also returns the value of the last statement.

## Main definitions

* `ValueType`: 32- and 64-bit integers, single and double floats.
* `EntryStyle`: how top-level code is exposed.
* `Options`: what a compilation is told.
-/

namespace StackScript

/-- The numeric type of every value of a module. -/
inductive ValueType where
  | i32
  | i64
  | f32
  | f64
  deriving DecidableEq, Repr

namespace ValueType

/-- The name of a type in module text. -/
def name : ValueType → String
  | i32 => "i32"
  | i64 => "i64"
  | f32 => "f32"
  | f64 => "f64"

/-- All types, in the order in which they are offered. -/
def all : List ValueType := [i32, i64, f32, f64]

/-- The type of a name. -/
def ofName? (name : String) : Option ValueType :=
  all.find? fun t => t.name == name

theorem ofName?_name (t : ValueType) : ofName? t.name = some t := by
  cases t <;> decide

/-- Whether values of the type are floating-point numbers. -/
def isFloat : ValueType → Bool
  | f32 | f64 => true
  | i32 | i64 => false

/-- The number of bits of an integer type. -/
def width? : ValueType → Option Nat
  | i32 => some 32
  | i64 => some 64
  | f32 | f64 => none

end ValueType

/-- How top-level code is exposed to the host. -/
inductive EntryStyle where
  /-- It runs for its effects and returns nothing. -/
  | script
  /-- It returns the value of the last top-level statement. -/
  | expression
  deriving DecidableEq, Repr

namespace EntryStyle

/-- The name of the entry function. -/
def functionName : EntryStyle → String
  | script => "main"
  | expression => "init"

/-- All styles, in the order in which they are offered. -/
def all : List EntryStyle := [script, expression]

/-- The style of an entry function's name. -/
def ofName? (name : String) : Option EntryStyle :=
  all.find? fun style => style.functionName == name

end EntryStyle

/-- What a compilation is told. -/
structure Options where
  /-- The type of every value, global, parameter and result. -/
  valueType : ValueType := .f64
  /-- How top-level code is exposed. -/
  entry : EntryStyle := .script
  /-- Whether linear memory is declared even if no data needs it. -/
  memory : Bool := false
  /-- The module that the host's log function is imported from. -/
  importModule : Text := "env"
  deriving DecidableEq, Repr

end StackScript
