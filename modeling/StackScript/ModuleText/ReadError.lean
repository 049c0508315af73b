import StackScript.Diagnostic

/-!
# Why module text cannot be read

## Main definitions

* `ReadError`: what is wrong with a text.
* `ReadError.diagnostic?`: what a reader is told.
-/

namespace StackScript

/-- What is wrong with a module text. Forms appear as they are shown to the reader. -/
inductive ReadError where
  | unterminatedComment
  | unterminatedString
  /-- A backslash in a string with something after it that is no escape, or with nothing. -/
  | invalidEscape (c : Option CodePoint)
  | unexpectedSemicolon (offset : Nat)
  | unbalancedClose
  | unbalancedOpen
  | expectedModule
  | unsupportedImport
  | missingImport
  | importParameters
  | unsupportedField (head : Option Text)
  | malformedGlobal
  | malformedData
  | malformedExport
  | unsupportedExport (head : Option Text)
  | unnamedFunction
  | stringInBody
  | missingImmediate (mnemonic : Text)
  | unsupportedFold (head : Option Text)
  | expectedElse
  | expectedName (form : String)
  | unknownValueType (form : String)
  | invalidNumber (atom : String)
  /-- A form ends after its first word where an element must follow. -/
  | missingElement
  /-- The offset of a data segment is not an atom. -/
  | offsetNotAtom
  /-- The name of the imported module is not UTF-8. -/
  | importNameNotUtf8
  /-- A string has a lone surrogate, for which there are no bytes. -/
  | loneSurrogate
  deriving DecidableEq, Repr

namespace ReadError

/-- The first word of a form as it is shown. -/
def headWord (head : Option Text) : Text := head.getD "None"

/-- How an error is put. The last four are faults of the text for which no words are reserved. -/
def message? : ReadError → Option Text
  | unterminatedComment => some "Unterminated block comment"
  | unterminatedString => some "Unterminated string"
  | invalidEscape c => some ("Invalid string escape: \\" ++ .ofPoints c.toList)
  | unexpectedSemicolon offset => some s!"Unexpected ';' at offset {offset}"
  | unbalancedClose => some "Unbalanced ')'"
  | unbalancedOpen => some "Unbalanced '('"
  | expectedModule => some "Expected a single (module ...) form"
  | unsupportedImport => some "Unsupported import"
  | missingImport => some "Missing log import"
  | importParameters => some "The log import must take exactly one parameter"
  | unsupportedField head => some ("Unsupported module field: " ++ headWord head)
  | malformedGlobal => some "Malformed global"
  | malformedData => some "Malformed data segment"
  | malformedExport => some "Malformed export"
  | unsupportedExport head => some ("Unsupported export kind: " ++ headWord head)
  | unnamedFunction => some "Function without a name"
  | stringInBody => some "Unexpected string in function body"
  | missingImmediate mnemonic => some ("Missing immediate for " ++ mnemonic)
  | unsupportedFold head => some ("Unsupported folded form: " ++ headWord head)
  | expectedElse => some "Expected (else ...)"
  | expectedName form => some s!"Expected a $name, got {form}"
  | unknownValueType form => some s!"Unknown value type: {form}"
  | invalidNumber atom => some s!"Invalid numeric immediate: {atom}"
  | missingElement | offsetNotAtom | importNameNotUtf8 | loneSurrogate => none

/-- What a reader is told. -/
def diagnostic? (e : ReadError) : Option Diagnostic :=
  e.message?.map fun message => { message := message }

end ReadError

end StackScript
