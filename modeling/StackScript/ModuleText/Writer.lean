import StackScript.ModuleText.Number
import StackScript.ModuleText.Token
import StackScript.Target.Module
import StackScript.Target.Opcode

/-!
# Writing modules as text

A module is written as lines of pieces. Lines are indented by their depth, and a blank separates
two pieces unless a parenthesis does. The fields come in a fixed order: the import, the memory, the
globals, the data, the functions and the exports.

Names are written as they are. Only the bytes of data are escaped.

## Main definitions

* `TextPiece`, `TextLine`: what a text is laid out from.
* `TextLine.render`, `renderLines`: the layout.
* `bodyLines`: the lines of a function body.
* `moduleLines`: the lines of a module.
* `writeModule`: the text of a module.
-/

namespace StackScript

/-- A piece of a line. -/
inductive TextPiece where
  | lparen
  | rparen
  /-- A word, written as it is. -/
  | word (text : Text)
  /-- A text between quotes, written as it is. -/
  | quote (text : Text)
  deriving DecidableEq, Repr

namespace TextPiece

/-- A piece by itself. -/
def render : TextPiece → List CodePoint
  | lparen => [.char '(']
  | rparen => [.char ')']
  | word text => text.points
  | quote text => .char '"' :: text.points ++ [.char '"']

/-- What separates two pieces of a line. -/
def gap : TextPiece → TextPiece → List CodePoint
  | lparen, _ => []
  | _, rparen => []
  | _, _ => [.char ' ']

/-- A name as the text format marks it. -/
def name (name : Text) : TextPiece := word ("$" ++ name)

/-- A type by its name. -/
def type (t : ValueType) : TextPiece := word t.name

/-- Pieces between parentheses. -/
def parens (pieces : List TextPiece) : List TextPiece :=
  lparen :: pieces ++ [rparen]

end TextPiece

/-- A line of module text. A depth below zero counts as zero. -/
structure TextLine where
  depth : Int
  pieces : List TextPiece
  deriving DecidableEq, Repr

/-- Pieces with what separates them. -/
def renderPieces : List TextPiece → List CodePoint
  | [] => []
  | [piece] => piece.render
  | piece :: next :: rest => piece.render ++ piece.gap next ++ renderPieces (next :: rest)

/-- A line, without its end. -/
def TextLine.render (line : TextLine) : List CodePoint :=
  List.replicate (2 * line.depth.toNat) (.char ' ') ++ renderPieces line.pieces

/-- Lines, each with its end. -/
def renderLines (lines : List TextLine) : Text :=
  .ofPoints (lines.flatMap fun line => line.render ++ [.char '\n'])

open TextPiece

/-! ### Functions -/

/-- The pieces of an immediate. A text is a name. -/
def operandPieces : Datum → Except WriteError (List TextPiece)
  | .null => .ok []
  | .text s => .ok [name s]
  | d => do return [word (.plain (← numberText d))]

/-- The lines of an instruction at a depth, and the depth after it. -/
def instrLines (t : ValueType) (depth : Int) :
    Instr → Except WriteError (List TextLine × Int)
  | .const value => do
    return ([⟨depth, [word (t.mnemonic "const"), word (.plain (← numberText value))]⟩], depth)
  | .call function => .ok ([⟨depth, [word "call", name function]⟩], depth)
  | .plain mnemonic operand => do
    return ([⟨depth, word mnemonic :: (← operandPieces operand)⟩], depth)
  | .openIf =>
    .ok ([⟨depth, [lparen, word "if"]⟩, ⟨depth + 1, [lparen, word "then"]⟩], depth + 2)
  | .openElse => .ok ([⟨depth - 1, [rparen]⟩, ⟨depth - 1, [lparen, word "else"]⟩], depth)
  | .closeIf => .ok ([⟨depth - 1, [rparen]⟩, ⟨depth - 2, [rparen]⟩], depth - 2)

/-- The lines of a function body at a depth. -/
def bodyLines (t : ValueType) (depth : Int) : List Instr → Except WriteError (List TextLine)
  | [] => .ok []
  | instr :: rest => do
    let (first, depth') ← instrLines t depth instr
    let others ← bodyLines t depth' rest
    return first ++ others

/-- The lines of a function. -/
def functionLines (t : ValueType) (f : Func) : Except WriteError (List TextLine) := do
  let params := f.params.flatMap fun param => parens [word "param", name param, type t]
  let result := match f.result with
    | some r => parens [word "result", type r]
    | none => []
  let heading : TextLine := ⟨1, [lparen, word "func", name f.name] ++ params ++ result⟩
  let locals := f.locals.map fun cell => ⟨2, parens [word "local", name cell, type t]⟩
  let body ← bodyLines t 2 f.body
  return heading :: locals ++ body ++ [⟨1, [rparen]⟩]

/-- The lines of functions in order. -/
def functionsLines (t : ValueType) : List Func → Except WriteError (List TextLine)
  | [] => .ok []
  | f :: rest => do
    let first ← functionLines t f
    let others ← functionsLines t rest
    return first ++ others

/-! ### Modules -/

/-- The line of the import. -/
def importLine (m : Module) : TextLine :=
  let function := [word "func", name logFunction] ++ parens [word "param", type m.valueType]
  ⟨1, parens ([word "import", quote m.importModule, quote logFunction] ++ parens function)⟩

/-- The lines of the memory. -/
def memoryLines (m : Module) : Except WriteError (List TextLine) :=
  if m.hasMemory then do
    let pages ← integerText m.memoryPages
    return [⟨1, parens [word "memory", name memoryName, word pages]⟩]
  else .ok []

/-- The line of a global. -/
def globalLine (g : Global) : TextLine :=
  let cell := if g.mutable then parens [word "mut", type g.type] else [type g.type]
  let init := parens [word (g.type.mnemonic "const"), word "0"]
  ⟨1, parens ([word "global", name g.name] ++ cell ++ init)⟩

/-- The line of a data segment. -/
def segmentLine (s : Segment) : Except WriteError TextLine := do
  let offset := parens [word "i32.const", word (.plain (← integerText s.offset))]
  let data := quote (String.ofList (escapeBytes s.data))
  return ⟨1, parens (word "data" :: offset ++ [data])⟩

/-- The lines of data segments in order. -/
def segmentLines : List Segment → Except WriteError (List TextLine)
  | [] => .ok []
  | s :: rest => do
    let first ← segmentLine s
    let others ← segmentLines rest
    return first :: others

/-- The line of an export. -/
def exportLine (e : Export) : TextLine :=
  ⟨1, parens ([word "export", quote e.name] ++ parens [word e.kind, name e.reference])⟩

/-- The lines of a module. -/
def moduleLines (m : Module) : Except WriteError (List TextLine) := do
  let memory ← memoryLines m
  let data ← segmentLines m.data
  let functions ← functionsLines m.valueType m.functions
  return ⟨0, [lparen, word "module"]⟩ :: importLine m :: memory ++ m.globals.map globalLine ++
    data ++ functions ++ m.exports.map exportLine ++ [⟨0, [rparen]⟩]

/-- The text of a module. -/
def writeModule (m : Module) : Except WriteError Text := do
  return renderLines (← moduleLines m)

end StackScript
