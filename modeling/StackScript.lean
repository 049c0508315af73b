import StackScript.Main
import StackScript.Session
import StackScript.Proofs.CompilerCorrectness
import StackScript.Proofs.TypeSoundness
import StackScript.Proofs.DecimalValues
import StackScript.Proofs.NumeralReading
import StackScript.Proofs.TextTokens
import StackScript.Proofs.TextForms
import StackScript.Proofs.BodySpelling
import StackScript.Proofs.TextRoundTrip
import StackScript.Proofs.Grammar
import StackScript.Proofs.SourceWords
import StackScript.Proofs.CompiledText
import StackScript.Proofs.FileRoundTrip
import StackScript.Proofs.NormalizedRun
import StackScript.Proofs.ScriptRun
import StackScript.Proofs.GrammarParsing
import StackScript.Proofs.TokenWriting
import StackScript.Proofs.Reparsing
import StackScript.Proofs.ReadModules
import StackScript.Proofs.ImportNames
import StackScript.Proofs.SourceTiling
import StackScript.Proofs.Termination
import StackScript.Proofs.CallHistories
import StackScript.Proofs.CompileFailures
import StackScript.Proofs.StructuredCalls
import StackScript.Proofs.OperatorGrouping
import StackScript.Proofs.ReadFailures
import StackScript.Proofs.TextNesting
import StackScript.Proofs.ParseFailures
import StackScript.Proofs.ParseCompletion
import StackScript.Proofs.SourceLayout
import StackScript.Proofs.ScanFailures
import StackScript.Proofs.WordArithmetic
import StackScript.Proofs.ProgramPrefixes
import StackScript.Proofs.NameAccounting
import StackScript.Proofs.TextAddresses
import StackScript.Proofs.TextLayout
import StackScript.Proofs.TextBalance
import StackScript.Proofs.LiteralText
import StackScript.Proofs.Outlines
import StackScript.Proofs.WidthAgreement
