import NovelScript.Assembler
import NovelScript.Main
import NovelScript.Proofs.Container.Form
import NovelScript.Proofs.Container.NameLength
import NovelScript.Proofs.Container.Reading
import NovelScript.Proofs.Container.RoundTrip
import NovelScript.Proofs.Instruction.Encoding
import NovelScript.Proofs.Markup.Reversible
import NovelScript.Proofs.Markup.Tokens
import NovelScript.Proofs.Markup.Turning
import NovelScript.Proofs.Outcome
import NovelScript.Proofs.Packing.Layout
import NovelScript.Proofs.Packing.MessageTable
import NovelScript.Proofs.Packing.Relocation
import NovelScript.Proofs.Packing.Repacking
import NovelScript.Proofs.Instruction.Failing
import NovelScript.Proofs.References.Calls
import NovelScript.Proofs.References.Reading
import NovelScript.Proofs.References.Relocation
import NovelScript.Proofs.Script.Current
import NovelScript.Proofs.Script.InPlace
import NovelScript.Proofs.Script.Runs
import NovelScript.Proofs.Script.StringImport
import NovelScript.Proofs.Sheet.Entries
import NovelScript.Proofs.Text.Lines
import NovelScript.Proofs.Text.NullFree
import NovelScript.Proofs.Text.Numeral
import NovelScript.Proofs.Instruction.Assembly
import NovelScript.Proofs.Packing.Fitting
import NovelScript.Proofs.Markup.Plain
import NovelScript.Proofs.Sheet.Writing
import NovelScript.Proofs.Script.StringExport
import NovelScript.Proofs.Packing.MessageTiling
import NovelScript.Proofs.Script.MessageExport
import NovelScript.Proofs.Packing.Settling
import NovelScript.Proofs.Script.Settling
import NovelScript.Proofs.Text.Spans
import NovelScript.Proofs.Markup.Closing
import NovelScript.Proofs.Script.MessageImport
import NovelScript.Proofs.Packing.Failing
import NovelScript.Proofs.Script.ImportErrors
import NovelScript.Proofs.Script.Commuting
import NovelScript.Proofs.Container.Canonical
import NovelScript.Proofs.Container.Pieces
import NovelScript.Proofs.Container.Truncation
import NovelScript.Proofs.Container.Space
import NovelScript.Proofs.Markup.Parts
import NovelScript.Proofs.Packing.MessageReading
import NovelScript.Proofs.Packing.InPlace
import NovelScript.Proofs.Packing.Arrangement
import NovelScript.Proofs.Run.AllOrNothing
import NovelScript.Proofs.Packing.MessageKeeping
import NovelScript.Proofs.Script.MessageRepeat
import NovelScript.Proofs.Sheet.Grammar
import NovelScript.Proofs.Instruction.Spelling
import NovelScript.Proofs.Instruction.Program
import NovelScript.Proofs.Instruction.Stream
import NovelScript.Proofs.Instruction.Resolved
import NovelScript.Proofs.Markup.Matching
import NovelScript.Proofs.Markup.Cutting
