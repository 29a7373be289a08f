import NovelScript.Script

/-!
What the operations of a script log.
-/

namespace NovelScript

open Numeral

def Container.parseRecords (bytes : List UInt8) : List Record :=
  let starts := (sectionStarts bytes).map fun (within, start) ↦
    (⟨.debug, .container, "reading " ++ within.title ++ " at offset 0x" ++ hex start⟩ : Record)
  match parse bytes with
  | .error _ => starts
  | .ok c =>
    starts ++ [⟨.debug, .container, "container: " ++ decimal c.symbols.size ++ " symbols, " ++
      decimal c.functions.size ++ " functions, " ++ decimal c.labels.size ++ " labels, " ++
      decimal c.strings.size ++ " string bytes, " ++ decimal c.code.size ++
      " code bytes, " ++ decimal c.messages.size ++ " messages"⟩]

namespace Script

def ofContainerRecords (c : Container) : List Record :=
  c.referenceRecords (NameIndex.ofContainer c)

def loadRecords (bytes : List UInt8) : List Record :=
  Container.parseRecords bytes ++
    match Container.parse bytes with
    | .error _ => []
    | .ok c =>
      ofContainerRecords c ++
        match ofContainer c with
        | .error _ => []
        | .ok s =>
          [⟨.info, .script, "loaded script: " ++ decimal s.container.messages.size ++
            " messages, " ++ decimal s.references.messages.length ++ " message references, " ++
            decimal s.references.strings.length ++ " string references"⟩]

variable (s : Script)

def saveRecords : List Record :=
  match s.save with
  | .ok bytes => [⟨.info, .script, "saved script: " ++ decimal bytes.length ++ " bytes"⟩]
  | .error _ => []

def listingRecords : List Record := s.container.walkRecords s.names

def importMessagesRecords (text : String) : List Record :=
  let edits := TextSheet.readMessages text s.container.messages.size
  match edits.toOption, (edits.mapError .sheet >>= s.editedMessages).toOption with
  | some edits, some texts =>
    s.container.repackMessagesRecords texts ++
      match s.container.repackMessages texts with
      | .error _ => []
      | .ok c =>
        c.referenceRecords s.names ++
          match s.commit c with
          | .error _ => []
          | .ok _ =>
            [⟨.info, .script, "imported " ++ decimal edits.length ++ " message lines"⟩]
  | _, _ => []

def importStringsRecords (text : String) : List Record :=
  match TextSheet.readStrings text (.ofList (s.strings.map Prod.fst)) with
  | .error _ => []
  | .ok edits =>
    let refs := s.references.strings
    let texts := s.editedStrings edits
    s.container.repackStringsRecords refs texts ++
      match s.container.repackStrings refs texts with
      | .error _ => []
      | .ok c =>
        c.referenceRecords s.names ++
          match s.commit c with
          | .error _ => []
          | .ok _ =>
            [⟨.info, .script, "imported " ++ decimal edits.length ++ " string lines"⟩]

end Script

end NovelScript
