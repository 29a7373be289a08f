import NovelScript.Instruction.Listing
import NovelScript.Sequence.Ascending
import NovelScript.Sequence.Latest

/-!
The strings and messages that the code refers to. The stack is not simulated: a call shows the
message whose index was pushed last, or the string loaded last as the name of a character.
-/

namespace NovelScript

structure MessageRef where
  /-- Of the call that shows the message. -/
  address : UInt32
  index : UInt32
  text : String
  deriving DecidableEq, Repr

structure References where
  /-- The address of each string load and the offset that it loads, by ascending address. Where
  addresses have wrapped to the same word, only the last load is kept. -/
  strings : List (UInt32 × UInt32)
  /-- Messages and names in the order of the code. -/
  messages : List MessageRef
  deriving DecidableEq, Repr

/-- Stands in the place of a message's index for the name of a character. -/
def nameIndex : UInt32 := 0xAAAAAAAA

def MessageRef.isName (m : MessageRef) : Bool := m.index == nameIndex

/-- The functions of the engine that show text. -/
inductive Native where
  | message
  | name
  deriving DecidableEq, Repr

def Native.ofName? (name : String) : Option Native :=
  if name = "_ms_message" then some .message
  else if name = "MALIE_NAME" then some .name
  else none

namespace Instruction

variable (i : Instruction)

/-- The value that an instruction pushes for a call to show. -/
def pushed? : Option UInt32 :=
  match i.opcode?, i.operand with
  | some .push, .value word => some word
  | some .pushByte, .value word => some word
  | some .pushZero, _ => some 0
  | _, _ => none

def loaded? : Option UInt32 :=
  match i.operand with
  | .string offset => some offset
  | _ => none

/-- The native that an instruction calls with the opcode CALL. -/
def native? (functions : Array Function) : Option Native :=
  match i.opcode?, i.operand with
  | some .call, .call index _ => functions[index]?.bind fun f ↦ Native.ofName? f.name
  | _, _ => none

end Instruction

namespace Container

variable (c : Container)

def shown (address : UInt32) (push : UInt32) (load : Option UInt32) :
    Native → Except DecodeError MessageRef
  | .message =>
    match c.messageText? push with
    | some text => .ok ⟨address, push, text⟩
    | none => .error (.messageIndex address push)
  | .name => .ok ⟨address, nameIndex, load.elim "" c.stringAt⟩

/-- The references of instructions that come after the given last push and last load, with all
loads in the order of the code. -/
def collect (push : UInt32) (load : Option UInt32) :
    List Instruction → Except DecodeError References
  | [] => .ok ⟨[], []⟩
  | i :: later => do
    let shown ← (i.native? c.functions).toList.mapM (c.shown i.address push load)
    let found ← collect (i.pushed?.getD push) (i.loaded? <|> load) later
    return ⟨i.loaded?.toList.map (i.address, ·) ++ found.strings, shown ++ found.messages⟩

/-- Fails where the first thing goes wrong, be it in the walk or at a call. -/
def references (names : NameIndex) : Except DecodeError References := do
  let walk := c.walk names
  let found ← c.collect 0 none walk.instructions
  match walk.failure? with
  | some e => throw e
  | none => return { found with strings := latest found.strings }

/-- The strings that are referred to, by ascending offset. -/
def referencedStrings (refs : References) : List (UInt32 × String) :=
  (ascending (refs.strings.map Prod.snd)).map fun offset ↦ (offset, c.stringAt offset)

/-- The instructions up to the first call that shows a message that does not exist. -/
def seen (push : UInt32) (load : Option UInt32) : List Instruction → List Instruction
  | [] => []
  | i :: later =>
    match (i.native? c.functions).toList.mapM (c.shown i.address push load) with
    | .ok _ => i :: seen (i.pushed?.getD push) (i.loaded? <|> load) later
    | .error _ => [i]

/-- What looking for the references logs. It warns of no instruction after the one it fails at. -/
def referenceRecords (names : NameIndex) : List Record :=
  let walk := c.walk names
  let warnings := (c.seen 0 none walk.instructions).flatMap (·.warnings c.code.size)
  match c.references names with
  | .ok refs =>
    let unexplored := (walk.instructions.filter (·.opcode?.isNone)).length
    warnings ++ [⟨.debug, .scan, "scan: " ++ Numeral.decimal refs.strings.length ++
      " string references, " ++ Numeral.decimal refs.messages.length ++
      " message references, " ++ Numeral.decimal unexplored ++ " unexplored bytes"⟩]
  | .error _ => warnings

end Container

end NovelScript
