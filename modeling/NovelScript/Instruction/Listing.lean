import NovelScript.Container.Text
import NovelScript.Instruction.Walk
import NovelScript.Log
import NovelScript.Markup.Plain

/-!
The listing of a code segment: one line for each instruction, with the names and strings of its
container.
-/

namespace NovelScript

open Numeral

namespace Container

variable (c : Container)

/-- The operand as it stands in the listing, after the mnemonic. -/
def renderOperand (op : Opcode) : Operand → String
  | .none => ""
  | .target _ (some label) => " " ++ (c.labels[label]?.elim "" (·.name))
  | .target target none =>
    " " ++ hexPadded 8 target.toNat ++
      if target.toNat < c.code.size then "h" else "h ; out of range"
  | .call function count =>
    " " ++ (c.functions[function]?.elim "" (·.name)) ++
      count.elim "" fun n ↦ " (" ++ decimal n.toNat ++ ")"
  | .value value =>
    " " ++ hexPadded (if op.shape = .value .one then 2 else 8) value.toNat ++ "h (" ++
      decimal value.toNat ++ ")"
  | .string offset => " \"" ++ Markup.escapeString (c.stringAt offset) ++ "\""
  | .frame size => " " ++ hexPadded 8 size.toNat ++ "h"

def render (i : Instruction) : String :=
  hexPadded 8 i.address.toNat ++ "| " ++
    match i.opcode? with
    | some op => op.mnemonic ++ c.renderOperand op i.operand
    | none => hexPadded 2 i.code.toNat ++ " ; unexplored"

def listing (names : NameIndex) : Except DecodeError String :=
  let walk := c.walk names
  match walk.failure? with
  | some e => .error e
  | none => .ok (String.join (walk.instructions.map fun i ↦ c.render i ++ "\n"))

end Container

/-- Unassigned bytes, and jumps out of the code segment to no label, are worth a warning. -/
def Instruction.warnings (codeSize : Nat) (i : Instruction) : List Record :=
  match i.opcode?, i.operand with
  | none, _ =>
    [⟨.warn, .bytecode,
      "unexplored opcode 0x" ++ hexPadded 2 i.code.toNat ++ " at " ++
        Numeral.address i.address.toNat⟩]
  | some _, .target target none =>
    if target.toNat < codeSize then []
    else
      [⟨.warn, .bytecode, "JUMP at " ++ Numeral.address i.address.toNat ++
        " targets " ++ Numeral.address target.toNat ++ ", past the end of the code segment"⟩]
  | _, _ => []

def Container.walkRecords (c : Container) (names : NameIndex) : List Record :=
  (c.walk names).instructions.flatMap (·.warnings c.code.size)

end NovelScript
