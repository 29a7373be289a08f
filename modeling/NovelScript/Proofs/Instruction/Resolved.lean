import NovelScript.Instruction.Listing
import NovelScript.Proofs.Instruction.Failing
import NovelScript.Proofs.Instruction.Program
import NovelScript.Proofs.Instruction.Stream

/-!
What decoded instructions refer to. Whatever the bytes of the code, an instruction that is decoded
has its function, string and label in the container (`Resolved`), so that its line in the listing
can be written (`walk_resolved`).
-/

namespace NovelScript

open Numeral

namespace Scope

variable {s : Scope} {position : Nat} {is : List Instruction}

theorem placed_of_append {later : List Instruction}
    (h : Instruction.Placed position (is ++ later)) : Instruction.Placed position is := by
  induction is generalizing position with
  | nil => trivial
  | cons i more ih => exact ⟨h.1, ih h.2⟩

/-- A walk that comes to an instruction's bytes behind some of its instructions decodes it there. -/
theorem append_prefix_of_walk {code rest : List UInt8} {i : Instruction}
    (his : is <+: (s.walk code).instructions) (hi : s.Valid i)
    (haddress : i.address = .ofNat (is.flatMap (·.bytes)).length)
    (hcode : code = is.flatMap (·.bytes) ++ (i.bytes ++ rest)) :
    is ++ [i] <+: (s.walk code).instructions := by
  obtain ⟨later, hlater⟩ := his
  have hwalk : s.walk code = ⟨is ++ later, (s.walk code).failure?⟩ := by rw [hlater]
  obtain ⟨hp, hv, -⟩ := walkAfter_eq_iff.1 hwalk
  have hbehind : (s.walk code).instructions = is ++
      (s.walkAfter 0 (is.flatMap (·.bytes)).length (i.bytes ++ rest)).instructions := by
    rw [walk, hcode, walkAfter_append (placed_of_append hp)
      (fun j hj ↦ hv j (List.mem_append_left _ hj)), Nat.zero_add]
  rw [hbehind, walkAfter_cons haddress hi]
  exact ⟨_, List.append_assoc ..⟩

end Scope

namespace Container

variable {c : Container} {size n : Nat} {op : Opcode} {i : Instruction} {target offset : UInt32}
  {label : Option Nat} {index : Nat} {count : Option UInt8}

/-- The label that a jump names: of those at its target, the one that stands first in the table. -/
def IsFirstLabel (c : Container) (target : UInt32) (n : Nat) : Prop :=
  (∃ l, c.labels[n]? = some l ∧ l.offset = target) ∧
    ∀ m < n, ∀ l, c.labels[m]? = some l → l.offset ≠ target

theorem isFirstLabel_of_labelAt? (h : c.labelAt? target = some n) : c.IsFirstLabel target n := by
  obtain ⟨hlt, hn, hbefore⟩ := List.findIdx?_eq_some_iff_getElem.1 h
  refine ⟨⟨_, Array.getElem?_toList.symm.trans (List.getElem?_eq_getElem hlt), eq_of_beq hn⟩, ?_⟩
  intro m hm l hl
  obtain ⟨_, rfl⟩ := List.getElem?_eq_some_iff.1 (Array.getElem?_toList.trans hl)
  simpa using hbefore m hm

/-- The walk of a container with its own names. -/
abbrev ownWalk (c : Container) : Walk := c.walk (.ofContainer c)

/-- What a decoder of the container gives when it has been asked `n` times before. -/
def pull (c : Container) (n : Nat) : Option (Except DecodeError Instruction) :=
  (c.scope (.ofContainer c)).pull c.code.toList n {}

theorem placed_ownWalk (c : Container) : Instruction.Placed 0 c.ownWalk.instructions ∧
    ∀ i ∈ c.ownWalk.instructions, (c.scopeOfSize c.code.size).Valid i := by
  obtain ⟨hp, hv, -⟩ := Scope.walkAfter_eq_iff.1
    (rfl : (c.scopeOfSize c.code.size).walkAfter 0 0 c.code.toList = ⟨_, c.ownWalk.failure?⟩)
  exact ⟨hp, hv⟩

theorem valid_of_mem_ownWalk (h : i ∈ c.ownWalk.instructions) : c.Valid c.code.size i :=
  valid_of_scope (c.placed_ownWalk.2 i h)

/-- What an instruction relies on is in its container. -/
structure Resolved (c : Container) (i : Instruction) : Prop where
  function : ∀ index count, i.operand = .call index count → index < c.functions.size
  string : ∀ offset, i.operand = .string offset → offset.toNat < c.strings.size ∧
    ∃ op width, i.opcode? = some op ∧ op.stringWidth? = some width ∧ offset.toNat < width.bound
  label : ∀ target n, i.operand = .target target (some n) → c.IsFirstLabel target n
  unlabelled : ∀ target, i.operand = .target target none →
    (∀ l ∈ c.labels, l.offset ≠ target) ∧ (i.opcode? = some .jump ∨ target.toNat < c.code.size)
  stackSize : i.opcode? = some .call → ∃ index f symbol count,
    i.operand = .call index count ∧ c.functions[index]? = some f ∧
      c.symbols.find? (·.name == f.name) = some symbol ∧ (count.isSome ↔ symbol.convention = 1)

theorem Valid.admits (h : c.Valid size i) (ho : i.operand ≠ .none) :
    ∃ op, i.opcode? = some op ∧ c.Admits size op op.shape i.operand := by
  unfold Valid at h
  cases hop : i.opcode? with
  | none =>
    rw [hop] at h
    exact absurd h ho
  | some op =>
    rw [hop] at h
    exact ⟨op, rfl, h⟩

theorem Valid.function (h : c.Valid size i) (ho : i.operand = .call index count) :
    index < c.functions.size := by
  obtain ⟨op, -, ha⟩ := h.admits (by simp [ho])
  rw [ho] at ha
  generalize op.shape = shape at ha
  cases ha with
  | call hf hs hc => exact (Array.getElem?_eq_some_iff.1 hf).1
  | countedCall hw hi => exact hi

theorem Valid.string (h : c.Valid size i) (ho : i.operand = .string offset) :
    offset.toNat < c.strings.size ∧
      ∃ op width, i.opcode? = some op ∧ op.stringWidth? = some width ∧
        offset.toNat < width.bound := by
  obtain ⟨op, hop, ha⟩ := h.admits (by simp [ho])
  rw [ho] at ha
  generalize hshape : op.shape = shape at ha
  cases ha with
  | string hw hs => exact ⟨hs, op, _, hop, by rw [Opcode.stringWidth?, hshape], hw⟩

theorem Valid.jumpTarget (h : c.Valid size i) (ho : i.operand = .target target label) :
    label = c.labelAt? target ∧
      (i.opcode? = some .jump ∨ target.toNat < size ∨ ∃ l ∈ c.labels, l.offset = target) := by
  obtain ⟨op, hop, ha⟩ := h.admits (by simp [ho])
  generalize op.shape = shape at ha
  generalize i.operand = o at ho ha
  cases ha with
  | jump hto =>
    cases ho
    rw [hop, Option.some.injEq]
    exact ⟨rfl, hto⟩
  | _ => cases ho

theorem Valid.stackSize (h : c.Valid size i) (hop : i.opcode? = some .call) :
    ∃ index f symbol count, i.operand = .call index count ∧ c.functions[index]? = some f ∧
      c.symbols.find? (·.name == f.name) = some symbol ∧
        (count.isSome ↔ symbol.convention = 1) := by
  unfold Valid at h
  rw [hop] at h
  change c.Admits size .call .call i.operand at h
  generalize i.operand = o at h ⊢
  cases h with
  | call hf hs hc => exact ⟨_, _, _, _, rfl, hf, hs, hc⟩

theorem Valid.resolved (h : c.Valid c.code.size i) : c.Resolved i where
  function _ _ ho := h.function ho
  string _ ho := h.string ho
  label target n ho := isFirstLabel_of_labelAt? (h.jumpTarget ho).1.symm
  unlabelled target ho := by
    obtain ⟨hlabel, hto⟩ := h.jumpTarget ho
    have hnone : ¬∃ l ∈ c.labels, l.offset = target := by
      rw [← labelAt?_isSome_iff, ← hlabel]
      exact Bool.false_ne_true
    refine ⟨fun l hl he ↦ hnone ⟨l, hl, he⟩, ?_⟩
    obtain hjump | hsize | hlabelled := hto
    · exact .inl hjump
    · exact .inr hsize
    · exact absurd hlabelled hnone
  stackSize hop := h.stackSize hop

/-- An operand in the listing, if the tables have what is looked up for it. -/
def renderOperand? (c : Container) (op : Opcode) : Operand → Option String
  | .target _ (some label) => c.labels[label]?.map fun l ↦ " " ++ l.name
  | .call function count =>
    c.functions[function]?.map fun f ↦
      " " ++ f.name ++ count.elim "" fun n ↦ " (" ++ decimal n.toNat ++ ")"
  | o => some (c.renderOperand op o)

def render? (c : Container) (i : Instruction) : Option String :=
  match i.opcode? with
  | some op =>
    (c.renderOperand? op i.operand).map fun operand ↦
      hexPadded 8 i.address.toNat ++ "| " ++ (op.mnemonic ++ operand)
  | none => some (c.render i)

theorem Resolved.renderOperand? (h : c.Resolved i) (op : Opcode) :
    c.renderOperand? op i.operand = some (c.renderOperand op i.operand) := by
  cases ho : i.operand with
  | target target label =>
    cases label with
    | none => rfl
    | some n =>
      obtain ⟨⟨l, hl, -⟩, -⟩ := h.label target n ho
      simp [Container.renderOperand?, renderOperand, hl]
  | call index count =>
    have hf := Array.getElem?_eq_getElem (h.function index count ho)
    simp [Container.renderOperand?, renderOperand, hf]
  | none | value | string | frame => rfl

theorem Resolved.render? (h : c.Resolved i) : c.render? i = some (c.render i) := by
  unfold Container.render? render
  cases i.opcode? with
  | none => rfl
  | some op =>
    dsimp only
    rw [h.renderOperand? op]
    rfl

/-- A jump is decoded wherever the walk comes to one, whatever its target is. -/
theorem append_jump_prefix_ownWalk {is : List Instruction} {rest : List UInt8}
    (his : is <+: c.ownWalk.instructions)
    (hcode : c.code.toList =
      is.flatMap (·.bytes) ++ Opcode.jump.byte :: (Bytes.ofWord target ++ rest)) :
    is ++ [⟨.ofNat (is.flatMap (·.bytes)).length, Opcode.jump.byte,
      .target target (c.labelAt? target)⟩] <+: c.ownWalk.instructions := by
  refine Scope.append_prefix_of_walk his ?_ rfl hcode
  rw [← label?_ofContainer]
  exact .jump (.inr (.inr rfl))

/-- What holds of the code of a container, whatever its bytes are. -/
structure DecodesSafely (c : Container) : Prop where
  length_le : c.ownWalk.items.length ≤ c.code.size
  pulled : ∀ n, c.pull n = c.ownWalk.items[n]?
  ended : ∀ m n e, m < n → c.pull m = some (.error e) → c.pull n = none
  resolved : ∀ i ∈ c.ownWalk.instructions, c.Resolved i
  rendered : ∀ i ∈ c.ownWalk.instructions, c.render? i = some (c.render i)
  ascending : c.Addressable → c.ownWalk.instructions.Pairwise (·.address < ·.address)
  /-- A jump is accepted behind any of the instructions, whatever its target. -/
  jumps : ∀ is target rest, is <+: c.ownWalk.instructions →
    c.code.toList = is.flatMap (·.bytes) ++ Opcode.jump.byte :: (Bytes.ofWord target ++ rest) →
    is ++ [⟨.ofNat (is.flatMap (·.bytes)).length, Opcode.jump.byte,
      .target target (c.labelAt? target)⟩] <+: c.ownWalk.instructions
  listed : (∃ lines : List String, c.ownWalk.failure? = none ∧
      c.ownWalk.instructions.map c.render? = lines.map some ∧
      c.listing (.ofContainer c) = .ok (String.join (lines.map (· ++ "\n")))) ∨
    ∃ e, c.ownWalk.failure? = some e ∧ c.listing (.ofContainer c) = .error e

/-- Every decoded instruction finds what it refers to in its container, and so does its line in the
listing. -/
theorem walk_resolved (c : Container) : c.DecodesSafely := by
  have hpull : ∀ n, c.pull n = c.ownWalk.items[n]? := fun n ↦ Scope.pull_eq_getElem? n
  have hresolved : ∀ i ∈ c.ownWalk.instructions, c.Resolved i :=
    fun i hi ↦ (valid_of_mem_ownWalk hi).resolved
  have hwalk : (c.scope (.ofContainer c)).walk c.code.toList =
      ⟨c.ownWalk.instructions, c.ownWalk.failure?⟩ := rfl
  refine ⟨Scope.length_items_walkAfter_le 0 0 c.code.toList, hpull, fun m n e hlt he ↦ ?_,
    hresolved, fun i hi ↦ (hresolved i hi).render?,
    Scope.ascending_of_walk hwalk,
    fun _ _ _ his hcode ↦ append_jump_prefix_ownWalk his hcode, ?_⟩
  · rw [hpull] at he ⊢
    exact Walk.getElem?_items_of_error he hlt
  · unfold listing
    dsimp only
    cases c.ownWalk.failure? with
    | none =>
      refine .inl ⟨c.ownWalk.instructions.map c.render, rfl, ?_, ?_⟩
      · rw [List.map_map]
        exact List.map_congr_left fun i hi ↦ (hresolved i hi).render?
      · rw [List.map_map]
        rfl
    | some e => exact .inr ⟨e, rfl, rfl⟩

end Container

end NovelScript
