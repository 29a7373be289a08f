import NovelScript.Instruction.Walk
import NovelScript.Proofs.Outcome

/-!
Instructions as bytes. A walk takes the code apart into the bytes of its instructions, one after
the other, up to the first place where no instruction can be read (`walkAfter_eq_iff`).
-/

namespace NovelScript

open Outcome

def Shape.operandBytes : Shape → Operand → List UInt8
  | .jump, .target address _ => Bytes.littleEndian Width.four.size address.toNat
  | .value width, .value word => Bytes.littleEndian width.size word.toNat
  | .string width, .string offset => Bytes.littleEndian width.size offset.toNat
  | .frame width, .frame size => Bytes.littleEndian width.size size.toNat
  | .call, .call index count => Bytes.littleEndian Width.four.size index ++ count.toList
  | .countedCall width, .call index count => Bytes.littleEndian width.size index ++ count.toList
  | _, _ => []

namespace Instruction

variable (i : Instruction)

def operandBytes : List UInt8 := i.opcode?.elim [] fun op ↦ op.shape.operandBytes i.operand

def bytes : List UInt8 := i.code :: i.operandBytes

/-- Each instruction starts where the one before it ends. -/
def Placed : Nat → List Instruction → Prop
  | _, [] => True
  | position, i :: later => i.address = .ofNat position ∧ Placed (position + i.size) later

end Instruction

/-- The operands that a shape may have in a scope. -/
inductive Scope.Admits (s : Scope) (op : Opcode) : Shape → Operand → Prop
  | bare : s.Admits op .bare .none
  | jump {target : UInt32} (h : (s.names.label? target).isSome ∨ target.toNat < s.codeSize ∨
      op = .jump) : s.Admits op .jump (.target target (s.names.label? target))
  | value {width : Width} {word : UInt32} (hw : word.toNat < width.bound) :
      s.Admits op (.value width) (.value word)
  | string {width : Width} {offset : UInt32} (hw : offset.toNat < width.bound)
      (hs : offset.toNat < s.stringSize) : s.Admits op (.string width) (.string offset)
  | frame {width : Width} {size : UInt32} (hw : size.toNat < width.bound) :
      s.Admits op (.frame width) (.frame size)
  | call {index : Nat} {f : Function} {symbol : Nat} {count : Option UInt8}
      (hi : index < 0x80000000) (hf : s.functions[index]? = some f)
      (hs : s.names.symbol? f.name = some symbol)
      (hc : count.isSome = (s.conventions[symbol]? == some .cdecl)) :
      s.Admits op .call (.call index count)
  | countedCall {width : Width} {index : Nat} {f : Function} {count : UInt8}
      (hi : index < 0x80000000) (hw : index < width.bound) (hf : s.functions[index]? = some f) :
      s.Admits op (.countedCall width) (.call index (some count))

def Scope.Valid (s : Scope) (i : Instruction) : Prop :=
  match i.opcode? with
  | some op => s.Admits op op.shape i.operand
  | none => i.operand = .none

namespace Scope

variable {s : Scope} {address : UInt32} {position : Nat} {op : Opcode}

theorem field_eq_ok_iff {width : Width} {bytes rest : List UInt8} {word : UInt32} :
    field address op width bytes = .ok (word, rest) ↔
      word.toNat < width.bound ∧ bytes = Bytes.littleEndian width.size word.toNat ++ rest := by
  have hsize : width.size ≤ 4 := by cases width <;> decide
  unfold field
  cases h : Bytes.split? width.size bytes with
  | none =>
    rw [Bytes.split?_eq_none_iff] at h
    simp only [reduceCtorEq, false_iff, not_and]
    intro _ h
    subst h
    rw [List.length_append, Bytes.length_littleEndian] at h
    omega
  | some p =>
    obtain ⟨front, after⟩ := p
    obtain ⟨rfl, hl⟩ := Bytes.split?_eq_some_iff.1 h
    simp only [Except.ok.injEq, Prod.mk.injEq]
    rw [Bytes.toWord_eq_iff (by omega), hl, Width.bound]
    constructor
    · intro h
      obtain ⟨⟨hw, hfront⟩, rfl⟩ := h
      exact ⟨hw, congrArg (· ++ after) hfront⟩
    · intro h
      obtain ⟨hw, he⟩ := h
      obtain ⟨hfront, rfl⟩ := List.append_inj he (by simpa using hl)
      exact ⟨⟨hw, hfront⟩, rfl⟩

/-- Words from 2 ^ 31 on stand for negative numbers. -/
theorem toInt_toInt32 (word : UInt32) :
    word.toInt32.toInt =
      if word.toNat < 0x80000000 then (word.toNat : Int) else word.toNat - 0x100000000 := by
  have hcond := BitVec.toInt_eq_toNat_cond word.toBitVec
  have hn : word.toBitVec.toNat = word.toNat := rfl
  rw [hn] at hcond
  change word.toBitVec.toInt = _
  rw [hcond]
  split <;> split <;> omega

theorem function_eq_ok_iff {word : UInt32} {index : Nat} {f : Function} :
    s.function address op word = .ok (index, f) ↔
      (index < 0x80000000 ∧ s.functions[index]? = some f) ∧ word.toNat = index := by
  have hlt := word.toNat_lt
  unfold function
  dsimp only
  rw [toInt_toInt32]
  by_cases hw : word.toNat < 0x80000000
  · rw [if_pos hw, if_pos (Int.natCast_nonneg _), Int.toNat_natCast]
    cases hf : s.functions[word.toNat]? with
    | none =>
      simp only [reduceCtorEq, false_iff]
      intro h
      obtain ⟨⟨-, hf'⟩, rfl⟩ := h
      rw [hf] at hf'
      cases hf'
    | some g =>
      simp only [Except.ok.injEq, Prod.mk.injEq]
      constructor
      · intro h
        obtain ⟨rfl, rfl⟩ := h
        exact ⟨⟨hw, hf⟩, rfl⟩
      · intro h
        obtain ⟨⟨-, hf'⟩, rfl⟩ := h
        exact ⟨rfl, Option.some.inj (hf.symm.trans hf')⟩
  · rw [if_neg hw, if_neg (by omega)]
    simp only [reduceCtorEq, false_iff]
    intro h
    obtain ⟨⟨hi, -⟩, rfl⟩ := h
    exact hw hi

theorem carriesStackSize_eq_ok_iff {f : Function} {b : Bool} :
    s.carriesStackSize address f = .ok b ↔
      ∃ symbol, s.names.symbol? f.name = some symbol ∧
        b = (s.conventions[symbol]? == some .cdecl) := by
  unfold carriesStackSize
  cases s.names.symbol? f.name with
  | none => simp
  | some symbol => simp [eq_comm]

/-- Of an operand's last byte only the byte itself is kept. -/
theorem field_one_eq_ok {count : UInt8} {rest : List UInt8} :
    field address op .one (count :: rest) = .ok (count.toUInt32, rest) := by
  refine field_eq_ok_iff.2 ⟨count.toNat_lt, ?_⟩
  simp [Width.size, Bytes.littleEndian]

theorem admits_of_operand {bytes : List UInt8} {o : Operand}
    (h : s.operand address op bytes = .ok o) :
    s.Admits op op.shape o ∧ ∃ rest, bytes = op.shape.operandBytes o ++ rest := by
  unfold operand at h
  generalize op.shape = shape at h ⊢
  cases shape with
  | bare =>
    obtain rfl := pure_eq_ok_iff.1 h
    exact ⟨.bare, bytes, rfl⟩
  | jump =>
    obtain ⟨⟨target, rest⟩, hfield, hjump⟩ := bind_eq_ok_iff.1 h
    obtain ⟨-, rfl⟩ := field_eq_ok_iff.1 hfield
    dsimp only [jump] at hjump
    split at hjump <;> cases hjump
    rename_i hto
    exact ⟨.jump hto, rest, rfl⟩
  | value width =>
    obtain ⟨⟨word, rest⟩, hfield, hpure⟩ := bind_eq_ok_iff.1 h
    obtain ⟨hw, rfl⟩ := field_eq_ok_iff.1 hfield
    obtain rfl := pure_eq_ok_iff.1 hpure
    exact ⟨.value hw, rest, rfl⟩
  | frame width =>
    obtain ⟨⟨size, rest⟩, hfield, hpure⟩ := bind_eq_ok_iff.1 h
    obtain ⟨hw, rfl⟩ := field_eq_ok_iff.1 hfield
    obtain rfl := pure_eq_ok_iff.1 hpure
    exact ⟨.frame hw, rest, rfl⟩
  | string width =>
    obtain ⟨⟨offset, rest⟩, hfield, hpure⟩ := bind_eq_ok_iff.1 h
    obtain ⟨hw, rfl⟩ := field_eq_ok_iff.1 hfield
    dsimp only at hpure
    split at hpure <;> cases hpure
    rename_i hs
    exact ⟨.string hw hs, rest, rfl⟩
  | call =>
    obtain ⟨⟨word, rest⟩, hfield, h⟩ := bind_eq_ok_iff.1 h
    obtain ⟨⟨index, f⟩, hfunction, h⟩ := bind_eq_ok_iff.1 h
    obtain ⟨b, hsize, h⟩ := bind_eq_ok_iff.1 h
    obtain ⟨-, rfl⟩ := field_eq_ok_iff.1 hfield
    obtain ⟨⟨hi, hf⟩, rfl⟩ := function_eq_ok_iff.1 hfunction
    obtain ⟨symbol, hs, rfl⟩ := carriesStackSize_eq_ok_iff.1 hsize
    dsimp only at h
    split at h <;> rename_i hc
    · obtain ⟨⟨count, after⟩, hfield, hpure⟩ := bind_eq_ok_iff.1 h
      obtain ⟨-, rfl⟩ := field_eq_ok_iff.1 hfield
      obtain rfl := pure_eq_ok_iff.1 hpure
      refine ⟨.call hi hf hs hc.symm, after, ?_⟩
      rw [← List.append_assoc]
      rfl
    · obtain rfl := pure_eq_ok_iff.1 h
      refine ⟨.call hi hf hs (Bool.eq_false_iff.2 hc).symm, rest, ?_⟩
      simp [Shape.operandBytes]
  | countedCall width =>
    obtain ⟨⟨word, rest⟩, hfield, h⟩ := bind_eq_ok_iff.1 h
    obtain ⟨⟨count, after⟩, hcount, h⟩ := bind_eq_ok_iff.1 h
    obtain ⟨⟨index, f⟩, hfunction, hpure⟩ := bind_eq_ok_iff.1 h
    obtain ⟨hw, rfl⟩ := field_eq_ok_iff.1 hfield
    obtain ⟨-, rfl⟩ := field_eq_ok_iff.1 hcount
    obtain ⟨⟨hi, hf⟩, rfl⟩ := function_eq_ok_iff.1 hfunction
    obtain rfl := pure_eq_ok_iff.1 hpure
    refine ⟨.countedCall hi hw hf, after, ?_⟩
    rw [← List.append_assoc]
    rfl

theorem operand_of_admits {o : Operand} (h : s.Admits op op.shape o) (rest : List UInt8) :
    s.operand address op (op.shape.operandBytes o ++ rest) = .ok o := by
  unfold operand
  generalize op.shape = shape at h ⊢
  cases h with
  | bare => rfl
  | jump hto =>
    rename_i target
    exact bind_eq_ok_iff.2 ⟨(target, rest), field_eq_ok_iff.2 ⟨target.toNat_lt, rfl⟩, if_pos hto⟩
  | value hw => exact bind_eq_ok_iff.2 ⟨(_, rest), field_eq_ok_iff.2 ⟨hw, rfl⟩, rfl⟩
  | string hw hs => exact bind_eq_ok_iff.2 ⟨(_, rest), field_eq_ok_iff.2 ⟨hw, rfl⟩, if_pos hs⟩
  | frame hw => exact bind_eq_ok_iff.2 ⟨(_, rest), field_eq_ok_iff.2 ⟨hw, rfl⟩, rfl⟩
  | call hi hf hs hc =>
    rename_i index f symbol count
    have hn : (UInt32.ofNat index).toNat = index :=
      UInt32.toNat_ofNat_of_lt' (Nat.lt_trans hi (by decide))
    have hfield : field address op .four
        (Shape.operandBytes .call (.call index count) ++ rest) =
          .ok (UInt32.ofNat index, count.toList ++ rest) :=
      field_eq_ok_iff.2 ⟨UInt32.toNat_lt _, by rw [hn, ← List.append_assoc]; rfl⟩
    refine bind_eq_ok_iff.2 ⟨_, hfield, bind_eq_ok_iff.2 ⟨_, function_eq_ok_iff.2 ⟨⟨hi, hf⟩, hn⟩,
      bind_eq_ok_iff.2 ⟨_, carriesStackSize_eq_ok_iff.2 ⟨symbol, hs, hc⟩, ?_⟩⟩⟩
    cases count with
    | none => rfl
    | some count =>
      refine bind_eq_ok_iff.2 ⟨_, field_one_eq_ok, ?_⟩
      simp [pure_eq_ok_iff]
  | countedCall hi hw hf =>
    rename_i width index f count
    have hn : (UInt32.ofNat index).toNat = index :=
      UInt32.toNat_ofNat_of_lt' (Nat.lt_trans hi (by decide))
    have hfield : field address op width
        (Shape.operandBytes (.countedCall width) (.call index (some count)) ++ rest) =
          .ok (UInt32.ofNat index, count :: rest) :=
      field_eq_ok_iff.2 ⟨by rwa [hn], by simp [Shape.operandBytes, hn]⟩
    refine bind_eq_ok_iff.2 ⟨_, hfield, bind_eq_ok_iff.2 ⟨_, field_one_eq_ok,
      bind_eq_ok_iff.2 ⟨_, function_eq_ok_iff.2 ⟨⟨hi, hf⟩, hn⟩, ?_⟩⟩⟩
    simp [pure_eq_ok_iff]

theorem length_operandBytes {shape : Shape} {o : Operand} (h : s.Admits op shape o) :
    (shape.operandBytes o).length = shape.operandSize o := by
  cases h with
  | bare => rfl
  | jump | value | string | frame | countedCall =>
    simp [Shape.operandBytes, Shape.operandSize, Width.size]
  | call hi hf hs hc =>
    rename_i count
    cases count <;> simp [Shape.operandBytes, Shape.operandSize, Width.size]

theorem valid_iff_eq_none {i : Instruction} (h : i.opcode? = none) :
    s.Valid i ↔ i.operand = .none := by
  unfold Valid
  rw [h]

theorem valid_iff_admits {i : Instruction} (h : i.opcode? = some op) :
    s.Valid i ↔ s.Admits op op.shape i.operand := by
  unfold Valid
  rw [h]

theorem Valid.length_operandBytes {i : Instruction} (h : s.Valid i) :
    i.operandBytes.length = i.operandSize := by
  unfold Instruction.operandBytes Instruction.operandSize
  cases hop : i.opcode? with
  | none => rfl
  | some op => exact Scope.length_operandBytes ((valid_iff_admits hop).1 h)

theorem Valid.length_bytes {i : Instruction} (h : s.Valid i) : i.bytes.length = i.size := by
  rw [Instruction.bytes, List.length_cons, h.length_operandBytes, Instruction.size]

theorem instruction_eq_ok_iff {code : UInt8} {bytes : List UInt8} {i : Instruction} :
    s.instruction address code bytes = .ok i ↔
      i.address = address ∧ s.Valid i ∧ ∃ rest, code :: bytes = i.bytes ++ rest := by
  obtain ⟨address', code', o⟩ := i
  unfold instruction Valid Instruction.bytes Instruction.operandBytes Instruction.opcode?
  dsimp only
  constructor
  · intro h
    split at h
    · rename_i op hop
      obtain ⟨o', ho, hpure⟩ := bind_eq_ok_iff.1 h
      cases pure_eq_ok_iff.1 hpure
      obtain ⟨ha, rest, rfl⟩ := admits_of_operand ho
      rw [hop]
      exact ⟨rfl, ha, rest, rfl⟩
    · rename_i hop
      cases pure_eq_ok_iff.1 h
      rw [hop]
      exact ⟨rfl, rfl, bytes, rfl⟩
  · intro h
    obtain ⟨rfl, hv, rest, he⟩ := h
    obtain ⟨rfl, rfl⟩ := List.cons.inj he
    cases hop : Opcode.ofByte? code with
    | none =>
      rw [hop] at hv
      exact pure_eq_ok_iff.2 (congrArg _ hv)
    | some op =>
      rw [hop] at hv
      exact bind_eq_ok_iff.2 ⟨o, operand_of_admits hv rest, rfl⟩

theorem walkAfter_eq_drop (skip position : Nat) (bytes : List UInt8) :
    s.walkAfter skip position bytes = s.walkAfter 0 (position + skip) (bytes.drop skip) := by
  induction bytes generalizing skip position with
  | nil => cases skip <;> rfl
  | cons b rest ih =>
    cases skip with
    | zero => rfl
    | succ skip =>
      rw [walkAfter, ih, List.drop_succ_cons]
      congr 1
      omega

/-- Where a walk ends: at the end of the bytes, or where no instruction can be read. -/
def Stops (s : Scope) (position : Nat) : List UInt8 → Option DecodeError → Prop
  | [], failure? => failure? = none
  | code :: rest, failure? =>
    ∃ e, s.instruction (.ofNat position) code rest = .error e ∧ failure? = some e

theorem walkAfter_cons {i : Instruction} (ha : i.address = .ofNat position) (hv : s.Valid i)
    (rest : List UInt8) :
    s.walkAfter 0 position (i.bytes ++ rest) =
      ⟨i :: (s.walkAfter 0 (position + i.size) rest).instructions,
        (s.walkAfter 0 (position + i.size) rest).failure?⟩ := by
  have hi : s.instruction (.ofNat position) i.code (i.operandBytes ++ rest) = .ok i :=
    instruction_eq_ok_iff.2 ⟨ha, hv, rest, rfl⟩
  rw [Instruction.bytes, List.cons_append, walkAfter, hi]
  dsimp only
  rw [walkAfter_eq_drop, ← hv.length_operandBytes, List.drop_left, hv.length_operandBytes,
    Nat.add_assoc, Nat.add_comm 1, Instruction.size]

/-- A walk takes the bytes of valid instructions first, whatever follows them. -/
theorem walkAfter_append {is : List Instruction} (hp : Instruction.Placed position is)
    (hv : ∀ i ∈ is, s.Valid i) (rest : List UInt8) :
    s.walkAfter 0 position (is.flatMap (·.bytes) ++ rest) =
      ⟨is ++ (s.walkAfter 0 (position + (is.flatMap (·.bytes)).length) rest).instructions,
        (s.walkAfter 0 (position + (is.flatMap (·.bytes)).length) rest).failure?⟩ := by
  induction is generalizing position with
  | nil => rfl
  | cons i later ih =>
    obtain ⟨ha, hplaced⟩ := hp
    obtain ⟨hi, hlater⟩ := List.forall_mem_cons.1 hv
    rw [List.flatMap_cons, List.append_assoc, walkAfter_cons ha hi, ih hplaced hlater,
      List.length_append, hi.length_bytes, ← Nat.add_assoc]
    rfl

theorem walkAfter_eq_nil_iff {bytes : List UInt8} {failure? : Option DecodeError} :
    s.walkAfter 0 position bytes = ⟨[], failure?⟩ ↔ s.Stops position bytes failure? := by
  cases bytes with
  | nil => simp [walkAfter, Stops, eq_comm]
  | cons code rest =>
    rw [walkAfter, Stops]
    cases s.instruction (.ofNat position) code rest with
    | error e => simp [eq_comm]
    | ok i => simp

theorem walkAfter_eq_cons_iff {bytes : List UInt8} {i : Instruction} {later : List Instruction}
    {failure? : Option DecodeError} :
    s.walkAfter 0 position bytes = ⟨i :: later, failure?⟩ ↔
      i.address = .ofNat position ∧ s.Valid i ∧ ∃ rest, bytes = i.bytes ++ rest ∧
        s.walkAfter 0 (position + i.size) rest = ⟨later, failure?⟩ := by
  constructor
  · intro h
    cases bytes with
    | nil => simp [walkAfter] at h
    | cons code rest =>
      cases hi : s.instruction (.ofNat position) code rest with
      | error e => simp [walkAfter, hi] at h
      | ok j =>
        obtain ⟨ha, hv, after, he⟩ := instruction_eq_ok_iff.1 hi
        rw [he, walkAfter_cons ha hv] at h
        cases h
        exact ⟨ha, hv, after, he, rfl⟩
  · intro h
    obtain ⟨ha, hv, rest, rfl, hlater⟩ := h
    rw [walkAfter_cons ha hv, hlater]

/-- A walk takes the bytes of its instructions and stops after them. -/
theorem walkAfter_eq_iff {bytes : List UInt8} {is : List Instruction}
    {failure? : Option DecodeError} :
    s.walkAfter 0 position bytes = ⟨is, failure?⟩ ↔
      Instruction.Placed position is ∧ (∀ i ∈ is, s.Valid i) ∧
        ∃ rest, bytes = is.flatMap (·.bytes) ++ rest ∧
          s.Stops (position + (is.flatMap (·.bytes)).length) rest failure? := by
  induction is generalizing position bytes with
  | nil => simp [walkAfter_eq_nil_iff, Instruction.Placed]
  | cons i later ih =>
    rw [walkAfter_eq_cons_iff]
    simp only [ih, Instruction.Placed, List.forall_mem_cons, List.flatMap_cons, List.length_append]
    constructor
    · intro h
      obtain ⟨ha, hv, _, rfl, hp, hl, rest, rfl, hs⟩ := h
      rw [← hv.length_bytes, Nat.add_assoc] at hs
      exact ⟨⟨ha, hp⟩, ⟨hv, hl⟩, rest, (List.append_assoc ..).symm, hs⟩
    · intro h
      obtain ⟨⟨ha, hp⟩, ⟨hv, hl⟩, rest, rfl, hs⟩ := h
      rw [hv.length_bytes, ← Nat.add_assoc] at hs
      exact ⟨ha, hv, _, List.append_assoc .., hp, hl, rest, rfl, hs⟩

/-- A walk without an error takes all of the code. -/
theorem walk_eq_none_iff {code : List UInt8} {is : List Instruction} :
    s.walk code = ⟨is, none⟩ ↔
      Instruction.Placed 0 is ∧ (∀ i ∈ is, s.Valid i) ∧ code = is.flatMap (·.bytes) := by
  rw [walk, walkAfter_eq_iff]
  refine and_congr_right fun _ ↦ and_congr_right fun _ ↦ ?_
  constructor
  · intro h
    obtain ⟨rest, rfl, hs⟩ := h
    cases rest with
    | nil => rw [List.append_nil]
    | cons code rest =>
      obtain ⟨e, -, he⟩ := hs
      cases he
  · intro h
    subst h
    exact ⟨[], (List.append_nil _).symm, rfl⟩

/-- Code of nothing but a load. -/
theorem walk_load {offset : UInt8} (h : offset.toNat < s.stringSize) :
    s.walk [0x09, offset] = ⟨[⟨0, 0x09, .string offset.toUInt32⟩], none⟩ := by
  have hload : s.Admits .loadString1 (.string .one) (.string offset.toUInt32) :=
    .string (UInt8.toNat_lt offset) h
  refine walk_eq_none_iff.2 ⟨⟨rfl, trivial⟩, List.forall_mem_singleton.2 hload, ?_⟩
  exact congrArg (0x09 :: ·) (Width.littleEndian_one offset).symm

end Scope

end NovelScript
