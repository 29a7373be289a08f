import NovelScript.Packing.Strings
import NovelScript.Proofs.Instruction.Encoding
import NovelScript.References

/-!
Moving the strings that instructions load. Patching the loads of some code gives the bytes of the
same instructions with their strings moved (`patchFrom_eq`), and these are read back as such.
-/

namespace NovelScript

open Outcome

def Operand.relocate (move : UInt32 → UInt32) : Operand → Operand
  | .string offset => .string (move offset)
  | o => o

namespace Instruction

variable (move : UInt32 → UInt32) (i : Instruction)

def relocate : Instruction := { i with operand := i.operand.relocate move }

/-- The new offset needs no wider bucket than the old one. -/
def MoveFits : Prop :=
  ∀ old, i.loaded? = some old →
    (Width.ofOffset (move old).toNat).size ≤ (Width.ofOffset old.toNat).size

/-- A byte of the code belongs to the operand of the instruction. -/
def InOperand (n : Nat) : Prop := i.address.toNat < n ∧ n < i.address.toNat + i.size

def patched : Except PackingError Instruction :=
  match i.loaded? with
  | some old =>
    let width := Width.ofOffset old.toNat
    if width.size < (Width.ofOffset (move old).toNat).size then
      .error (.offsetOverflow i.address old (move old) width)
    else .ok (i.relocate move)
  | none => .ok i

def patches (is : List Instruction) : List Patch :=
  is.filterMap fun i ↦ i.loaded?.map fun old ↦ ⟨i.address, old, move old⟩

@[simp] theorem relocate_address : (i.relocate move).address = i.address := rfl

@[simp] theorem relocate_code : (i.relocate move).code = i.code := rfl

@[simp] theorem relocate_opcode? : (i.relocate move).opcode? = i.opcode? := rfl

variable {move i}

theorem loaded?_eq_some_iff {old : UInt32} : i.loaded? = some old ↔ i.operand = .string old := by
  unfold loaded?
  cases i.operand <;> simp

@[simp] theorem relocate_loaded? : (i.relocate move).loaded? = i.loaded?.map move := by
  unfold loaded? relocate
  cases i.operand <;> rfl

theorem relocate_of_loaded?_eq_none (h : i.loaded? = none) : i.relocate move = i := by
  obtain ⟨address, code, o⟩ := i
  cases o with
  | string offset => cases h
  | none | target | call | value | frame => rfl

@[simp] theorem relocate_pushed? : (i.relocate move).pushed? = i.pushed? := by
  cases hl : i.loaded? with
  | none => rw [relocate_of_loaded?_eq_none hl]
  | some old =>
    unfold pushed?
    rw [relocate_opcode?, relocate, loaded?_eq_some_iff.1 hl, Operand.relocate]
    cases i.opcode? with
    | none => rfl
    | some op => cases op <;> rfl

@[simp] theorem relocate_native? (functions : Array Function) :
    (i.relocate move).native? functions = i.native? functions := by
  cases hl : i.loaded? with
  | none => rw [relocate_of_loaded?_eq_none hl]
  | some old =>
    unfold native?
    rw [relocate_opcode?, relocate, loaded?_eq_some_iff.1 hl, Operand.relocate]
    cases i.opcode? with
    | none => rfl
    | some op => cases op <;> rfl

@[simp] theorem relocate_size : (i.relocate move).size = i.size := by
  cases hl : i.loaded? with
  | none => rw [relocate_of_loaded?_eq_none hl]
  | some old =>
    unfold size operandSize
    rw [relocate_opcode?, relocate, loaded?_eq_some_iff.1 hl, Operand.relocate]
    cases i.opcode? with
    | none => rfl
    | some op =>
      dsimp only [Option.elim]
      cases op.shape <;> rfl

theorem patches_cons_of_none {later : List Instruction} (h : i.loaded? = none) :
    patches move (i :: later) = patches move later := by
  simp [patches, h]

theorem patches_cons_of_some {later : List Instruction} {old : UInt32} (h : i.loaded? = some old) :
    patches move (i :: later) = ⟨i.address, old, move old⟩ :: patches move later := by
  simp [patches, h]

theorem patched_of_none (h : i.loaded? = none) : i.patched move = .ok i := by
  simp [patched, h]

theorem patched_of_not_lt {old : UInt32} (h : i.loaded? = some old)
    (hfit : ¬(Width.ofOffset old.toNat).size < (Width.ofOffset (move old).toNat).size) :
    i.patched move = .ok (i.relocate move) := by
  simp [patched, h, hfit]

theorem patched_eq_ok_iff (j : Instruction) :
    i.patched move = .ok j ↔ i.MoveFits move ∧ j = i.relocate move := by
  unfold patched MoveFits
  cases hl : i.loaded? with
  | none => simp [relocate_of_loaded?_eq_none hl, eq_comm]
  | some old =>
    dsimp only
    split <;> rename_i h
    · simp only [reduceCtorEq, false_iff]
      exact fun hn ↦ absurd (hn.1 old rfl) (by omega)
    · simp only [Except.ok.injEq, Option.some.injEq, forall_eq', eq_comm]
      exact (and_iff_right (by omega)).symm

theorem placed_map_relocate {position : Nat} {is : List Instruction} :
    Placed position (is.map (relocate move)) ↔ Placed position is := by
  induction is generalizing position with
  | nil => rfl
  | cons i later ih => simp only [List.map_cons, Placed, relocate_address, relocate_size, ih]

end Instruction

namespace Scope

variable {s : Scope} {move : UInt32 → UInt32}

/-- Loads are the instructions with a string operand, of a width that the opcode gives. -/
theorem Valid.exists_width {i : Instruction} (h : s.Valid i) {old : UInt32}
    (hl : i.loaded? = some old) :
    ∃ op width, i.opcode? = some op ∧ op.shape = .string width ∧ old.toNat < width.bound ∧
      i.operandBytes = Bytes.littleEndian width.size old.toNat ∧
      ∀ move, (i.relocate move).operandBytes =
        Bytes.littleEndian width.size (move old).toNat := by
  have ho := Instruction.loaded?_eq_some_iff.1 hl
  cases hop : i.opcode? with
  | none =>
    rw [valid_iff_eq_none hop, ho] at h
    cases h
  | some op =>
    rw [valid_iff_admits hop, ho] at h
    generalize hs : op.shape = shape at h
    cases h with
    | string hw hs' =>
      rename_i width
      refine ⟨op, width, rfl, hs, hw, ?_, fun move ↦ ?_⟩
      · rw [Instruction.operandBytes, hop, ho, Option.elim, hs, Shape.operandBytes]
      · rw [Instruction.operandBytes, Instruction.relocate_opcode?, hop, Instruction.relocate, ho,
          Operand.relocate, Option.elim, hs, Shape.operandBytes]

theorem Valid.length_relocate_operandBytes {i : Instruction} (h : s.Valid i) :
    (i.relocate move).operandBytes.length = i.operandBytes.length := by
  cases hl : i.loaded? with
  | none => rw [Instruction.relocate_of_loaded?_eq_none hl]
  | some old =>
    obtain ⟨_, _, -, -, -, hold, hnew⟩ := h.exists_width hl
    rw [hold, hnew, Bytes.length_littleEndian, Bytes.length_littleEndian]

theorem Valid.length_relocate_bytes {i : Instruction} (h : s.Valid i) :
    (i.relocate move).bytes.length = i.size := by
  rw [Instruction.bytes, List.length_cons, h.length_relocate_operandBytes, h.length_operandBytes,
    Instruction.size]

theorem Valid.loaded?_isSome_iff {i : Instruction} (h : s.Valid i) :
    i.loaded?.isSome ↔ (i.opcode?.bind (·.stringWidth?)).isSome := by
  cases hop : i.opcode? with
  | none =>
    rw [valid_iff_eq_none hop] at h
    simp [Instruction.loaded?, h]
  | some op =>
    rw [valid_iff_admits hop] at h
    rw [Option.bind_some, Opcode.stringWidth?, Instruction.loaded?]
    generalize op.shape = shape, i.operand = o at h ⊢
    cases h <;> simp

theorem Admits.relocate {op : Opcode} {shape : Shape} {o : Operand} (h : s.Admits op shape o)
    {stringSize : Nat}
    (hfit : ∀ old, o = .string old →
      (Width.ofOffset (move old).toNat).size ≤ (Width.ofOffset old.toNat).size)
    (hsize : ∀ old, o = .string old → (move old).toNat < stringSize) :
    ({ s with stringSize := stringSize } : Scope).Admits op shape (o.relocate move) := by
  cases h with
  | bare => exact .bare
  | jump hto => exact .jump hto
  | value hw => exact .value hw
  | frame hw => exact .frame hw
  | call hi hf hs hc => exact .call hi hf hs hc
  | countedCall hi hw hf => exact .countedCall hi hw hf
  | string hw hs =>
    rename_i width old
    have hold := (Width.size_ofOffset_le_iff old.toNat_lt width).2 hw
    have hnew := Nat.le_trans (hfit old rfl) hold
    exact .string ((Width.size_ofOffset_le_iff (move old).toNat_lt width).1 hnew) (hsize old rfl)

/-- Moved strings stay valid if their new offsets fit their buckets and the new segment. -/
theorem Valid.relocate {i : Instruction} (h : s.Valid i) {stringSize : Nat}
    (hfit : i.MoveFits move)
    (hsize : ∀ old, i.loaded? = some old → (move old).toNat < stringSize) :
    ({ s with stringSize := stringSize } : Scope).Valid (i.relocate move) := by
  cases hop : i.opcode? with
  | none =>
    rw [valid_iff_eq_none hop] at h
    rw [valid_iff_eq_none (Instruction.relocate_opcode? move i ▸ hop), Instruction.relocate, h,
      Operand.relocate]
    exact fun _ ↦ Operand.noConfusion
  | some op =>
    rw [valid_iff_admits hop] at h
    rw [valid_iff_admits (Instruction.relocate_opcode? move i ▸ hop)]
    exact h.relocate (fun old ho ↦ hfit old (Instruction.loaded?_eq_some_iff.2 ho))
      fun old ho ↦ hsize old (Instruction.loaded?_eq_some_iff.2 ho)

/-- One patch sets the operand of the load at its address. -/
theorem patchFrom_load {i : Instruction} (hv : s.Valid i) {old : UInt32}
    (hl : i.loaded? = some old) {position : Nat} {front rest : List UInt8}
    (ha : i.address.toNat = position + front.length) {later : List Patch}
    (hfit : ¬(Width.ofOffset old.toNat).size < (Width.ofOffset (move old).toNat).size) :
    patchFrom position (front ++ (i.bytes ++ rest)) (⟨i.address, old, move old⟩ :: later) =
      (patchFrom (i.address.toNat + 1) ((i.relocate move).operandBytes ++ rest) later).map
        fun patched ↦ front ++ i.code :: patched := by
  obtain ⟨op, width, hop, hshape, -, hold, hnew⟩ := hv.exists_width hl
  have hskip : i.address.toNat - position = front.length := by omega
  have hwidth : (Opcode.ofByte? i.code).bind (·.stringWidth?) = some width := by
    change i.opcode?.bind (·.stringWidth?) = some width
    rw [hop]
    simp [Opcode.stringWidth?, hshape]
  have hsplit : Bytes.split? width.size (Bytes.littleEndian width.size old.toNat ++ rest) =
      some (Bytes.littleEndian width.size old.toNat, rest) :=
    Bytes.split?_eq_some_iff.2 ⟨rfl, Bytes.length_littleEndian ..⟩
  rw [patchFrom]
  dsimp only
  rw [if_neg hfit, hskip, List.drop_left, List.take_left, Instruction.bytes, hold, List.cons_append]
  dsimp only
  rw [hwidth, Option.bind_some, hsplit, hnew]
  rfl

/-- Patching the loads of some code, behind bytes that are left alone, moves their strings or fails
at the first that does not fit. The loads are found if their positions do not wrap. -/
theorem patchFrom_eq {position : Nat} {front : List UInt8} {is : List Instruction}
    (hp : Instruction.Placed (position + front.length) is) (hv : ∀ i ∈ is, s.Valid i)
    (hsize : position + front.length + (is.flatMap (·.bytes)).length ≤ UInt32.size) :
    patchFrom position (front ++ is.flatMap (·.bytes)) (Instruction.patches move is) =
      (is.mapM (Instruction.patched move)).map fun js ↦ front ++ js.flatMap (·.bytes) := by
  induction is generalizing position front with
  | nil => rfl
  | cons i later ih =>
    obtain ⟨ha, hlater⟩ := hp
    obtain ⟨hi, hvl⟩ := List.forall_mem_cons.1 hv
    rw [List.flatMap_cons, List.length_append, hi.length_bytes, ← Nat.add_assoc] at hsize
    have hsizes : i.size = i.operandSize + 1 := rfl
    have haddress : i.address.toNat = position + front.length := by
      rw [ha]
      exact UInt32.toNat_ofNat_of_lt' (by omega)
    rw [List.flatMap_cons, List.mapM_cons]
    cases hl : i.loaded? with
    | none =>
      -- the bytes of the instruction join those that are left alone
      have hfront : position + (front ++ i.bytes).length = position + front.length + i.size := by
        rw [List.length_append, hi.length_bytes, Nat.add_assoc]
      have hrest : patchFrom position ((front ++ i.bytes) ++ later.flatMap (·.bytes))
          (Instruction.patches move later) = (later.mapM (Instruction.patched move)).map
            fun js ↦ (front ++ i.bytes) ++ js.flatMap (·.bytes) :=
        ih (hfront ▸ hlater) hvl (hfront ▸ hsize)
      rw [Instruction.patches_cons_of_none hl, Instruction.patched_of_none hl, ← List.append_assoc,
        hrest, map_ok_bind_cons]
      simp only [List.flatMap_cons, List.append_assoc]
    | some old =>
      rw [Instruction.patches_cons_of_some hl]
      by_cases hover : (Width.ofOffset old.toNat).size < (Width.ofOffset (move old).toNat).size
      · have hone : i.patched move =
            .error (.offsetOverflow i.address old (move old) (Width.ofOffset old.toNat)) := by
          simp [Instruction.patched, hl, hover]
        rw [hone, patchFrom]
        dsimp only
        rw [if_pos hover]
        rfl
      · -- patching goes on behind the opcode, with the new operand left alone
        have hfront : i.address.toNat + 1 + (i.relocate move).operandBytes.length =
            position + front.length + i.size := by
          rw [hi.length_relocate_operandBytes, hi.length_operandBytes, haddress, hsizes]
          omega
        have hrest : patchFrom (i.address.toNat + 1) ((i.relocate move).operandBytes ++
            later.flatMap (·.bytes)) (Instruction.patches move later) =
              (later.mapM (Instruction.patched move)).map fun js ↦
                (i.relocate move).operandBytes ++ js.flatMap (·.bytes) :=
          ih (hfront ▸ hlater) hvl (hfront ▸ hsize)
        rw [patchFrom_load hi hl haddress hover, Instruction.patched_of_not_lt hl hover, hrest,
          map_map, map_ok_bind_cons]
        simp only [List.flatMap_cons, Instruction.bytes, Instruction.relocate_code,
          List.cons_append]

theorem walk_relocate {is : List Instruction} {stringSize : Nat} (hp : Instruction.Placed 0 is)
    (hv : ∀ i ∈ is, s.Valid i) (hfit : ∀ i ∈ is, i.MoveFits move)
    (hsize : ∀ i ∈ is, ∀ old, i.loaded? = some old → (move old).toNat < stringSize) :
    ({ s with stringSize := stringSize } : Scope).walk
      ((is.map (·.relocate move)).flatMap (·.bytes)) = ⟨is.map (·.relocate move), none⟩ := by
  refine walk_eq_none_iff.2 ⟨Instruction.placed_map_relocate.2 hp, fun j hj ↦ ?_, rfl⟩
  obtain ⟨i, hi, rfl⟩ := List.mem_map.1 hj
  exact (hv i hi).relocate (hfit i hi) (hsize i hi)

theorem length_relocate {is : List Instruction} (hv : ∀ i ∈ is, s.Valid i) :
    ((is.map (·.relocate move)).flatMap (·.bytes)).length = (is.flatMap (·.bytes)).length := by
  rw [List.flatMap_map, List.length_flatMap, List.length_flatMap]
  refine congrArg List.sum (List.map_congr_left fun i hi ↦ ?_)
  rw [(hv i hi).length_relocate_bytes, (hv i hi).length_bytes]

theorem getElem?_relocate {position : Nat} {is : List Instruction}
    (hp : Instruction.Placed position is) (hv : ∀ i ∈ is, s.Valid i)
    (hsize : position + (is.flatMap (·.bytes)).length ≤ UInt32.size) {n : Nat}
    (hn : ∀ i ∈ is, i.loaded?.isSome → ¬i.InOperand (position + n)) :
    ((is.map (·.relocate move)).flatMap (·.bytes))[n]? = (is.flatMap (·.bytes))[n]? := by
  induction is generalizing position n with
  | nil => rfl
  | cons i later ih =>
    obtain ⟨ha, hlater⟩ := hp
    obtain ⟨hi, hvl⟩ := List.forall_mem_cons.1 hv
    rw [List.flatMap_cons, List.length_append, hi.length_bytes, ← Nat.add_assoc] at hsize
    rw [List.map_cons, List.flatMap_cons, List.flatMap_cons]
    by_cases hlt : n < i.size
    · rw [List.getElem?_append_left (by rwa [hi.length_relocate_bytes]),
        List.getElem?_append_left (by rwa [hi.length_bytes])]
      cases hl : i.loaded? with
      | none => rw [Instruction.relocate_of_loaded?_eq_none hl]
      | some old =>
        -- of a load only the opcode byte lies outside its operand
        have hout := hn i (by simp) (by simp [hl])
        have haddress : i.address.toNat = position := by
          rw [ha]
          exact UInt32.toNat_ofNat_of_lt' (by omega)
        have hzero : n = 0 := by
          unfold Instruction.InOperand at hout
          omega
        subst hzero
        rfl
    · rw [List.getElem?_append_right (by rw [hi.length_relocate_bytes]; omega),
        List.getElem?_append_right (by rw [hi.length_bytes]; omega), hi.length_relocate_bytes,
        hi.length_bytes]
      apply ih hlater hvl hsize
      intro j hj hjl
      have hout := hn j (by simp [hj]) hjl
      rwa [Nat.add_assoc, Nat.add_sub_cancel' (by omega)]

end Scope

end NovelScript
