import NovelScript.Proofs.Instruction.Encoding

/-!
Where instructions stand. Each stands where the bytes of those before it end, and its address is
that position as a word (`Placed.address_eq`). In code of at most 4 GiB no address wraps.
-/

namespace NovelScript

/-- Every byte of the code has an address of its own. -/
def Container.Addressable (c : Container) : Prop := c.code.size ≤ UInt32.size

instance (c : Container) : Decidable c.Addressable := inferInstanceAs (Decidable (_ ≤ _))

namespace Instruction

variable {s : Scope} {position : Nat} {is : List Instruction}

/-- The length of the code of some instructions. -/
def totalSize : List Instruction → Nat
  | [] => 0
  | i :: later => i.size + totalSize later

/-- Instructions in a row from a position on. -/
def place : Nat → List Instruction → List Instruction
  | _, [] => []
  | position, i :: later =>
    { i with address := .ofNat position } :: place (position + i.size) later

theorem size_pos (i : Instruction) : 0 < i.size := Nat.succ_pos _

@[simp] theorem totalSize_nil : totalSize [] = 0 := rfl

@[simp] theorem totalSize_cons (i : Instruction) (later : List Instruction) :
    totalSize (i :: later) = i.size + totalSize later := rfl

@[simp] theorem totalSize_append (front back : List Instruction) :
    totalSize (front ++ back) = totalSize front + totalSize back := by
  induction front with
  | nil => simp
  | cons i front ih => rw [List.cons_append, totalSize, totalSize, ih, Nat.add_assoc]

theorem length_flatMap_bytes {is : List Instruction} (h : ∀ i ∈ is, s.Valid i) :
    (is.flatMap (·.bytes)).length = totalSize is := by
  induction is with
  | nil => rfl
  | cons i later ih =>
    obtain ⟨hi, hlater⟩ := List.forall_mem_cons.1 h
    rw [List.flatMap_cons, List.length_append, hi.length_bytes, ih hlater, totalSize]

theorem placed_place (position : Nat) (is : List Instruction) :
    Placed position (place position is) := by
  induction is generalizing position with
  | nil => trivial
  | cons i later ih => exact ⟨rfl, ih (position + i.size)⟩

theorem flatMap_bytes_place (position : Nat) (is : List Instruction) :
    (place position is).flatMap (·.bytes) = is.flatMap (·.bytes) := by
  induction is generalizing position with
  | nil => rfl
  | cons i later ih =>
    rw [place, List.flatMap_cons, List.flatMap_cons, ih]
    rfl

theorem valid_of_mem_place {is : List Instruction} (h : ∀ i ∈ is, s.Valid i) (position : Nat) :
    ∀ i ∈ place position is, s.Valid i := by
  induction is generalizing position with
  | nil => exact List.forall_mem_nil _
  | cons i later ih =>
    obtain ⟨hi, hlater⟩ := List.forall_mem_cons.1 h
    exact List.forall_mem_cons.2 ⟨hi, ih hlater _⟩

/-- An instruction stands where those before it end. -/
theorem Placed.address_eq {before : List Instruction} {i : Instruction} {after : List Instruction}
    (h : Placed position (before ++ i :: after)) :
    i.address = .ofNat (position + totalSize before) := by
  induction before generalizing position with
  | nil => exact h.1
  | cons j before ih =>
    rw [totalSize, ← Nat.add_assoc]
    exact ih h.2

/-- Positions that do not wrap are the addresses. -/
theorem Placed.toNat_address {before : List Instruction} {i : Instruction}
    {after : List Instruction} (h : Placed 0 (before ++ i :: after))
    (hsize : totalSize (before ++ i :: after) ≤ UInt32.size) :
    i.address.toNat = totalSize before := by
  have hpos := i.size_pos
  rw [totalSize_append, totalSize] at hsize
  rw [h.address_eq, Nat.zero_add]
  exact UInt32.toNat_ofNat_of_lt' (by omega)

/-- Positions that do not wrap ascend. -/
theorem Placed.ascending (h : Placed position is) (hsize : position + totalSize is ≤ UInt32.size) :
    (∀ i ∈ is, position ≤ i.address.toNat ∧
      i.address.toNat + i.size ≤ position + totalSize is) ∧
      is.Pairwise (·.address < ·.address) := by
  induction is generalizing position with
  | nil => simp
  | cons i later ih =>
    obtain ⟨ha, hlater⟩ := h
    rw [totalSize, ← Nat.add_assoc] at hsize ⊢
    have hpos := i.size_pos
    have hposition : i.address.toNat = position := by
      rw [ha]
      exact UInt32.toNat_ofNat_of_lt' (by omega)
    obtain ⟨hwithin, hpairwise⟩ := ih hlater hsize
    refine ⟨List.forall_mem_cons.2 ⟨by omega, fun j hj ↦ ?_⟩,
      List.pairwise_cons.2 ⟨fun j hj ↦ UInt32.lt_iff_toNat_lt.2 ?_, hpairwise⟩⟩
    · have hj := hwithin j hj
      omega
    · have hj := hwithin j hj
      omega

end Instruction

end NovelScript
