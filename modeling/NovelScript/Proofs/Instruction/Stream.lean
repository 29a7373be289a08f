import NovelScript.Proofs.Instruction.Encoding

/-!
A walk one item at a time. A decoder that is asked again and again gives the instructions of the
walk in order, then the error that ends it, and then nothing (`pull_eq_getElem?`). There are at most
as many items as bytes.
-/

namespace NovelScript

/-- All that a walk comes across. -/
def Walk.items (w : Walk) : List (Except DecodeError Instruction) :=
  w.instructions.map .ok ++ (w.failure?.map .error).toList

/-- An error is the last item. -/
theorem Walk.getElem?_items_of_error {w : Walk} {m n : Nat} {e : DecodeError}
    (h : w.items[m]? = some (.error e)) (hlt : m < n) : w.items[n]? = none := by
  have hle : w.instructions.length ≤ m := by
    refine Nat.le_of_not_lt fun hm ↦ ?_
    rw [items, List.getElem?_append_left (by simpa using hm), List.getElem?_map] at h
    obtain ⟨i, -, hi⟩ := Option.map_eq_some_iff.1 h
    cases hi
  have hlen : w.items.length ≤ w.instructions.length + 1 := by
    rw [items, List.length_append, List.length_map]
    cases w.failure? <;> simp
  exact List.getElem?_eq_none (by omega)

/-- Where a decoder reads on, unless it has met an error. -/
structure Decoder where
  position : Nat := 0
  done : Bool := false
  deriving DecidableEq, Repr

namespace Scope

variable (s : Scope) (code : List UInt8)

def next (d : Decoder) : Option (Except DecodeError Instruction) × Decoder :=
  match d.done, code.drop d.position with
  | false, byte :: rest =>
    match s.instruction (.ofNat d.position) byte rest with
    | .ok i => (some (.ok i), { d with position := d.position + i.size })
    | .error e => (some (.error e), { d with done := true })
  | _, _ => (none, d)

/-- What a decoder gives when it has been asked `n` times before. -/
def pull : Nat → Decoder → Option (Except DecodeError Instruction)
  | 0, d => (s.next code d).1
  | n + 1, d => pull n (s.next code d).2

/-- What a decoder has still to give. -/
def remaining (d : Decoder) : List (Except DecodeError Instruction) :=
  if d.done then [] else (s.walkAfter 0 d.position (code.drop d.position)).items

variable {s : Scope} {code : List UInt8}

theorem remaining_of_drop {position : Nat} {bytes : List UInt8} (h : code.drop position = bytes) :
    s.remaining code ⟨position, false⟩ = (s.walkAfter 0 position bytes).items := by
  rw [← h]
  rfl

theorem items_walkAfter_of_error {position : Nat} {byte : UInt8} {rest : List UInt8}
    {e : DecodeError} (h : s.instruction (.ofNat position) byte rest = .error e) :
    (s.walkAfter 0 position (byte :: rest)).items = [.error e] := by
  rw [walkAfter, h]
  rfl

theorem items_walkAfter_of_ok {position : Nat} {byte : UInt8} {rest : List UInt8}
    {i : Instruction} (h : s.instruction (.ofNat position) byte rest = .ok i) :
    (s.walkAfter 0 position (byte :: rest)).items =
      .ok i :: (s.walkAfter 0 (position + i.size) ((byte :: rest).drop i.size)).items := by
  obtain ⟨ha, hv, after, hbytes⟩ := instruction_eq_ok_iff.1 h
  rw [hbytes, walkAfter_cons ha hv, ← hv.length_bytes, List.drop_left]
  rfl

/-- A decoder gives the first of what it has still to give, and keeps the others. -/
theorem next_eq (d : Decoder) :
    (s.next code d).1 = (s.remaining code d).head? ∧
      s.remaining code (s.next code d).2 = (s.remaining code d).tail := by
  obtain ⟨position, done⟩ := d
  cases done with
  | true => exact ⟨rfl, rfl⟩
  | false =>
    cases hcode : code.drop position with
    | nil =>
      have hnext : s.next code ⟨position, false⟩ = (none, ⟨position, false⟩) := by
        simp only [next, hcode]
      rw [hnext, remaining_of_drop hcode]
      exact ⟨rfl, rfl⟩
    | cons byte rest =>
      cases hi : s.instruction (.ofNat position) byte rest with
      | error e =>
        have hnext : s.next code ⟨position, false⟩ = (some (.error e), ⟨position, true⟩) := by
          simp only [next, hcode, hi]
        rw [hnext, remaining_of_drop hcode, items_walkAfter_of_error hi]
        exact ⟨rfl, rfl⟩
      | ok i =>
        have hnext : s.next code ⟨position, false⟩ =
            (some (.ok i), ⟨position + i.size, false⟩) := by
          simp only [next, hcode, hi]
        rw [hnext, remaining_of_drop hcode, items_walkAfter_of_ok hi, ← hcode, List.drop_drop]
        exact ⟨rfl, rfl⟩

theorem pull_eq_remaining (n : Nat) (d : Decoder) :
    s.pull code n d = (s.remaining code d)[n]? := by
  induction n generalizing d with
  | zero => rw [pull, (next_eq d).1, List.head?_eq_getElem?]
  | succ n ih => rw [pull, ih, (next_eq d).2, List.getElem?_tail]

/-- A decoder gives the items of a walk in order, and then nothing. -/
theorem pull_eq_getElem? (n : Nat) : s.pull code n {} = (s.walk code).items[n]? :=
  pull_eq_remaining n {}

theorem length_items_walkAfter_le (skip position : Nat) (bytes : List UInt8) :
    (s.walkAfter skip position bytes).items.length ≤ bytes.length := by
  induction bytes generalizing skip position with
  | nil => cases skip <;> exact Nat.le_refl 0
  | cons byte rest ih =>
    cases skip with
    | succ skip => exact Nat.le_succ_of_le (ih skip (position + 1))
    | zero =>
      rw [walkAfter]
      cases s.instruction (.ofNat position) byte rest with
      | error e => exact Nat.succ_le_succ (Nat.zero_le _)
      | ok i => exact Nat.succ_le_succ (ih i.operandSize (position + 1))

end Scope

end NovelScript
