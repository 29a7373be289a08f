import NovelScript.Bytes.Word

/-!
The operand widths of the code segment, ordered from the narrowest.
-/

namespace NovelScript

inductive Width where
  | one
  | two
  | four
  deriving DecidableEq, Repr

namespace Width

def size : Width → Nat
  | one => 1
  | two => 2
  | four => 4

/-- The narrowest width that can hold an offset. -/
def ofOffset (offset : Nat) : Width :=
  if offset < 256 then one else if offset < 65536 then two else four

/-- The least number that a width cannot hold. -/
def bound (w : Width) : Nat := Bytes.capacity w.size

theorem bound_le (w : Width) : w.bound ≤ UInt32.size := by cases w <;> decide

theorem size_inj {v w : Width} (h : v.size = w.size) : v = w := by
  cases v <;> cases w <;> first | rfl | cases h

theorem littleEndian_one (byte : UInt8) :
    Bytes.littleEndian one.size byte.toNat = [byte] := by
  change [UInt8.ofNat byte.toNat] = [byte]
  rw [UInt8.ofNat_toNat]

theorem size_ofOffset_le_iff {offset : Nat} (h : offset < UInt32.size) (w : Width) :
    (ofOffset offset).size ≤ w.size ↔ offset < w.bound := by
  have hs : UInt32.size = 4294967296 := rfl
  unfold ofOffset bound
  split
  · cases w <;> simp only [size, Bytes.capacity] <;> omega
  · split <;> cases w <;> simp only [size, Bytes.capacity] <;> omega

end Width

end NovelScript
