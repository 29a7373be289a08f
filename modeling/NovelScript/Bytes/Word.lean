/-!
Little-endian words. A number becomes exactly `width` bytes, least significant first, and
bytes become a number; `ofLittleEndian_littleEndian` and `littleEndian_ofLittleEndian` say
that each undoes the other.
-/

namespace NovelScript.Bytes

/-- Bytes above the width are dropped. -/
def littleEndian : Nat → Nat → List UInt8
  | 0, _ => []
  | width + 1, n => UInt8.ofNat n :: littleEndian width (n / 256)

def ofLittleEndian : List UInt8 → Nat
  | [] => 0
  | b :: rest => b.toNat + 256 * ofLittleEndian rest

/-- The number of values that `width` bytes can hold. -/
def capacity : Nat → Nat
  | 0 => 1
  | width + 1 => 256 * capacity width

theorem capacity_le {m n : Nat} (h : m ≤ n) : capacity m ≤ capacity n := by
  induction h with
  | refl => exact Nat.le_refl _
  | step _ ih => exact Nat.le_trans ih (Nat.le_mul_of_pos_left _ (by decide))

@[simp] theorem length_littleEndian (width n : Nat) : (littleEndian width n).length = width := by
  induction width generalizing n with
  | zero => rfl
  | succ width ih => simp only [littleEndian, List.length_cons, ih]

theorem ofLittleEndian_littleEndian (width n : Nat) :
    ofLittleEndian (littleEndian width n) = n % capacity width := by
  induction width generalizing n with
  | zero => simp only [littleEndian, ofLittleEndian, capacity, Nat.mod_one]
  | succ width ih =>
    rw [littleEndian, ofLittleEndian, ih, capacity, Nat.mod_mul]
    rfl

theorem ofLittleEndian_lt (bytes : List UInt8) :
    ofLittleEndian bytes < capacity bytes.length := by
  induction bytes with
  | nil => exact Nat.one_pos
  | cons b rest ih =>
    rw [ofLittleEndian, List.length_cons, capacity]
    have hb : b.toNat < 256 := b.toNat_lt
    omega

theorem littleEndian_ofLittleEndian (bytes : List UInt8) :
    littleEndian bytes.length (ofLittleEndian bytes) = bytes := by
  induction bytes with
  | nil => rfl
  | cons b rest ih =>
    have hb : b.toNat < 256 := b.toNat_lt
    rw [List.length_cons, littleEndian, ofLittleEndian]
    congr 1
    · exact UInt8.toNat_inj.1 (by rw [UInt8.toNat_ofNat']; omega)
    · rw [Nat.add_mul_div_left _ _ (by decide), Nat.div_eq_of_lt hb, Nat.zero_add, ih]

def ofWord (word : UInt32) : List UInt8 := littleEndian 4 word.toNat

def toWord (bytes : List UInt8) : UInt32 := UInt32.ofNat (ofLittleEndian bytes)

@[simp] theorem length_ofWord (word : UInt32) : (ofWord word).length = 4 :=
  length_littleEndian 4 _

@[simp] theorem toWord_ofWord (word : UInt32) : toWord (ofWord word) = word := by
  have hw : word.toNat < capacity 4 := word.toNat_lt
  rw [toWord, ofWord, ofLittleEndian_littleEndian, Nat.mod_eq_of_lt hw, UInt32.ofNat_toNat]

theorem toWord_eq_iff {bytes : List UInt8} (h : bytes.length ≤ 4) {word : UInt32} :
    toWord bytes = word ↔
      word.toNat < capacity bytes.length ∧ bytes = littleEndian bytes.length word.toNat := by
  have hb := ofLittleEndian_lt bytes
  have hsize : ofLittleEndian bytes < UInt32.size := Nat.lt_of_lt_of_le hb (capacity_le h)
  constructor
  · intro h
    subst h
    have hn : (toWord bytes).toNat = ofLittleEndian bytes := by
      rw [toWord, UInt32.toNat_ofNat']
      exact Nat.mod_eq_of_lt hsize
    rw [hn, littleEndian_ofLittleEndian]
    exact ⟨hb, rfl⟩
  · intro h
    obtain ⟨hw, he⟩ := h
    rw [toWord, he, ofLittleEndian_littleEndian, Nat.mod_eq_of_lt hw, UInt32.ofNat_toNat]

/-- The first `n` bytes and what follows them, if there are that many. -/
def split? (n : Nat) (bytes : List UInt8) : Option (List UInt8 × List UInt8) :=
  let front := bytes.take n
  if front.length = n then some (front, bytes.drop n) else none

theorem split?_append (front rest : List UInt8) :
    split? front.length (front ++ rest) = some (front, rest) := by
  simp [split?]

theorem split?_eq_some_iff {n : Nat} {bytes front rest : List UInt8} :
    split? n bytes = some (front, rest) ↔ bytes = front ++ rest ∧ front.length = n := by
  constructor
  · intro h
    simp only [split?] at h
    split at h
    · rename_i hn
      cases h
      exact ⟨(List.take_append_drop n bytes).symm, hn⟩
    · cases h
  · intro h
    obtain ⟨rfl, rfl⟩ := h
    exact split?_append front rest

theorem split?_eq_none_iff {n : Nat} {bytes : List UInt8} :
    split? n bytes = none ↔ bytes.length < n := by
  simp only [split?, List.length_take]
  split <;> simp <;> omega

end NovelScript.Bytes
