import NovelScript.Proofs.Packing.Fitting
import NovelScript.Proofs.Packing.MessageTable

/-!
How packing fails. Strings fail where one outgrows its bucket (`repackStrings_eq_error`), and both
segments where they reach the end of 32-bit offsets.
-/

namespace NovelScript

open Instruction Outcome

/-- Strings fail to be laid out only in a segment of 4 GiB. -/
theorem PackedString.movesFrom_eq_error {offset : Nat} {strings : List PackedString}
    {e : PackingError} (h : movesFrom offset strings = .error e) :
    e = .segmentTooLarge "string" ∧ UInt32.size ≤ offset + total strings := by
  induction strings generalizing offset with
  | nil => cases h
  | cons s later ih =>
    rw [movesFrom] at h
    split at h
    · rename_i hlarge
      cases h
      exact ⟨rfl, Nat.le_add_right_of_le hlarge⟩
    · obtain h | ⟨_, -, h⟩ := bind_eq_error_iff.1 h
      · obtain ⟨he, hlarge⟩ := ih h
        rw [total_cons, ← Nat.add_assoc]
        exact ⟨he, hlarge⟩
      · cases h

theorem Instruction.patched_eq_error_iff {i : Instruction} {move : UInt32 → UInt32}
    {e : PackingError} : i.patched move = .error e ↔ ∃ old, i.loaded? = some old ∧
      (bucketOf old).size < (bucketOf (move old)).size ∧
        e = .offsetOverflow i.address old (move old) (bucketOf old) := by
  unfold patched bucketOf
  cases i.loaded? with
  | none => simp
  | some old =>
    dsimp only
    split <;> rename_i hover <;> simp [hover, eq_comm]

variable {c : Container} {names : NameIndex} {is : List Instruction}

/-- Packing strings that all have a text fails where a load cannot be patched to the place of its
text, or already where they cannot be laid out. -/
theorem repackStrings_error_cases {texts : Std.TreeMap UInt32 String} {textOf : UInt32 → String}
    (hsize : c.Addressable) (hw : c.walk names = ⟨is, none⟩)
    (ht : ∀ i ∈ is, ∀ old, i.loaded? = some old → texts[old]? = some (textOf old))
    {e : PackingError} (h : c.repackStrings (loads is) texts = .error e) :
    (∃ moves, PackedString.movesFrom 0 (packed textOf is) = .ok moves ∧
      ∃ i ∈ is, ∃ old, i.loaded? = some old ∧
        (bucketOf old).size < (bucketOf (moveBy moves old)).size ∧
        e = .offsetOverflow i.address old (moveBy moves old) (bucketOf old)) ∨
      PackedString.movesFrom 0 (packed textOf is) = .error e := by
  rw [repackStrings_eq hsize hw ht] at h
  obtain h | ⟨moves, hmoves, h⟩ := bind_eq_error_iff.1 h
  · exact .inr h
  · obtain ⟨before, i, after, rfl, -, hi⟩ := mapM_eq_error_iff.1 (map_eq_error_iff.1 h)
    exact .inl ⟨moves, hmoves, i, by simp, patched_eq_error_iff.1 hi⟩

/-- Pieces fail to be laid out only in a segment of 4 GiB. -/
theorem layOutFrom_eq_error {start : Nat} {pieces : List (List UInt8)} {e : PackingError}
    (h : layOutFrom start pieces = .error e) :
    e = .segmentTooLarge "message" ∧ UInt32.size ≤ start + pieces.flatten.length := by
  induction pieces generalizing start with
  | nil =>
    rw [layOutFrom] at h
    split at h
    · cases h
    · rename_i hlarge
      cases h
      exact ⟨rfl, Nat.not_lt.1 hlarge⟩
  | cons piece later ih =>
    rw [List.flatten_cons, List.length_append, ← Nat.add_assoc]
    rw [layOutFrom] at h
    split at h
    · rename_i hlarge
      cases h
      refine ⟨rfl, ?_⟩
      omega
    · obtain h | ⟨_, -, h⟩ := bind_eq_error_iff.1 h
      · exact ih h
      · cases h

theorem Container.repackMessages_eq_error {texts : List String}
    (hcount : texts.length = c.messages.size) {e : PackingError}
    (h : c.repackMessages texts = .error e) :
    e = .segmentTooLarge "message" ∧ UInt32.size ≤ (c.messagePieces texts).flatten.length := by
  rw [repackMessages, if_neg (Decidable.not_not.2 hcount)] at h
  obtain h | ⟨_, -, h⟩ := bind_eq_error_iff.1 h
  · obtain ⟨he, hlarge⟩ := layOutFrom_eq_error h
    exact ⟨he, by rwa [Nat.zero_add] at hlarge⟩
  · cases h

/-- Texts for all messages can be packed just if their pieces take up less than 4 GiB. -/
theorem Container.repackMessages_of_length {texts : List String}
    (hcount : texts.length = c.messages.size) :
    ((c.messagePieces texts).flatten.length < UInt32.size → ∃ c', c.repackMessages texts = .ok c') ∧
      (UInt32.size ≤ (c.messagePieces texts).flatten.length →
        c.repackMessages texts = .error (.segmentTooLarge "message")) := by
  cases h : c.repackMessages texts with
  | ok c' =>
    obtain ⟨-, es, hes, -⟩ := repackMessages_eq_ok_iff.1 h
    obtain ⟨hlt, -⟩ := layOutFrom_eq_ok_iff.1 hes
    rw [Nat.zero_add] at hlt
    exact ⟨fun _ ↦ ⟨c', rfl⟩, fun hge ↦ absurd hlt (Nat.not_lt.2 hge)⟩
  | error e =>
    obtain ⟨rfl, hge⟩ := repackMessages_eq_error hcount h
    exact ⟨fun hlt ↦ absurd hlt (Nat.not_lt.2 hge), fun _ ↦ rfl⟩

/-- A text of nothing but letters. The bytes of 2 ^ 31 letters fill 4 GiB. -/
def letters (n : Nat) : String := String.ofList (List.replicate n 'a')

theorem toList_letters (n : Nat) : (letters n).toList = List.replicate n 'a' :=
  String.toList_ofList

theorem length_toBytes_letters (n : Nat) : (Utf16.toBytes (letters n)).length = 2 * n := by
  have hunits : (Utf16.encode (List.replicate n 'a')).length = n := by
    rw [Utf16.encode, List.length_flatMap, List.map_replicate, List.sum_replicate_nat]
    exact Nat.mul_one n
  rw [Utf16.toBytes, toList_letters, Utf16.length_unitBytes, hunits]

end NovelScript
