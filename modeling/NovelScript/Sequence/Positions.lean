import Std.Data.TreeMap.Lemmas

/-!
The first position of each key of a list, in a map for quick look-up.
-/

namespace NovelScript

variable {α : Type} [Ord α]

def positionsFrom (start : Nat) : List α → Std.TreeMap α Nat
  | [] => ∅
  | key :: rest => (positionsFrom (start + 1) rest).insert key start

def positions (keys : List α) : Std.TreeMap α Nat := positionsFrom 0 keys

variable [Std.TransOrd α] [Std.LawfulEqOrd α] [BEq α] [LawfulBEq α]

theorem getElem?_positionsFrom (start : Nat) (keys : List α) (key : α) :
    (positionsFrom start keys)[key]? = (keys.idxOf? key).map (start + ·) := by
  induction keys generalizing start with
  | nil => simp [positionsFrom]
  | cons k rest ih =>
    rw [positionsFrom, Std.TreeMap.getElem?_insert, List.idxOf?_cons, ih]
    by_cases h : k = key
    · simp [h]
    · have hc : ¬compare k key = .eq := fun hc ↦ h (Std.LawfulEqOrd.eq_of_compare hc)
      have hb : (k == key) = false := beq_eq_false_iff_ne.2 h
      rw [if_neg hc, hb]
      cases rest.idxOf? key with
      | none => rfl
      | some n => exact congrArg some (by dsimp only; omega)

theorem getElem?_positions (keys : List α) (key : α) :
    (positions keys)[key]? = keys.idxOf? key := by
  rw [positions, getElem?_positionsFrom]
  cases keys.idxOf? key <;> simp

end NovelScript
